import Mathlib.Tactic
import PageFaultOS.Mm.Tables
import PageFaultOS.Mm.MapPages

/-! `Uvmalloc` and `UvmDealloc` of `mm/vm.cpp`, called one after the other as `growproc`
calls them. A call keeps the address space as its size says exactly when it maps nothing. -/

namespace PageFaultOS
open Exec Exec.Comp ByteMem

/-- A call with the current size and a new one. -/
inductive UvmCall where
  | alloc (newsize : Nat)
  | dealloc (newsize : Nat)

/-- The size after a call. A `Uvmalloc` that returns `0` leaves it. -/
def uvmCall (pagetable kpagetable size : Nat) : UvmCall → MemComp Nat
  | .alloc newsize => do
    let sz ← uvmalloc pagetable kpagetable size newsize
    pure (if sz = 0 then size else sz)
  | .dealloc newsize => uvmDealloc pagetable kpagetable size newsize

/-- The user pages below `size`, and no others, are mapped, each to a page of its own, and
`kpagetable` maps them to the same pages without `PTE_U`. -/
def UserSpace (pagetable kpagetable size : Nat) (σ : MemState) : Prop :=
  ∃ frame flags : Nat → Nat,
    (∀ va < maxuva, translate σ.mem pagetable va =
      if va < pgroundup size then some (frame (va / 4096), flags (va / 4096)) else none) ∧
    (∀ va < maxuva, translate σ.mem kpagetable va =
      if va < pgroundup size then
        some (frame (va / 4096), flags (va / 4096) &&& (2 ^ 64 - 1 - pteU))
      else none) ∧
    (∀ va < pgroundup size, Managed σ.kernelEnd (frame (va / 4096))) ∧
    ∀ va < pgroundup size, ∀ vb < pgroundup size,
      frame (va / 4096) = frame (vb / 4096) → va / 4096 = vb / 4096

/-- No call of `calls` panics, and the user space is as its size says before the first,
between two and after the last. -/
def UvmCallsMeet (pagetable kpagetable : Nat) : List UvmCall → Nat → MemState → Prop
  | [], size, σ => UserSpace pagetable kpagetable size σ
  | call :: calls, size, σ => UserSpace pagetable kpagetable size σ ∧
    (uvmCall pagetable kpagetable size call σ).Holds
      (fun size' σ' => UvmCallsMeet pagetable kpagetable calls size' σ') (fun _ _ => False)

/-- There is nothing to map, or the free pages are too few for the first page and the
tables that it lacks. -/
def MapsNothing (pagetable : Nat) (σ : MemState) : UvmCall → Prop
  | .alloc newsize => newsize = 0 ∨ σ.npages ≤ missing σ.mem pagetable 0
  | .dealloc _ => True

/-- Each call of `calls` finds it so. -/
def CallsMapNothing (pagetable kpagetable : Nat) : List UvmCall → Nat → MemState → Prop
  | [], _, _ => True
  | call :: calls, size, σ => MapsNothing pagetable σ call ∧
    (uvmCall pagetable kpagetable size call σ).Holds
      (fun size' σ' => CallsMapNothing pagetable kpagetable calls size' σ') (fun _ _ => True)

/-- Nothing is mapped at user addresses. -/
structure EmptySpace (pagetable kpagetable : Nat) (σ : MemState) : Prop where
  tables : ∃ l, Tables [pagetable, kpagetable] σ l
  kernel : kernbase ≤ σ.kernelEnd
  empty : ∀ root ∈ [pagetable, kpagetable], ∀ va < maxuva, pteOf σ.mem root va = 0

variable {pt kpt : Nat} {σ : MemState}

private theorem pt_mem : pt ∈ [pt, kpt] := List.mem_cons_self ..

private theorem kpt_mem : kpt ∈ [pt, kpt] :=
  List.mem_cons_of_mem _ (List.mem_singleton.mpr rfl)

theorem uvmDealloc_le {oldsize newsize : Nat} (h : oldsize ≤ newsize) :
    uvmDealloc pt kpt oldsize newsize σ = .ok oldsize σ := by
  simp only [uvmDealloc, h, if_true, pure_apply]

theorem EmptySpace.userSpace (h : EmptySpace pt kpt σ) : UserSpace pt kpt 0 σ := by
  have hup : pgroundup 0 = 0 := by decide
  have hnone : ∀ root ∈ [pt, kpt], ∀ va < maxuva, translate σ.mem root va = none := by
    intro root hroot va hva
    rw [translate, h.empty root hroot va hva]
    decide
  refine ⟨fun _ => 0, fun _ => 0, fun va hva => ?_, fun va hva => ?_, fun va hva => ?_,
    fun va hva => ?_⟩
  · rw [hup, if_neg (Nat.not_lt_zero va)]
    exact hnone pt pt_mem va hva
  · rw [hup, if_neg (Nat.not_lt_zero va)]
    exact hnone kpt kpt_mem va hva
  · rw [hup] at hva
    exact absurd hva (Nat.not_lt_zero va)
  · rw [hup] at hva
    exact absurd hva (Nat.not_lt_zero va)

/-! ## Calls that map nothing -/

/-- With too few free pages `Uvmalloc` gives everything back. -/
theorem uvmallocPage_short (h : EmptySpace pt kpt σ)
    (hshort : σ.npages ≤ missing σ.mem pt 0) :
    ∃ σ', uvmallocPage pt kpt 0 0 σ = .ok (.inr 0) σ' ∧ EmptySpace pt kpt σ' := by
  obtain ⟨l, htables⟩ := h.tables
  rw [htables.free.count] at hshort
  rcases kalloc_tables htables with ⟨_, hrun⟩ | ⟨page, l1, hl, hrun, htables1, howned, hsame⟩
  · refine ⟨σ, ?_, h⟩
    unfold uvmallocPage
    rw [bind_ok hrun]
    simp only [if_true]
    rw [bind_ok (uvmDealloc_le (le_refl 0))]
    rfl
  · obtain ⟨htables2, howned2, hsame2⟩ := howned.write htables1
      (fill_apply_of_outside (allocated σ page).mem page pgsize 0)
    have hmissing : missing (fill (allocated σ page).mem page pgsize 0) pt (pgrounddown 0) =
        missing σ.mem pt 0 := by
      rw [pgrounddown_zero, (hsame2 pt pt_mem).missing, (hsame pt pt_mem).missing]
    rw [hl, List.length_cons] at hshort
    obtain ⟨s, l3, hmap, hkept, hentries⟩ := mapPages_fails pt_mem htables2 0 pgsize page
      (pteW ||| pteX ||| pteR ||| pteU) (by decide) (by rw [hmissing]; omega)
    obtain ⟨hfree, htables4, hsame4⟩ := (howned2.kept hkept).kfree hkept.tables
    refine ⟨freed s page, ?_, ⟨_, htables4⟩, ?_, fun root hroot va hva => ?_⟩
    · unfold uvmallocPage
      rw [bind_ok hrun]
      simp only [howned.ne_zero, if_false, memset, modify_bind]
      rw [bind_ok hmap]
      unfold uvmallocMapped
      rw [if_pos (by decide), bind_ok hfree, bind_ok (uvmDealloc_le (le_refl 0))]
      rfl
    · have hend : (freed s page).kernelEnd = s.kernelEnd := rfl
      rw [hend, hkept.kernelEnd]
      exact h.kernel
    · rw [(hsame4 root hroot).pteOf, hentries root hroot va, (hsame2 root hroot).pteOf,
        (hsame root hroot).pteOf, h.empty root hroot va hva]

/-- Such a call leaves the space empty and its size `0`. -/
theorem uvmCall_mapsNothing (h : EmptySpace pt kpt σ) {call : UvmCall}
    (hcall : MapsNothing pt σ call) :
    ∃ σ', uvmCall pt kpt 0 call σ = .ok 0 σ' ∧ EmptySpace pt kpt σ' := by
  cases call with
  | alloc newsize =>
    have hstart : uvmalloc pt kpt 0 newsize σ =
        loop (uvmallocRound pt kpt 0 newsize) pageRounds 0 σ := by
      rw [uvmalloc, if_neg (Nat.not_lt_zero _), pgrounddown_zero]
    by_cases hnew : newsize = 0
    · subst hnew
      have hround : uvmallocRound pt kpt 0 0 0 σ = .ok (.inr 0) σ := rfl
      refine ⟨σ, ?_, h⟩
      rw [uvmCall, bind_ok (hstart.trans (loop_done hround _))]
      rfl
    · have hshort : σ.npages ≤ missing σ.mem pt 0 := hcall.resolve_left hnew
      obtain ⟨σ', hpage, hempty⟩ := uvmallocPage_short h hshort
      have hround : uvmallocRound pt kpt 0 newsize 0 σ = .ok (.inr 0) σ' := by
        simp only [uvmallocRound, Nat.pos_of_ne_zero hnew, not_true_eq_false, if_false, hpage]
      refine ⟨σ', ?_, hempty⟩
      rw [uvmCall, bind_ok (hstart.trans (loop_done hround _))]
      rfl
  | dealloc newsize => exact ⟨σ, uvmDealloc_le (Nat.zero_le newsize), h⟩

/-! ## Calls that map -/

/-- Within one page there is nothing to unmap. -/
theorem uvmDealloc_samePage {oldsize newsize : Nat} (h : newsize < oldsize)
    (hpages : pgrounddown oldsize ≤ pgrounddown newsize) :
    uvmDealloc pt kpt oldsize newsize σ = .ok newsize σ := by
  unfold uvmDealloc
  rw [if_neg (Nat.not_le.mpr h), if_neg (Nat.not_lt.mpr hpages)]
  rfl

/-- An `UvmDealloc` that returns has changed nothing. -/
theorem uvmDealloc_state (oldsize newsize : Nat) (hend : 0 < σ.kernelEnd) :
    (uvmDealloc pt kpt oldsize newsize σ).Holds (fun _ σ' => σ' = σ) (fun _ _ => True) := by
  by_cases hle : oldsize ≤ newsize
  · rw [uvmDealloc_le hle]
    rfl
  by_cases hpages : pgrounddown newsize < pgrounddown oldsize
  · unfold uvmDealloc
    rw [if_neg hle, if_pos hpages]
    refine Res.holds_bind (vmunmap_state kpt _ _ false σ hend) ?_
    rintro _ s rfl
    refine Res.holds_bind (vmunmap_state pt _ _ true s hend) ?_
    rintro _ s' rfl
    rfl
  · rw [uvmDealloc_samePage (Nat.not_le.mp hle) (Nat.not_lt.mp hpages)]
    rfl

/-- With pages to unmap it does not return. -/
theorem uvmDealloc_faults {oldsize newsize : Nat} (hend : 0 < σ.kernelEnd)
    (hlt : pgrounddown newsize < pgrounddown oldsize) (hnew : newsize < oldsize)
    (hold : oldsize < 2 ^ 40) :
    ∃ e s, uvmDealloc pt kpt oldsize newsize σ = .fault e s := by
  have h1 := pgrounddown_eq (a := oldsize) (by omega)
  have h2 := pgrounddown_eq (a := newsize) (by omega)
  have hpages : pgrounddown newsize < u64 (pgrounddown newsize +
      u64OfInt ((pgrounddown oldsize - pgrounddown newsize) / pgsize) * pgsize) := by
    have hcount : (pgrounddown oldsize - pgrounddown newsize) / pgsize =
        oldsize / 4096 - newsize / 4096 := by
      rw [h1, h2, ← Nat.sub_mul]
      exact Nat.mul_div_cancel _ (by decide)
    have hsize : pgsize = 4096 := rfl
    rw [hcount, hsize, u64OfInt, if_pos (by omega), Nat.mod_eq_of_lt (by omega), u64,
      Nat.mod_eq_of_lt (by omega)]
    omega
  unfold uvmDealloc
  rw [if_neg (Nat.not_le.mpr hnew), if_pos hlt]
  cases hkernel : vmunmap kpt (pgrounddown newsize)
    (u64OfInt ((pgrounddown oldsize - pgrounddown newsize) / pgsize)) false σ with
  | fault e s => exact ⟨e, s, bind_fault hkernel _⟩
  | ok u s =>
    have hsame := vmunmap_state kpt (pgrounddown newsize)
      (u64OfInt ((pgrounddown oldsize - pgrounddown newsize) / pgsize)) false σ hend
    rw [hkernel] at hsame
    obtain rfl : s = σ := hsame
    obtain ⟨e, s', huser⟩ : ∃ e s', vmunmap pt (pgrounddown newsize)
        (u64OfInt ((pgrounddown oldsize - pgrounddown newsize) / pgsize)) true s = .fault e s' :=
      vmunmap_frees_none hend hpages
    exact ⟨e, s', (bind_ok hkernel _).trans (bind_fault huser _)⟩

/-- `temp` is a page of a call. -/
structure CallPage (oldsize temp : Nat) : Prop where
  aligned : oldsize % 4096 = 0
  tempAligned : temp % 4096 = 0
  le : oldsize ≤ temp
  small : temp < 2 ^ 40

/-- The pages up to `temp` are some. -/
theorem CallPage.unmaps {oldsize temp : Nat} (h : CallPage oldsize temp) :
    oldsize < u64 (oldsize + u64OfInt ((temp - oldsize) / pgsize + 1) * pgsize) := by
  obtain ⟨hold, htemp, hle, hsmall⟩ := h
  have hsize : pgsize = 4096 := rfl
  rw [hsize, u64OfInt, if_pos (by omega), Nat.mod_eq_of_lt (by omega), u64,
    Nat.mod_eq_of_lt (by omega)]
  omega

/-- A round that fails unmaps the pages before it, so behind the first page it does not return. -/
theorem uvmDealloc_round (oldsize temp : Nat) (hend : 0 < σ.kernelEnd) :
    ((uvmDealloc pt kpt temp oldsize >>= fun _ => pure (.inr 0) : MemComp (Nat ⊕ Nat)) σ).Holds
      (fun x σ' => σ' = σ ∧ x = .inr 0 ∧ (CallPage oldsize temp → temp = oldsize))
      (fun _ _ => True) := by
  cases hrun : uvmDealloc pt kpt temp oldsize σ with
  | fault e s =>
    rw [bind_fault hrun]
    trivial
  | ok r s =>
    have hsame : (uvmDealloc pt kpt temp oldsize σ).Holds (fun _ σ' => σ' = σ) _ :=
      uvmDealloc_state temp oldsize hend
    rw [hrun] at hsame
    rw [bind_ok hrun]
    refine ⟨hsame, rfl, fun hpage => ?_⟩
    obtain ⟨hold, htemp, hle, hsmall⟩ := hpage
    by_contra hne
    have h1 := pgrounddown_eq (a := oldsize) (by omega)
    have h2 := pgrounddown_eq (a := temp) (by omega)
    obtain ⟨e, s', hfault⟩ : ∃ e s', uvmDealloc pt kpt temp oldsize σ = .fault e s' :=
      uvmDealloc_faults hend (by omega) (by omega) hsmall
    rw [hrun] at hfault
    cases hfault

/-- A round that returns keeps the entries. Only the first one may fail. -/
theorem uvmallocMapped_kept {mem : Nat} (oldsize temp : Nat) (r : Int) {l : List Nat}
    (hend : kernbase ≤ σ.kernelEnd) (htables : Tables [pt, kpt] σ l)
    (hmem : Owned [pt, kpt] σ l mem) :
    (uvmallocMapped pt kpt oldsize mem temp r σ).Holds
      (fun x σ' => EntriesKept [pt, kpt] σ σ' ∧ (CallPage oldsize temp →
        x = .inl (u64 (temp + pgsize)) ∧ r = 0 ∨ x = .inr 0 ∧ temp = oldsize ∧ r ≠ 0))
      (fun _ _ => True) := by
  have hpos : 0 < σ.kernelEnd := Nat.lt_of_lt_of_le (by decide) hend
  unfold uvmallocMapped
  by_cases hr : r = 0
  · rw [if_neg (not_not_intro hr)]
    refine Res.holds_bind (mapPages_tables kpt_mem
      (by decide : pteW ||| pteX ||| pteR < 1024) htables temp mem
      (by decide : pgsize < 2 ^ 64)) ?_
    rintro r' s ⟨l', hkept⟩
    have hpos' : 0 < s.kernelEnd := by
      rw [hkept.kernelEnd]
      exact hpos
    by_cases hr' : r' = 0
    · rw [if_neg (not_not_intro hr')]
      exact ⟨hkept.entriesKept, fun _ => .inl ⟨rfl, hr⟩⟩
    · rw [if_pos hr']
      cases hrun : vmunmap pt oldsize (u64OfInt ((temp - oldsize) / pgsize + 1)) true s with
      | fault e t =>
        rw [bind_fault hrun]
        trivial
      | ok u t =>
        have hsame := vmunmap_state pt oldsize (u64OfInt ((temp - oldsize) / pgsize + 1)) true s
          hpos'
        rw [hrun] at hsame
        obtain rfl : t = s := hsame
        rw [bind_ok hrun]
        refine Res.holds_bind (vmunmap_state kpt _ _ false t hpos') ?_
        rintro _ t' rfl
        refine ⟨hkept.entriesKept, fun hpage => ?_⟩
        obtain ⟨e, t'', hfault⟩ : ∃ e t'', vmunmap pt oldsize
            (u64OfInt ((temp - oldsize) / pgsize + 1)) true t' = .fault e t'' :=
          vmunmap_frees_none hpos' hpage.unmaps
        rw [hrun] at hfault
        cases hfault
  · rw [if_pos hr]
    obtain ⟨hrun, htables', hsame⟩ := hmem.kfree htables
    have hpos' : 0 < (freed σ mem).kernelEnd := hpos
    rw [bind_ok hrun]
    refine (uvmDealloc_round oldsize temp hpos').mono ?_ fun _ _ h => h
    rintro x s ⟨rfl, hx, hfirst⟩
    exact ⟨entriesKept_same htables' hsame rfl, fun hpage => .inr ⟨hx, hfirst hpage, hr⟩⟩

theorem uvmallocPage_kept (oldsize temp : Nat) {l : List Nat} (hend : kernbase ≤ σ.kernelEnd)
    (htables : Tables [pt, kpt] σ l) :
    (uvmallocPage pt kpt oldsize temp σ).Holds
      (fun x σ' => EntriesKept [pt, kpt] σ σ' ∧ (CallPage oldsize temp →
        x = .inl (u64 (temp + pgsize)) ∨ x = .inr 0 ∧ temp = oldsize))
      (fun _ _ => True) := by
  have hpos : 0 < σ.kernelEnd := Nat.lt_of_lt_of_le (by decide) hend
  unfold uvmallocPage
  rcases kalloc_tables htables with ⟨_, hrun⟩ | ⟨page, l1, _, hrun, htables1, howned, hsame⟩
  · rw [bind_ok hrun]
    simp only [if_true]
    refine (uvmDealloc_round oldsize temp hpos).mono ?_ fun _ _ h => h
    rintro x s ⟨rfl, hx, hfirst⟩
    exact ⟨EntriesKept.refl htables, fun hpage => .inr ⟨hx, hfirst hpage⟩⟩
  · have hkept1 : EntriesKept [pt, kpt] σ (allocated σ page) :=
      entriesKept_same htables1 hsame rfl
    obtain ⟨htables2, howned2, hsame2⟩ := howned.write htables1
      (fill_apply_of_outside (allocated σ page).mem page pgsize 0)
    have hkept2 := hkept1.trans (entriesKept_same htables2 hsame2 rfl)
    rw [bind_ok hrun]
    simp only [howned.ne_zero, if_false, memset, modify_bind]
    refine Res.holds_bind (mapPages_tables pt_mem
      (by decide : pteW ||| pteX ||| pteR ||| pteU < 1024) htables2 temp page
      (by decide : pgsize < 2 ^ 64)) ?_
    rintro r s ⟨l3, hkept⟩
    have hend' : kernbase ≤ s.kernelEnd := by
      rw [hkept.kernelEnd]
      exact hend
    refine (uvmallocMapped_kept oldsize temp r hend' hkept.tables (howned2.kept hkept)).mono ?_
      fun _ _ h => h
    rintro x s' ⟨hkept', hx⟩
    refine ⟨(hkept2.trans hkept.entriesKept).trans hkept', fun hpage => ?_⟩
    exact (hx hpage).imp And.left fun h => ⟨h.1, h.2.1⟩

section
variable {entry : Nat} (hentry : entry ≠ 0)
include hentry

theorem uvmalloc_loop_stuck (oldsize newsize n temp : Nat) (h : Stuck [pt, kpt] pt entry σ) :
    (loop (uvmallocRound pt kpt oldsize newsize) n temp σ).Holds
      (fun _ σ' => Stuck [pt, kpt] pt entry σ') (fun _ _ => True) := by
  refine Res.holds_loop (I := fun _ s => Stuck [pt, kpt] pt entry s) ?_ (fun _ _ _ => trivial)
    n temp σ h
  intro temp s hs
  by_cases htemp : temp < newsize
  · simp only [uvmallocRound, htemp, not_true_eq_false, if_false]
    obtain ⟨l, htables⟩ := hs.tables
    refine (uvmallocPage_kept oldsize temp hs.kernel htables).mono ?_ fun _ _ h => h
    rintro (temp' | r) s' ⟨hkept, -⟩
    · exact hs.entriesKept pt_mem hentry hkept
    · exact hs.entriesKept pt_mem hentry hkept
  · simp only [uvmallocRound, htemp, not_false_eq_true, if_true]
    exact hs

end

/-- The entry of page `0` that `Uvmalloc` stores. -/
def swappedEntry : Nat := page2pte pgsize ||| (pteW ||| pteX ||| pteR ||| pteU) ||| pteV

theorem uvmallocPage_first (h : EmptySpace pt kpt σ) (henough : missing σ.mem pt 0 < σ.npages) :
    (uvmallocPage pt kpt 0 0 σ).Holds (fun _ σ' => Stuck [pt, kpt] pt swappedEntry σ')
      (fun _ _ => True) := by
  obtain ⟨l, htables⟩ := h.tables
  rw [htables.free.count] at henough
  have hne : swappedEntry ≠ 0 := by decide
  rcases kalloc_tables htables with ⟨hl, _⟩ | ⟨page, l1, hl, hrun, htables1, howned, hsame⟩
  · rw [hl] at henough
    exact absurd henough (Nat.not_lt_zero _)
  · obtain ⟨htables2, howned2, hsame2⟩ := howned.write htables1
      (fill_apply_of_outside (allocated σ page).mem page pgsize 0)
    have hmissing : missing (fill (allocated σ page).mem page pgsize 0) pt (pgrounddown 0) =
        missing σ.mem pt 0 := by
      rw [pgrounddown_zero, (hsame2 pt pt_mem).missing, (hsame pt pt_mem).missing]
    rw [hl, List.length_cons] at henough
    unfold uvmallocPage
    rw [bind_ok hrun]
    simp only [howned.ne_zero, if_false, memset, modify_bind]
    refine Res.holds_bind (mapPages_first pt_mem
      (by decide : pteW ||| pteX ||| pteR ||| pteU < 1024) htables2 0 page
      (by decide : pgsize < 2 ^ 64) (by rw [hmissing]; omega)) ?_
    rintro r s ⟨l3, hkept, hentry⟩
    rw [pgrounddown_zero] at hentry
    have hkernel : kernbase ≤ s.kernelEnd := by
      rw [hkept.kernelEnd]
      exact h.kernel
    refine (uvmallocMapped_kept 0 0 r hkernel hkept.tables (howned2.kept hkept)).mono ?_
      fun _ _ h => h
    rintro x s' ⟨hkept', -⟩
    exact Stuck.entriesKept pt_mem ⟨⟨l3, hkept.tables⟩, hkernel, hentry⟩ hne hkept'

/-- A call that finds the pages that it needs. -/
theorem uvmCall_maps (h : EmptySpace pt kpt σ) {call : UvmCall}
    (hcall : ¬ MapsNothing pt σ call) :
    (uvmCall pt kpt 0 call σ).Holds (fun _ σ' => Stuck [pt, kpt] pt swappedEntry σ')
      (fun _ _ => True) := by
  cases call with
  | alloc newsize =>
    obtain ⟨hnew, henough⟩ := not_or.mp hcall
    have hround : uvmallocRound pt kpt 0 newsize 0 σ = uvmallocPage pt kpt 0 0 σ := by
      simp only [uvmallocRound, Nat.pos_of_ne_zero hnew, not_true_eq_false, if_false]
    unfold uvmCall
    refine Res.holds_bind (P := fun _ s => Stuck [pt, kpt] pt swappedEntry s) ?_ ?_
    · rw [uvmalloc, if_neg (Nat.not_lt_zero _), pgrounddown_zero, pageRounds, loop_succ]
      refine Res.holds_bind
        (by rw [hround]; exact uvmallocPage_first h (Nat.lt_of_not_le henough)) ?_
      rintro (temp | r) s hs
      · exact uvmalloc_loop_stuck (by decide) 0 newsize _ temp hs
      · exact hs
    · intro r s hs
      exact hs
  | dealloc newsize => exact absurd trivial hcall

/-- With a page mapped to a page that is not the allocator's no size is right. -/
theorem not_userSpace_swapped {va : Nat} (hend : kernbase ≤ σ.kernelEnd) (hva : va < maxuva)
    (hentry : pteOf σ.mem pt va = swappedEntry) (size : Nat) : ¬ UserSpace pt kpt size σ := by
  rintro ⟨frame, flags, huser, _, hmanaged, _⟩
  have hpage := huser va hva
  rw [translate_swapped hentry (by decide)] at hpage
  split at hpage
  · rename_i hsize
    have hframe : pgsize = frame (va / 4096) := congrArg Prod.fst (Option.some.inj hpage)
    have hm := hmanaged va hsize
    rw [← hframe] at hm
    exact not_managed_pgsize hend hm
  · cases hpage

theorem Stuck.not_userSpace (h : Stuck [pt, kpt] pt swappedEntry σ) (size : Nat) :
    ¬ UserSpace pt kpt size σ :=
  not_userSpace_swapped h.kernel (by decide) h.entry size

/-! ## Runs -/

theorem UvmCallsMeet.userSpace {calls : List UvmCall} {size : Nat}
    (h : UvmCallsMeet pt kpt calls size σ) : UserSpace pt kpt size σ := by
  cases calls with
  | nil => exact h
  | cons call calls => exact h.1

theorem EmptySpace.not_meet (h : EmptySpace pt kpt σ) {call : UvmCall}
    (hcall : ¬ MapsNothing pt σ call) (calls : List UvmCall) :
    ¬ UvmCallsMeet pt kpt (call :: calls) 0 σ := by
  rintro ⟨_, hmeet⟩
  have hstuck := uvmCall_maps h hcall
  cases hrun : uvmCall pt kpt 0 call σ with
  | ok size' s =>
    rw [hrun] at hmeet hstuck
    exact absurd hmeet.userSpace (Stuck.not_userSpace hstuck size')
  | fault e s =>
    rw [hrun] at hmeet
    exact hmeet.elim

/-- From an empty user space the calls keep it as its size says exactly when none of them
maps anything. -/
theorem uvmCalls_meet_iff (h : EmptySpace pt kpt σ) (calls : List UvmCall) :
    UvmCallsMeet pt kpt calls 0 σ ↔ CallsMapNothing pt kpt calls 0 σ := by
  induction calls generalizing σ with
  | nil => exact ⟨fun _ => trivial, fun _ => h.userSpace⟩
  | cons call calls ih =>
    by_cases hcall : MapsNothing pt σ call
    · obtain ⟨σ', hrun, hempty⟩ := uvmCall_mapsNothing h hcall
      have hrest := ih hempty
      simp only [UvmCallsMeet, CallsMapNothing, hrun, Res.holds_ok]
      constructor
      · rintro ⟨_, hmeet⟩
        exact ⟨hcall, hrest.mp hmeet⟩
      · rintro ⟨_, hmap⟩
        exact ⟨h.userSpace, hrest.mpr hmap⟩
    · constructor
      · intro hmeet
        exact absurd hmeet (h.not_meet hcall calls)
      · rintro ⟨hno, _⟩
        exact absurd hno hcall

/-! ## A first byte with three free pages -/

theorem smallMachine_empty : EmptySpace 0x80400000 0x80410000 smallMachine := by
  have hzero : ∀ root ∈ [0x80400000, 0x80410000], ∀ i,
      slots smallMachine.mem (root / 4096) i = 0 := by
    intro root hroot i
    simp only [List.mem_cons, List.not_mem_nil, or_false] at hroot
    rcases hroot with rfl | rfl <;> exact smallMachine_zero i (by decide)
  have hal : ∀ root ∈ [0x80400000, 0x80410000], root % 4096 = 0 := by
    intro root hroot
    simp only [List.mem_cons, List.not_mem_nil, or_false] at hroot
    rcases hroot with rfl | rfl <;> rfl
  refine ⟨⟨_, tables_of_zero hal smallMachine_free ?_ ?_ hzero⟩, ?_, fun root hroot va _ => ?_⟩
  · intro root hroot hmem
    simp only [List.mem_cons, List.not_mem_nil, or_false] at hroot hmem
    omega
  · intro root hroot
    simp only [List.mem_cons, List.not_mem_nil, or_false] at hroot
    omega
  · rw [smallMachine, withFree_kernelEnd]
  · exact (pageTable_of_zero smallMachine.mem root (hal root hroot) (hzero root hroot)).2.2 va

theorem uvmCalls_meet_iff_first_byte :
    UvmCallsMeet 0x80400000 0x80410000 [.alloc 1] 0 smallMachine ↔
      CallsMapNothing 0x80400000 0x80410000 [.alloc 1] 0 smallMachine :=
  uvmCalls_meet_iff smallMachine_empty [.alloc 1]

/-- `Uvmalloc` of one byte. -/
theorem uvmalloc_first_byte_fails :
    EmptySpace 0x80400000 0x80410000 smallMachine ∧
      ¬ UvmCallsMeet 0x80400000 0x80410000 [.alloc 1] 0 smallMachine := by
  refine ⟨smallMachine_empty, smallMachine_empty.not_meet ?_ []⟩
  have hcount : smallMachine.npages = 3 := smallMachine_free.count
  have hmissing : missing smallMachine.mem 0x80400000 0 = 2 := by
    have hnone : child (slots smallMachine.mem (0x80400000 / 4096) (idx 2 0)) = none := by
      rw [smallMachine_zero _ (by decide)]
      decide
    rw [missing, hnone]
  rintro (h | h)
  · exact absurd h (by decide)
  · rw [hcount, hmissing] at h
    exact absurd h (by decide)

end PageFaultOS
