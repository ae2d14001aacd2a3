import Mathlib.Tactic
import PageFaultOS.Mm.Tables
import PageFaultOS.Mm.MapPages

/-! `Uvmcopy` of `mm/vm.cpp`, as `fork` calls it. It hands over `PGSIZE` as the physical
address and the address of the new page as the size, so the first page it maps is not a
copy, and `vmunmap` does not take back what is mapped. -/

namespace PageFaultOS
open Exec Exec.Comp ByteMem

/-- An address space of `size` bytes with its pages mapped, and two tables with nothing at
user addresses. `l` is the list of free pages. -/
structure ForkStart (old new knew size : Nat) (σ : MemState) (l : List Nat) : Prop where
  tables : Tables [new, knew] σ l
  aligned : old % 4096 = 0
  mapped : ∀ va < size, pteAddr σ.mem old va ≠ 0 ∧ pteOf σ.mem old va &&& pteV ≠ 0
  small : size ≤ maxuva
  empty : ∀ root ∈ [new, knew], ∀ va < maxuva,
    child (slots σ.mem (root / 4096) (idx 2 va)) = none
  kernel : kernbase ≤ σ.kernelEnd

/-- What `Uvmcopy` is to leave when it returns `0`. -/
structure Copied (old new knew size : Nat) (σ : MemState) (l : List Nat) (σ' : MemState)
    (frame : Nat → Nat) : Prop where
  user : ∀ va < pgroundup size, translate σ'.mem new va =
    some (frame (va / 4096), pteFlags (pteOf σ.mem old va))
  kernel : ∀ va < pgroundup size, translate σ'.mem knew va =
    some (frame (va / 4096), pteFlags (pteOf σ.mem old va) &&& (2 ^ 64 - 1 - pteU))
  content : ∀ va < pgroundup size, ∀ i < 4096, σ'.mem (frame (va / 4096) + i) =
    σ.mem (pte2page (pteOf σ.mem old va) + i)
  fresh : ∀ va < pgroundup size, frame (va / 4096) ∈ l ∧
    ∀ vb < size, frame (va / 4096) ≠ pte2page (pteOf σ.mem old vb)
  distinct : ∀ va < pgroundup size, ∀ vb < pgroundup size,
    frame (va / 4096) = frame (vb / 4096) → va / 4096 = vb / 4096
  parent : ∀ va < size, pteOf σ'.mem old va = pteOf σ.mem old va ∧
    ∀ i < 4096, σ'.mem (pte2page (pteOf σ.mem old va) + i) =
      σ.mem (pte2page (pteOf σ.mem old va) + i)

/-- What it is to leave when it returns `-1`: a page taken from the free list is free again
or is a table of the child. -/
structure RolledBack (new knew : Nat) (l : List Nat) (σ' : MemState) : Prop where
  unmapped : ∀ root ∈ [new, knew], ∀ va < maxuva, translate σ'.mem root va = none
  returned : ∃ l', FreeList σ' l' ∧
    ∀ q ∈ l, q ∈ l' ∨ ∃ root ∈ [new, knew], ¬ NotInTable σ'.mem root q

def UvmcopyMeets (old new knew size : Nat) (σ : MemState) (l : List Nat) : Prop :=
  (uvmcopy old new knew size σ).Holds
    (fun r σ' => (r = 0 ∧ ∃ frame, Copied old new knew size σ l σ' frame) ∨
      (r = -1 ∧ RolledBack new knew l σ'))
    (fun _ _ => False)

variable {old new knew size : Nat} {σ : MemState} {l : List Nat}

private theorem new_mem : new ∈ [new, knew] := List.mem_cons_self ..

private theorem knew_mem : knew ∈ [new, knew] :=
  List.mem_cons_of_mem _ (List.mem_singleton.mpr rfl)

/-- A child table without entries at user addresses. -/
theorem ForkStart.missing (h : ForkStart old new knew size σ l) {root : Nat}
    (hroot : root ∈ [new, knew]) {va : Nat} (hva : va < maxuva) :
    PageFaultOS.missing σ.mem root va = 2 := by
  simp [PageFaultOS.missing, h.empty root hroot va hva]

theorem ForkStart.unmapped (h : ForkStart old new knew size σ l) {root : Nat}
    (hroot : root ∈ [new, knew]) {va : Nat} (hva : va < maxuva) :
    pteOf σ.mem root va = 0 := by
  apply pteOf_of_none
  rw [leafTable, inner, Radix.reach_cons, h.empty root hroot va hva]
  rfl

theorem translate_of_zero {m : Mem} {root va : Nat} (h : pteOf m root va = 0) :
    translate m root va = none := by
  rw [translate, h]
  decide

/-! ## The mapping that stays -/

section
variable {entry : Nat} (hentry : entry ≠ 0)
include hentry

omit hentry in
theorem uvmcopyErr_stuck (i ki : Nat) (h : Stuck [new, knew] new entry σ) :
    (uvmcopyErr new knew i ki σ).Holds (fun _ σ' => Stuck [new, knew] new entry σ')
      (fun _ _ => True) := by
  unfold uvmcopyErr
  refine Res.holds_bind (h.vmunmap knew 0 (ki / pgsize) false) ?_
  intro _ s hs
  refine Res.holds_bind (hs.vmunmap new 0 (i / pgsize) true) ?_
  intro _ s' hs'
  exact hs'

/-- The rest of a round keeps it. -/
theorem uvmcopyMapped_stuck {mem flags : Nat} (i ki : Nat) (r : Int)
    (h : Stuck [new, knew] new entry σ) {l : List Nat} (htables : Tables [new, knew] σ l)
    (hmem : Owned [new, knew] σ l mem) (hflags : flags < 1024) :
    (uvmcopyMapped new knew mem flags i ki r σ).Holds
      (fun _ σ' => Stuck [new, knew] new entry σ') (fun _ _ => True) := by
  have herr : ∀ i s, Stuck [new, knew] new entry s →
      ((uvmcopyErr new knew i ki >>= fun r => (pure (.inr r) : MemComp ((Nat × Nat) ⊕ Int))) s).Holds
        (fun _ σ' => Stuck [new, knew] new entry σ') (fun _ _ => True) := by
    intro i s hs
    refine Res.holds_bind (uvmcopyErr_stuck i ki hs) ?_
    intro r s' hs'
    exact hs'
  unfold uvmcopyMapped
  by_cases hr : r = 0
  · simp only [hr, ne_eq, not_true_eq_false, if_false]
    have hlt : flags &&& (2 ^ 64 - 1 - pteU) < 1024 :=
      Nat.lt_of_le_of_lt Nat.and_le_left hflags
    refine Res.holds_bind
      (mapPages_tables knew_mem hlt htables ki mem (by decide : pgsize < 2 ^ 64)) ?_
    rintro r' s ⟨l', hkept⟩
    have hs := h.kept new_mem hentry hkept
    by_cases hr' : r' = 0
    · simp only [hr', not_true_eq_false, if_false, pure_apply]
      exact hs
    · simp only [hr', not_false_eq_true, if_true]
      exact herr _ s hs
  · simp only [hr, ne_eq, not_false_eq_true, if_true]
    obtain ⟨hrun, htables', hsame⟩ := hmem.kfree htables
    rw [bind_ok hrun]
    exact herr i _ (h.same new_mem htables' hsame rfl)

theorem uvmcopyPage_stuck (entry' i ki : Nat) (h : Stuck [new, knew] new entry σ) :
    (uvmcopyPage new knew entry' i ki σ).Holds (fun _ σ' => Stuck [new, knew] new entry σ')
      (fun _ _ => True) := by
  obtain ⟨l, htables⟩ := h.tables
  have hflags : pteFlags entry' < 1024 := by
    rw [pteFlags_eq]
    exact Nat.mod_lt _ (by decide)
  unfold uvmcopyPage
  rcases kalloc_tables htables with ⟨_, hrun⟩ | ⟨page, l1, _, hrun, htables1, howned, hsame⟩
  · rw [bind_ok hrun]
    simp only [if_true]
    refine Res.holds_bind (uvmcopyErr_stuck i ki h) ?_
    intro r s hs
    exact hs
  · have h1 : Stuck [new, knew] new entry (allocated σ page) := h.same new_mem htables1 hsame rfl
    obtain ⟨htables2, howned2, hsame2⟩ := howned.write htables1
      (move_apply_of_outside (allocated σ page).mem page (pte2page entry') pgsize)
    have h2 := h1.same new_mem htables2 hsame2 rfl
    rw [bind_ok hrun]
    simp only [howned.ne_zero, if_false, memmove, modify_bind]
    refine Res.holds_bind
      (mapPages_tables new_mem hflags htables2 i page (by decide : pgsize < 2 ^ 64)) ?_
    rintro r s ⟨l3, hkept⟩
    exact uvmcopyMapped_stuck hentry i ki r (h2.kept new_mem hentry hkept) hkept.tables
      (howned2.kept hkept) hflags

theorem uvmcopyRound_stuck (old size : Nat) (p : Nat × Nat) (h : Stuck [new, knew] new entry σ) :
    (uvmcopyRound old new knew size p σ).Holds (fun _ σ' => Stuck [new, knew] new entry σ')
      (fun _ _ => True) := by
  obtain ⟨i, ki⟩ := p
  by_cases hi : i < size
  · have hround : uvmcopyRound old new knew size (i, ki) σ = (walk old i false >>= fun pte =>
        if pte = 0 then Comp.panic "Uvmcopy: unexist pte"
        else read >>= fun s =>
          if readWord s.mem pte &&& pteV = 0 then Comp.panic "Uvmcopy: page not present"
          else uvmcopyPage new knew (readWord s.mem pte) i ki) σ := by
      simp only [uvmcopyRound, hi, not_true_eq_false, if_false]
    rw [hround]
    refine Res.holds_bind (walk_state old i σ) ?_
    rintro pte s rfl
    by_cases hpte : pte = 0
    · simp only [hpte, if_true, panic_apply, Res.holds_fault]
    · simp only [hpte, if_false, read_bind]
      by_cases hv : readWord s.mem pte &&& pteV = 0
      · simp only [hv, if_true, panic_apply, Res.holds_fault]
      · simp only [hv, if_false]
        exact uvmcopyPage_stuck hentry _ i ki h
  · have hround : uvmcopyRound old new knew size (i, ki) σ = .ok (.inr 0) σ := by
      simp only [uvmcopyRound, hi, not_false_eq_true, if_true, pure_apply]
    rw [hround]
    exact h

theorem uvmcopy_loop_stuck (old size n : Nat) (p : Nat × Nat) (h : Stuck [new, knew] new entry σ) :
    (loop (uvmcopyRound old new knew size) n p σ).Holds
      (fun _ σ' => Stuck [new, knew] new entry σ') (fun _ _ => True) := by
  refine Res.holds_loop (I := fun _ s => Stuck [new, knew] new entry s) ?_ (fun _ _ _ => trivial)
    n p σ h
  intro p s hs
  refine (uvmcopyRound_stuck hentry old size p hs).mono ?_ fun _ _ h => h
  rintro (p' | r) s' hs' <;> exact hs'

end

/-! ## The first page -/

section
variable (h : ForkStart old new knew size σ l)
include h

/-- The first round finds the parent's entry. -/
theorem ForkStart.round (hsize : 0 < size) :
    uvmcopyRound old new knew size (0, 0) σ =
      uvmcopyPage new knew (pteOf σ.mem old 0) 0 0 σ := by
  obtain ⟨haddr, hv⟩ := h.mapped 0 hsize
  have hwalk := walk_lookup h.aligned 0 (by decide : 0 < maxva) (σ := σ)
  have hword := readWord_pteAddr haddr
  unfold uvmcopyRound
  simp only [hsize, not_true_eq_false, if_false]
  rw [bind_ok hwalk]
  simp only [haddr, if_false, read_bind, hword, hv]

/-- With a page for the copy and two for the tables it maps page `0` to the page at
`PGSIZE`. -/
theorem ForkStart.first_stuck (hlen : 3 ≤ l.length) :
    (uvmcopyPage new knew (pteOf σ.mem old 0) 0 0 σ).Holds
      (fun _ σ' => Stuck [new, knew] new
        (page2pte pgsize ||| pteFlags (pteOf σ.mem old 0) ||| pteV) σ') (fun _ _ => True) := by
  have hflags : pteFlags (pteOf σ.mem old 0) < 1024 := by
    rw [pteFlags_eq]
    exact Nat.mod_lt _ (by decide)
  have hne : page2pte pgsize ||| pteFlags (pteOf σ.mem old 0) ||| pteV ≠ 0 := fun h0 =>
    absurd (Nat.or_eq_zero_iff.mp h0).2 (by decide)
  rcases kalloc_tables h.tables with ⟨hl, _⟩ | ⟨page, l1, hl, hrun, htables1, howned, hsame⟩
  · rw [hl] at hlen
    exact absurd hlen (by decide)
  · obtain ⟨htables2, howned2, hsame2⟩ := howned.write htables1
      (move_apply_of_outside (allocated σ page).mem page (pte2page (pteOf σ.mem old 0)) pgsize)
    have hmissing : PageFaultOS.missing
        (move (allocated σ page).mem page (pte2page (pteOf σ.mem old 0)) pgsize) new
        (pgrounddown 0) = 2 := by
      rw [pgrounddown_zero, (hsame2 new new_mem).missing, (hsame new new_mem).missing]
      exact h.missing new_mem (by decide)
    rw [hl, List.length_cons] at hlen
    unfold uvmcopyPage
    rw [bind_ok hrun]
    simp only [howned.ne_zero, if_false, memmove, modify_bind]
    refine Res.holds_bind
      (mapPages_first new_mem hflags htables2 0 page (by decide : pgsize < 2 ^ 64)
        (by rw [hmissing]; omega)) ?_
    rintro r s ⟨l3, hkept, hentry⟩
    rw [pgrounddown_zero] at hentry
    have hkernel : kernbase ≤ s.kernelEnd := by
      rw [hkept.kernelEnd]
      exact h.kernel
    exact uvmcopyMapped_stuck hne 0 0 r ⟨⟨l3, hkept.tables⟩, hkernel, hentry⟩ hkept.tables
      (howned2.kept hkept) hflags

/-- With fewer the first `MapPages` fails, and everything is given back. -/
theorem ForkStart.first_fails (hlen : l.length < 3) :
    ∃ σ', uvmcopyPage new knew (pteOf σ.mem old 0) 0 0 σ = .ok (.inr (-1)) σ' ∧
      RolledBack new knew l σ' := by
  have herr : ∀ s, uvmcopyErr new knew 0 0 s = .ok (-1) s := by
    intro s
    unfold uvmcopyErr
    rw [Nat.zero_div, bind_ok (vmunmap_none knew false s), bind_ok (vmunmap_none new true s)]
    rfl
  rcases kalloc_tables h.tables with ⟨hl, hrun⟩ | ⟨page, l1, hl, hrun, htables1, howned, hsame⟩
  · refine ⟨σ, ?_, fun root hroot va hva => translate_of_zero (h.unmapped hroot hva), l,
      h.tables.free, fun q hq => Or.inl hq⟩
    unfold uvmcopyPage
    rw [bind_ok hrun]
    simp only [if_true]
    rw [bind_ok (herr σ)]
    rfl
  · obtain ⟨htables2, howned2, hsame2⟩ := howned.write htables1
      (move_apply_of_outside (allocated σ page).mem page (pte2page (pteOf σ.mem old 0)) pgsize)
    have hmissing : PageFaultOS.missing
        (move (allocated σ page).mem page (pte2page (pteOf σ.mem old 0)) pgsize) new
        (pgrounddown 0) = 2 := by
      rw [pgrounddown_zero, (hsame2 new new_mem).missing, (hsame new new_mem).missing]
      exact h.missing new_mem (by decide)
    rw [hl, List.length_cons] at hlen
    obtain ⟨s, l3, hmap, hkept, hentries⟩ := mapPages_fails new_mem htables2 0 pgsize page
      (pteFlags (pteOf σ.mem old 0)) (by decide) (by rw [hmissing]; omega)
    obtain ⟨hfree, htables4, hsame4⟩ := (howned2.kept hkept).kfree hkept.tables
    refine ⟨freed s page, ?_, fun root hroot va hva => translate_of_zero ?_, page :: l3,
      htables4.free, fun q hq => ?_⟩
    · unfold uvmcopyPage
      rw [bind_ok hrun]
      simp only [howned.ne_zero, if_false, memmove, modify_bind]
      rw [bind_ok hmap]
      unfold uvmcopyMapped
      rw [if_pos (by decide), bind_ok hfree, bind_ok (herr _)]
      rfl
    · rw [(hsame4 root hroot).pteOf, hentries root hroot va, (hsame2 root hroot).pteOf,
        (hsame root hroot).pteOf, h.unmapped hroot hva]
    · rw [hl, List.mem_cons] at hq
      rcases hq with rfl | hq
      · exact Or.inl (List.mem_cons_self ..)
      · rcases hkept.taken q hq with hq' | ⟨root, hroot, hin⟩
        · exact Or.inl (List.mem_cons_of_mem _ hq')
        · exact Or.inr ⟨root, hroot, fun hnot => hin ((hsame4 root hroot).notIn_iff.mp hnot)⟩

end

/-! ## The result -/

/-- A child whose page `0` is mapped to the page at `PGSIZE` is neither a copy nor rolled
back. -/
theorem Stuck.not_copied {σ₀ : MemState} {flags : Nat} {frame : Nat → Nat}
    (h : Stuck [new, knew] new (page2pte pgsize ||| flags ||| pteV) σ) (hflags : flags < 1024)
    (hfree : FreeList σ₀ l) (hkernel : kernbase ≤ σ₀.kernelEnd) (hsize : 0 < pgroundup size)
    (hcopied : Copied old new knew size σ₀ l σ frame) : False := by
  have huser := hcopied.user 0 hsize
  rw [h.translate hflags] at huser
  have hpage : pgsize = frame 0 := congrArg Prod.fst (Option.some.inj huser)
  have hmem := (hcopied.fresh 0 hsize).1
  rw [Nat.zero_div, ← hpage] at hmem
  exact not_managed_pgsize hkernel (hfree.managed _ hmem)

theorem Stuck.not_rolledBack {flags : Nat}
    (h : Stuck [new, knew] new (page2pte pgsize ||| flags ||| pteV) σ) (hflags : flags < 1024)
    (hback : RolledBack new knew l σ) : False := by
  have hnone := hback.unmapped new new_mem 0 (by decide)
  rw [h.translate hflags] at hnone
  cases hnone

theorem pgroundup_pos (hsize : 0 < size) (hsmall : size ≤ maxuva) : 0 < pgroundup size := by
  have hmax : maxuva = 0x80000000 := rfl
  rw [pgroundup_eq (by omega)]
  omega

/-- With three free pages for the first page of the parent `Uvmcopy` fails its caller. -/
theorem ForkStart.not_meets (h : ForkStart old new knew size σ l) (hsize : 0 < size)
    (hlen : 3 ≤ l.length) : ¬ UvmcopyMeets old new knew size σ l := by
  intro hmeets
  have hflags : pteFlags (pteOf σ.mem old 0) < 1024 := by
    rw [pteFlags_eq]
    exact Nat.mod_lt _ (by decide)
  have hne : page2pte pgsize ||| pteFlags (pteOf σ.mem old 0) ||| pteV ≠ 0 := fun h0 =>
    absurd (Nat.or_eq_zero_iff.mp h0).2 (by decide)
  have hstuck : (uvmcopy old new knew size σ).Holds (fun _ σ' => Stuck [new, knew] new
      (page2pte pgsize ||| pteFlags (pteOf σ.mem old 0) ||| pteV) σ') (fun _ _ => True) := by
    unfold uvmcopy
    rw [pageRounds, loop_succ]
    refine Res.holds_bind (by rw [h.round hsize]; exact h.first_stuck hlen) ?_
    rintro (p | r) s hs
    · exact uvmcopy_loop_stuck hne old size _ p hs
    · exact hs
  rw [UvmcopyMeets] at hmeets
  cases hrun : uvmcopy old new knew size σ with
  | ok r s =>
    rw [hrun] at hmeets hstuck
    rcases hmeets with ⟨_, frame, hcopied⟩ | ⟨_, hback⟩
    · exact Stuck.not_copied hstuck hflags h.tables.free h.kernel (pgroundup_pos hsize h.small)
        hcopied
    · exact Stuck.not_rolledBack hstuck hflags hback
  | fault e s =>
    rw [hrun] at hmeets
    exact hmeets

/-- `Uvmcopy` does what `fork` relies on exactly when there is nothing to copy, or too
little memory for the first page and the tables above it. -/
theorem uvmcopy_meets_iff (h : ForkStart old new knew size σ l) :
    UvmcopyMeets old new knew size σ l ↔ size = 0 ∨ l.length < 3 := by
  constructor
  · intro hmeets
    by_contra hcond
    exact h.not_meets (by omega) (by omega) hmeets
  · intro hcond
    rw [UvmcopyMeets, uvmcopy, pageRounds]
    by_cases hsize : size = 0
    · subst hsize
      have hround : uvmcopyRound old new knew 0 (0, 0) σ = .ok (.inr 0) σ := rfl
      rw [loop_done hround]
      refine Or.inl ⟨rfl, fun _ => 0, ?_, ?_, ?_, ?_, ?_, ?_⟩
      all_goals
        intro va hva
        exact absurd hva (Nat.not_lt_zero va)
    · obtain ⟨σ', hfirst, hback⟩ := h.first_fails (by omega)
      rw [loop_done ((h.round (by omega)).trans hfirst)]
      exact Or.inr ⟨rfl, hback⟩

/-! ## A fork with three free pages -/

/-- `smallMachine` with a parent of one page, whose tables are at `0x80300000`,
`0x80301000` and `0x80302000`. -/
def forkMachine : MemState :=
  let m1 := writeWord smallMachine.mem 0x80300000 (page2pte 0x80301000 ||| pteV)
  let m2 := writeWord m1 0x80301000 (page2pte 0x80302000 ||| pteV)
  { smallMachine with
    mem := writeWord m2 0x80302000 (page2pte 0x80303000 ||| (pteW ||| pteX ||| pteR ||| pteU |||
      pteV)) }

theorem forkMachine_onePath : forkMachine.mem = onePath smallMachine.mem 0x80300 0x80301 0x80302
    (page2pte 0x80303000 ||| (pteW ||| pteX ||| pteR ||| pteU ||| pteV)) := rfl

theorem forkMachine_zero :
    ∀ pn ∈ [0x80300, 0x80301, 0x80302], ∀ i, slots smallMachine.mem pn i = 0 := by
  intro pn hpn i
  simp only [List.mem_cons, List.not_mem_nil, or_false] at hpn
  exact smallMachine_zero i (by omega)

theorem forkMachine_slots {pn : Nat} (i : Fin 512) (h0 : pn ≠ 0x80300) (h1 : pn ≠ 0x80301)
    (h2 : pn ≠ 0x80302) : slots forkMachine.mem pn i = slots smallMachine.mem pn i := by
  rw [forkMachine_onePath]
  exact onePath_other (by decide) (by decide) (by decide) (by simp [h0, h1, h2]) i

/-- The tables of the parent. -/
theorem forkMachine_path : OnePath forkMachine.mem 0x80300 0x80301 0x80302 0 0 :=
  onePath_path (by decide) (by decide) (by decide)
    (by decide : page2pte 0x80303000 ||| (pteW ||| pteX ||| pteR ||| pteU ||| pteV) < 2 ^ 64)
    forkMachine_zero

theorem forkMachine_free : FreeList forkMachine [0x80500000, 0x80501000, 0x80502000] := by
  refine smallMachine_free.congr _ fun q hq => ?_
  simp only [List.mem_cons, List.not_mem_nil, or_false] at hq
  rw [readWord_writeWord_of_disjoint _ _ _ _ (by omega),
    readWord_writeWord_of_disjoint _ _ _ _ (by omega),
    readWord_writeWord_of_disjoint _ _ _ _ (by omega)]

/-- Its page. -/
theorem forkMachine_pteOf {va : Nat} (hva : va < 2 ^ 39) :
    pteOf forkMachine.mem 0x80300000 va = if va < 4096 then
      page2pte 0x80303000 ||| (pteW ||| pteX ||| pteR ||| pteU ||| pteV) else 0 :=
  onePath_pteOf (by decide) (by decide) (by decide) (by decide) forkMachine_zero hva

theorem forkMachine_pte {va : Nat} (hva : va < 4096) : pteOf forkMachine.mem 0x80300000 va =
    page2pte 0x80303000 ||| (pteW ||| pteX ||| pteR ||| pteU ||| pteV) := by
  rw [forkMachine_pteOf (by omega), if_pos hva]

theorem forkMachine_start : ForkStart 0x80300000 0x80400000 0x80410000 4096 forkMachine
    [0x80500000, 0x80501000, 0x80502000] := by
  have hzero : ∀ root ∈ [0x80400000, 0x80410000], ∀ i,
      slots forkMachine.mem (root / 4096) i = 0 := by
    intro root hroot i
    simp only [List.mem_cons, List.not_mem_nil, or_false] at hroot
    rcases hroot with rfl | rfl
    · rw [forkMachine_slots i (by decide) (by decide) (by decide)]
      exact smallMachine_zero i (by decide)
    · rw [forkMachine_slots i (by decide) (by decide) (by decide)]
      exact smallMachine_zero i (by decide)
  refine ⟨tables_of_zero ?_ forkMachine_free ?_ ?_ hzero, by decide, ?_, by decide, ?_, by decide⟩
  · intro root hroot
    simp only [List.mem_cons, List.not_mem_nil, or_false] at hroot
    rcases hroot with rfl | rfl <;> rfl
  · intro root hroot hmem
    simp only [List.mem_cons, List.not_mem_nil, or_false] at hroot hmem
    omega
  · intro root hroot
    simp only [List.mem_cons, List.not_mem_nil, or_false] at hroot
    omega
  · intro va hva
    have hentry := forkMachine_pte hva
    refine ⟨?_, by rw [hentry]; decide⟩
    cases hleaf : leafTable forkMachine.mem 0x80300000 va with
    | none =>
      rw [pteOf_of_none hleaf] at hentry
      exact absurd hentry (by decide)
    | some pn =>
      have hpn := (forkMachine_path.reach_iff (by simp [inner] : (inner va).length ≤ 2) pn).mp hleaf
      rw [pteAddr, hleaf]
      simp only [inner] at hpn
      rcases hpn with ⟨hnil, -⟩ | ⟨hone, -⟩ | ⟨-, rfl⟩
      · cases hnil
      · simp at hone
      · simp
  · intro root hroot va _
    rw [hzero root hroot]
    decide

theorem uvmcopy_meets_iff_fork :
    UvmcopyMeets 0x80300000 0x80400000 0x80410000 4096 forkMachine
      [0x80500000, 0x80501000, 0x80502000] ↔
    4096 = 0 ∨ [0x80500000, 0x80501000, 0x80502000].length < 3 :=
  uvmcopy_meets_iff forkMachine_start

/-- A parent of one page and three free pages. -/
theorem uvmcopy_fork_fails :
    ForkStart 0x80300000 0x80400000 0x80410000 4096 forkMachine
      [0x80500000, 0x80501000, 0x80502000] ∧
    ¬ UvmcopyMeets 0x80300000 0x80400000 0x80410000 4096 forkMachine
      [0x80500000, 0x80501000, 0x80502000] :=
  ⟨forkMachine_start, forkMachine_start.not_meets (by decide) (by decide)⟩

end PageFaultOS
