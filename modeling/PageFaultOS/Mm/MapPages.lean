import Mathlib.Tactic
import PageFaultOS.Mm.PageTable

/-! `MapPages` on a well-formed table. The loop invariant `MapLoop` says that the pages
before `temp` have their entries and every other page the entry it had. -/

namespace PageFaultOS
open Exec Exec.Comp ByteMem

/-- The page of `va` is one of the pages from `PGROUNDDOWN(vaddr)` to
`PGROUNDDOWN(vaddr + size - 1)`. -/
def PageInRange (vaddr size va : Nat) : Prop :=
  pgrounddown vaddr ≤ pgrounddown va ∧ pgrounddown va ≤ pgrounddown (vaddr + size - 1)

/-- The frame that the page of `va` is mapped to. -/
def frameOf (vaddr paddr va : Nat) : Nat :=
  u64 (paddr + (pgrounddown va - pgrounddown vaddr))

def entryOf (vaddr paddr perm va : Nat) : Nat :=
  page2pte (frameOf vaddr paddr va) ||| perm ||| pteV

/-- The loop of `MapPages` at `(temp, pa)`, having started in memory `m`. -/
structure MapLoop (m : Mem) (root vaddr paddr perm last : Nat) (temp pa : Nat) (σ : MemState) :
    Prop where
  table : PageTable σ.mem root
  alloc : ∃ l, FreeList σ l ∧ ∀ q ∈ l, NotInTable σ.mem root q
  ge : pgrounddown vaddr ≤ temp
  le : temp ≤ last
  aligned : temp % 4096 = 0
  frame : pa = frameOf vaddr paddr temp
  ptes : ∀ va, va < 2 ^ 39 → pteOf σ.mem root va =
    if pgrounddown vaddr ≤ pgrounddown va ∧ pgrounddown va < temp then
      entryOf vaddr paddr perm va
    else pteOf m root va

private theorem pgrounddown_of_aligned {a : Nat} (h : a < 2 ^ 64) (hal : a % 4096 = 0) :
    pgrounddown a = a := by
  rw [pgrounddown_eq h]
  omega

private theorem entryOf_lt (vaddr paddr va : Nat) {perm : Nat} (hperm : perm < 1024) :
    entryOf vaddr paddr perm va < 2 ^ 64 := by
  rw [entryOf, Nat.or_assoc]
  exact page2pte_or_lt (Nat.mod_lt _ (by decide)) (or_lt_1024 hperm (by decide))

/-- The entry that the loop stores translates to the frame with the flags `perm | V`. -/
theorem translate_entryOf {m : Mem} {root vaddr paddr perm va : Nat} (hperm : perm < 1024)
    (hva : va < 2 ^ 39) (hv : vaddr < 2 ^ 39) (hal : paddr % 4096 = 0)
    (h : pteOf m root va = entryOf vaddr paddr perm va) :
    translate m root va = some (frameOf vaddr paddr va, perm ||| pteV) := by
  have hflags := or_lt_1024 hperm (show pteV < 1024 by decide)
  have hbit : (perm ||| pteV) &&& pteV ≠ 0 := by
    rw [Nat.and_comm, Nat.and_or_distrib_left]
    have : pteV &&& pteV ≠ 0 := by decide
    intro hz
    exact this (Nat.or_eq_zero_iff.mp hz).2
  have hframe : frameOf vaddr paddr va % 4096 = 0 := by
    have h1 := pgrounddown_eq (a := va) (by omega)
    have h2 := pgrounddown_eq (a := vaddr) (by omega)
    rw [frameOf, u64, h1, h2]
    omega
  have hlt : frameOf vaddr paddr va < 2 ^ 64 := Nat.mod_lt _ (by decide)
  rw [translate, h, entryOf, Nat.or_assoc, and_flag _ (by decide), pteFlags_or hflags, if_pos hbit,
    pte2page_or hlt hframe hflags]

/-- How the loop ends: without memory, or with the whole range mapped. -/
def MapEnd (m : Mem) (root vaddr paddr perm last : Nat) (r : Int) (m' : Mem) : Prop :=
  PageTable m' root ∧
    ((r = -1 ∧ ∀ va, va < 2 ^ 39 → ¬ (pgrounddown vaddr ≤ pgrounddown va ∧
        pgrounddown va ≤ last) → pteOf m' root va = pteOf m root va) ∨
      (r = 0 ∧ ∀ va, va < 2 ^ 39 → pteOf m' root va =
        if pgrounddown vaddr ≤ pgrounddown va ∧ pgrounddown va ≤ last then
          entryOf vaddr paddr perm va
        else pteOf m root va))

private theorem MapLoop.no_memory {m m' : Mem} {root vaddr paddr perm last temp pa : Nat}
    {σ : MemState} (h : MapLoop m root vaddr paddr perm last temp pa σ)
    (htable : PageTable m' root) (hptes : ∀ va, pteOf m' root va = pteOf σ.mem root va) :
    MapEnd m root vaddr paddr perm last (-1) m' := by
  refine ⟨htable, Or.inl ⟨rfl, fun va hva hnot => ?_⟩⟩
  have := h.le
  rw [hptes, h.ptes va hva, if_neg]
  omega

/-- Storing the entry of `temp` moves the boundary one page up. -/
private theorem MapLoop.store {m m' : Mem} {root vaddr paddr perm last temp pa : Nat}
    {σ : MemState} (h : MapLoop m root vaddr paddr perm last temp pa σ) (htemp : temp < 2 ^ 38)
    (hptes : ∀ va, va < 2 ^ 39 → pteOf m' root va =
      if va / 4096 = temp / 4096 then entryOf vaddr paddr perm temp else pteOf σ.mem root va) :
    ∀ va, va < 2 ^ 39 → pteOf m' root va =
      if pgrounddown vaddr ≤ pgrounddown va ∧ pgrounddown va < temp + 4096 then
        entryOf vaddr paddr perm va
      else pteOf m root va := by
  intro va hva
  have hge := h.ge
  have hal := h.aligned
  have hrva := pgrounddown_eq (a := va) (by omega)
  have hround : pgrounddown temp = temp := pgrounddown_of_aligned (by omega) hal
  rw [hptes va hva]
  by_cases hpage : va / 4096 = temp / 4096
  · have hva' : pgrounddown va = temp := by omega
    rw [if_pos hpage, if_pos (by omega), entryOf, entryOf, frameOf, frameOf, hva', hround]
  · rw [if_neg hpage, h.ptes va hva]
    congr 1
    apply propext
    omega

/-- One round of the loop. It panics only at an entry that was not `0`. -/
private theorem mapPages_round {m : Mem} {root vaddr paddr perm last temp pa : Nat}
    {σ : MemState} (hlast : last < 2 ^ 38) (hlastal : last % 4096 = 0) (hperm : perm < 1024)
    (h : MapLoop m root vaddr paddr perm last temp pa σ) :
    (mapPagesRound root last perm (temp, pa) σ).Holds
      (fun r σ' => match r with
        | .inl (temp', pa') =>
          MapLoop m root vaddr paddr perm last temp' pa' σ' ∧ last - temp' < last - temp
        | .inr r => MapEnd m root vaddr paddr perm last r σ'.mem)
      (fun f _ => f = .panic "ramap" ∧ ∃ va, pgrounddown vaddr ≤ pgrounddown va ∧
        pgrounddown va ≤ last ∧ pteOf m root va ≠ 0) := by
  obtain ⟨l, hfree, hfresh⟩ := h.alloc
  have hle := h.le
  have hge := h.ge
  have hal := h.aligned
  have hround : pgrounddown temp = temp := pgrounddown_of_aligned (by omega) hal
  have hold : pteOf σ.mem root temp = pteOf m root temp := by
    rw [h.ptes temp (by omega), if_neg]
    omega
  obtain ⟨r, σ1, l1, hwalk, hgrown, hr⟩ :=
    walk_alloc h.table hfree hfresh temp (by rw [maxva_eq]; omega)
  rw [mapPagesRound, bind_ok hwalk]
  by_cases hnull : r = 0
  · simp only [hnull, if_true, pure_apply, Res.holds_ok]
    exact h.no_memory hgrown.table hgrown.ptes
  obtain ⟨pn, hleaf, rfl⟩ := hr.resolve_left hnull
  have hword : readWord σ1.mem (pn * 4096 + 8 * px 0 temp) = pteOf m root temp := by
    rw [← hold, ← hgrown.ptes]
    exact (pteOf_of_leafTable hleaf).symm
  simp only [hnull, if_false, read_bind, hword]
  by_cases hmapped : pteOf m root temp = 0
  · have hentry : page2pte pa ||| perm ||| pteV = entryOf vaddr paddr perm temp := by
      rw [entryOf, h.frame]
    obtain ⟨htable, hkeep, hptes⟩ := pteOf_setLeaf hgrown.table hleaf (by omega)
      (entryOf_lt vaddr paddr temp hperm)
    have hnew := h.store (by omega) (fun va hva => by rw [hptes va hva, hgrown.ptes])
    simp only [hmapped, ne_eq, not_true_eq_false, if_false, setWord, modify_bind, hentry]
    by_cases hend : temp = last
    · simp only [hend, if_true, pure_apply, Res.holds_ok]
      rw [hend] at htable hnew
      refine ⟨htable, Or.inr ⟨rfl, fun va hva => ?_⟩⟩
      rw [hnew va hva]
      have hrva := pgrounddown_eq (a := va) (by omega)
      congr 1
      apply propext
      omega
    · have hstep : u64 (temp + pgsize) = temp + 4096 := by
        simp only [u64, pgsize]
        omega
      simp only [hend, if_false, pure_apply, Res.holds_ok, hstep]
      refine ⟨⟨htable, ⟨l1, ?_, fun q hq => hkeep q (hgrown.fresh q hq)⟩, by omega, by omega,
        by omega, ?_, hnew⟩, by omega⟩
      · exact freeList_setLeaf hgrown.free hgrown.fresh hleaf _
      · have hround' : pgrounddown (temp + 4096) = temp + 4096 :=
          pgrounddown_of_aligned (by omega) (by omega)
        rw [h.frame]
        simp only [frameOf, u64, pgsize, hround, hround']
        omega
  · simp only [ne_eq, hmapped, not_false_eq_true, if_true, panic_apply, Res.holds_fault, true_and]
    exact ⟨temp, by omega, by omega, hmapped⟩

theorem mapPages_last {vaddr size : Nat} (hsize : 1 ≤ size)
    (hrange : vaddr + size - 1 < maxva) :
    pgrounddown (u64 (vaddr + size + (2 ^ 64 - 1))) = pgrounddown (vaddr + size - 1) := by
  rw [maxva_eq] at hrange
  have h : u64 (vaddr + size + (2 ^ 64 - 1)) = vaddr + size - 1 := by
    rw [u64]
    omega
  rw [h]

/-- The whole loop, from a table none of whose entries is assumed empty. -/
theorem mapPages_loop {σ : MemState} {l : List Nat} {pagetable vaddr paddr size perm : Nat}
    (hwf : PageTable σ.mem pagetable) (hfree : FreeList σ l)
    (hfresh : ∀ q ∈ l, NotInTable σ.mem pagetable q) (hpaddr : paddr < 2 ^ 64)
    (hsize : 1 ≤ size) (hrange : vaddr + size - 1 < maxva) (hperm : perm < 1024) :
    (mapPages pagetable vaddr paddr size perm σ).Holds
      (fun r σ' => MapEnd σ.mem pagetable vaddr paddr perm (pgrounddown (vaddr + size - 1)) r
        σ'.mem)
      (fun f _ => f = .panic "ramap" ∧ ∃ va, PageInRange vaddr size va ∧
        pteOf σ.mem pagetable va ≠ 0) := by
  have hmax := maxva_eq
  have h1 := pgrounddown_eq (a := vaddr) (by omega)
  have h2 := pgrounddown_eq (a := vaddr + size - 1) (by omega)
  have hround : pgrounddown (pgrounddown vaddr) = pgrounddown vaddr :=
    pgrounddown_of_aligned (by omega) (by omega)
  have hstart : MapLoop σ.mem pagetable vaddr paddr perm (pgrounddown (vaddr + size - 1))
      (pgrounddown vaddr) paddr σ := by
    refine ⟨hwf, ⟨l, hfree, hfresh⟩, le_refl _, by omega, by omega, ?_, ?_⟩
    · rw [frameOf, hround, Nat.sub_self, u64, Nat.add_zero, Nat.mod_eq_of_lt hpaddr]
    · intro va _
      rw [if_neg]
      omega
  rw [mapPages, mapPages_last hsize hrange]
  refine Res.holds_loop_measure
    (I := fun p s => MapLoop σ.mem pagetable vaddr paddr perm (pgrounddown (vaddr + size - 1))
      p.1 p.2 s)
    (μ := fun p => pgrounddown (vaddr + size - 1) - p.1) ?_ _ _ _ ?_ hstart
  · rintro ⟨temp, pa⟩ s hI
    refine (mapPages_round (by omega) (by omega) hperm hI).mono ?_ ?_
    · rintro (⟨temp', pa'⟩ | r) s' h
      · exact h
      · exact h
    · rintro f s ⟨hf, va, h1, h2, hne⟩
      exact ⟨hf, va, ⟨h1, h2⟩, hne⟩
  · simp only [pageRounds]
    omega

/-- `MapPages` on a well-formed table whose pages of the range are unmapped. When it
returns `0` the range is mapped page by page to consecutive frames, every other page
translates as before and the table is well formed; when it returns `-1` the pages
outside the range translate as before. It ends in no other way, unless some unmapped
page of the range has an entry that is not `0`. -/
theorem mapPages_maps_range {σ : MemState} {l : List Nat}
    {pagetable vaddr paddr size perm : Nat}
    (hwf : PageTable σ.mem pagetable) (hfree : FreeList σ l)
    (hfresh : ∀ q ∈ l, NotInTable σ.mem pagetable q) (hpaddr : paddr < 2 ^ 64)
    (hal : paddr % pgsize = 0) (hsize : 1 ≤ size) (hrange : vaddr + size - 1 < maxva)
    (hperm : perm < 1024) (_ : perm &&& (pteR ||| pteW ||| pteX) ≠ 0)
    (hun : ∀ va, PageInRange vaddr size va → translate σ.mem pagetable va = none) :
    (mapPages pagetable vaddr paddr size perm σ).Holds
      (fun r σ' => (r = 0 ∨ r = -1) ∧
        (r = 0 →
          (∀ va, va < 2 ^ 39 → PageInRange vaddr size va → translate σ'.mem pagetable va =
            some (u64 (paddr + (pgrounddown va - pgrounddown vaddr)), perm ||| pteV)) ∧
          (∀ va, va < 2 ^ 39 → ¬ PageInRange vaddr size va →
            translate σ'.mem pagetable va = translate σ.mem pagetable va) ∧
          PageTable σ'.mem pagetable) ∧
        (r = -1 → ∀ va, va < 2 ^ 39 → ¬ PageInRange vaddr size va →
          translate σ'.mem pagetable va = translate σ.mem pagetable va))
      (fun f _ => f = .panic "ramap" ∧ ∃ va, PageInRange vaddr size va ∧
        translate σ.mem pagetable va = none ∧ pteOf σ.mem pagetable va ≠ 0) := by
  have hmax := maxva_eq
  refine (mapPages_loop hwf hfree hfresh hpaddr hsize hrange hperm).mono ?_ ?_
  · rintro r σ' ⟨htable, ⟨rfl, hout⟩ | ⟨rfl, hall⟩⟩
    · refine ⟨Or.inr rfl, fun h => absurd h (by decide), fun _ va hva hnot => ?_⟩
      exact translate_congr (hout va hva hnot)
    · refine ⟨Or.inl rfl, fun _ => ⟨fun va hva hin => ?_, fun va hva hnot => ?_, htable⟩,
        fun h => absurd h (by decide)⟩
      · have h := hall va hva
        have hin' : pgrounddown vaddr ≤ pgrounddown va ∧
            pgrounddown va ≤ pgrounddown (vaddr + size - 1) := hin
        rw [if_pos hin'] at h
        exact translate_entryOf hperm hva (by omega) hal h
      · have h := hall va hva
        have hnot' : ¬ (pgrounddown vaddr ≤ pgrounddown va ∧
            pgrounddown va ≤ pgrounddown (vaddr + size - 1)) := hnot
        rw [if_neg hnot'] at h
        exact translate_congr h
  · rintro f s ⟨rfl, va, hin, hne⟩
    exact ⟨rfl, va, hin, hun va hin, hne⟩

/-- Three free pages above an empty table. -/
def smallMachine : MemState := withFree kernbase [0x80500000, 0x80501000, 0x80502000]

theorem smallMachine_free : FreeList smallMachine [0x80500000, 0x80501000, 0x80502000] := by
  apply withFree_freeList
  · decide
  · intro p hp
    simp only [List.mem_cons, List.not_mem_nil, or_false] at hp
    rcases hp with rfl | rfl | rfl <;> exact ⟨⟨by decide, by decide, by decide⟩, by decide⟩

/-- Below the free pages the memory of `smallMachine` is zero. -/
theorem smallMachine_zero {pn : Nat} (i : Fin 512) (hpn : pn < 0x80500) :
    slots smallMachine.mem pn i = 0 := by
  have hi := i.isLt
  have hzero : ∀ b, b < 0x80500000 → smallMachine.mem b = 0 := by
    intro b hb
    apply withFree_zero
    intro p hp
    simp only [List.mem_cons, List.not_mem_nil, or_false] at hp
    omega
  have hword : readWord smallMachine.mem (pn * 4096 + 8 * i.val) =
      readWord (fun _ => 0) (pn * 4096 + 8 * i.val) :=
    readWord_congr fun b _ _ => hzero b (by omega)
  rw [slots, hword]
  simp [readWord, readLE]

theorem mapPages_maps_range_one_page :
    (mapPages 0x80400000 0x1000 0x80002000 4096 pteR smallMachine).Holds
      (fun r σ' => (r = 0 ∨ r = -1) ∧
        (r = 0 →
          (∀ va, va < 2 ^ 39 → PageInRange 0x1000 4096 va → translate σ'.mem 0x80400000 va =
            some (u64 (0x80002000 + (pgrounddown va - pgrounddown 0x1000)), pteR ||| pteV)) ∧
          (∀ va, va < 2 ^ 39 → ¬ PageInRange 0x1000 4096 va →
            translate σ'.mem 0x80400000 va = translate smallMachine.mem 0x80400000 va) ∧
          PageTable σ'.mem 0x80400000) ∧
        (r = -1 → ∀ va, va < 2 ^ 39 → ¬ PageInRange 0x1000 4096 va →
          translate σ'.mem 0x80400000 va = translate smallMachine.mem 0x80400000 va))
      (fun f _ => f = .panic "ramap" ∧ ∃ va, PageInRange 0x1000 4096 va ∧
        translate smallMachine.mem 0x80400000 va = none ∧
        pteOf smallMachine.mem 0x80400000 va ≠ 0) := by
  obtain ⟨htable, hfresh, hptes⟩ := pageTable_of_zero smallMachine.mem
    0x80400000 (by decide) (fun i => smallMachine_zero i (by decide))
  refine mapPages_maps_range htable smallMachine_free ?_ (by decide) (by decide) (by decide)
    (by decide) (by decide) (by decide) ?_
  · intro q hq
    have := smallMachine_free.managed q hq
    refine hfresh q this.aligned ?_
    simp only [List.mem_cons, List.not_mem_nil, or_false] at hq
    rcases hq with rfl | rfl | rfl <;> decide
  · intro va _
    rw [translate, hptes va]
    decide

end PageFaultOS
