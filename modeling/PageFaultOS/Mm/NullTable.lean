import Mathlib.Tactic
import PageFaultOS.Mm.Tables

/-! The page-table code of `mm/vm.cpp` for callers whose page tables may be `NULL`. The
kernel's own table maps nothing at address `0`, so the first access through such a table is
the last. On other tables the functions are those of `Vm`. -/

namespace PageFaultOS
open Exec Exec.Comp ByteMem

/-- `walk` from the table at `NULL`. -/
def walkNull {α : Type} (vaddr : Nat) : MemComp α :=
  if maxva ≤ vaddr then Comp.panic "get pagetable entry"
  else fault (.undefined "null page table")

def walkAt (pagetable vaddr : Nat) (alloc : Bool) : MemComp Nat :=
  if pagetable = 0 then walkNull vaddr else walk pagetable vaddr alloc

def mapPagesAt (pagetable vaddr paddr size perm : Nat) : MemComp Int :=
  if pagetable = 0 then walkNull (pgrounddown vaddr)
  else mapPages pagetable vaddr paddr size perm

/-- Without a page to unmap there is no access. -/
def vmunmapAt (pagetable vaddr npages : Nat) (doFree : Bool) : MemComp Unit :=
  if pagetable = 0 ∧ vaddr % pgsize = 0 ∧ vaddr < u64 (vaddr + npages * pgsize) then
    walkNull vaddr
  else vmunmap pagetable vaddr npages doFree

def uvmDeallocAt (pagetable kpagetable oldsize newsize : Nat) : MemComp Nat := do
  if oldsize ≤ newsize then
    pure oldsize
  else do
    if pgrounddown newsize < pgrounddown oldsize then do
      let npages := u64OfInt ((pgrounddown oldsize - pgrounddown newsize) / pgsize)
      vmunmapAt kpagetable (pgrounddown newsize) npages false
      vmunmapAt pagetable (pgrounddown newsize) npages true
    pure newsize

/-- One round of the loop of `Uvmalloc`. -/
def uvmallocRoundAt (pagetable kpagetable oldsize newsize temp : Nat) : MemComp (Nat ⊕ Nat) := do
  if ¬ temp < newsize then
    pure (.inr newsize)
  else do
    let mem ← kalloc
    if mem = 0 then do
      let _ ← uvmDeallocAt pagetable kpagetable temp oldsize
      pure (.inr 0)
    else do
      memset mem 0 pgsize
      let r ← mapPagesAt pagetable temp pgsize mem (pteW ||| pteX ||| pteR ||| pteU)
      if r ≠ 0 then do
        kfree mem
        let _ ← uvmDeallocAt pagetable kpagetable temp oldsize
        pure (.inr 0)
      else do
        let r ← mapPagesAt kpagetable temp pgsize mem (pteW ||| pteX ||| pteR)
        if r ≠ 0 then do
          let npages := (temp - oldsize) / pgsize
          vmunmapAt pagetable oldsize (u64OfInt (npages + 1)) true
          vmunmapAt kpagetable oldsize (u64OfInt npages) false
          pure (.inr 0)
        else
          pure (.inl (u64 (temp + pgsize)))

def uvmallocAt (pagetable kpagetable oldsize newsize : Nat) : MemComp Nat :=
  if newsize < oldsize then
    pure oldsize
  else
    loop (uvmallocRoundAt pagetable kpagetable (pgrounddown oldsize) newsize) pageRounds
      (pgrounddown oldsize)

/-- The exit `err` of `Uvmcopy`. -/
def uvmcopyErrAt (newtable knewtable i ki : Nat) : MemComp Int := do
  vmunmapAt knewtable 0 (ki / pgsize) false
  vmunmapAt newtable 0 (i / pgsize) true
  pure (-1)

/-- The part of a round of `Uvmcopy` after the checks of the parent's entry. -/
def uvmcopyPageAt (newtable knewtable entry i ki : Nat) : MemComp ((Nat × Nat) ⊕ Int) := do
  let mem ← kalloc
  if mem = 0 then do
    let r ← uvmcopyErrAt newtable knewtable i ki
    pure (.inr r)
  else do
    memmove mem (pte2page entry) pgsize
    let r ← mapPagesAt newtable i pgsize mem (pteFlags entry)
    if r ≠ 0 then do
      kfree mem
      let r ← uvmcopyErrAt newtable knewtable i ki
      pure (.inr r)
    else do
      let i := u64 (i + pgsize)
      let r ← mapPagesAt knewtable ki pgsize mem (pteFlags entry &&& (2 ^ 64 - 1 - pteU))
      if r ≠ 0 then do
        let r ← uvmcopyErrAt newtable knewtable i ki
        pure (.inr r)
      else
        pure (.inl (i, u64 (ki + pgsize)))

/-- One round of the loop of `Uvmcopy`, at `(i, ki)`. -/
def uvmcopyRoundAt (oldtable newtable knewtable size : Nat) :
    Nat × Nat → MemComp ((Nat × Nat) ⊕ Int) := fun (i, ki) => do
  if ¬ i < size then
    pure (.inr 0)
  else do
    let pte ← walkAt oldtable i false
    if pte = 0 then
      Comp.panic "Uvmcopy: unexist pte"
    else do
      let σ ← read
      if readWord σ.mem pte &&& pteV = 0 then
        Comp.panic "Uvmcopy: page not present"
      else
        uvmcopyPageAt newtable knewtable (readWord σ.mem pte) i ki

def uvmcopyAt (oldtable newtable knewtable size : Nat) : MemComp Int :=
  loop (uvmcopyRoundAt oldtable newtable knewtable size) pageRounds (0, 0)

/-! ## Tables that are there -/

section
variable {pagetable kpagetable : Nat} (hp : pagetable ≠ 0) (hk : kpagetable ≠ 0)
include hp

theorem walkAt_eq (vaddr : Nat) (alloc : Bool) :
    walkAt pagetable vaddr alloc = walk pagetable vaddr alloc := if_neg hp

theorem mapPagesAt_eq (vaddr paddr size perm : Nat) :
    mapPagesAt pagetable vaddr paddr size perm = mapPages pagetable vaddr paddr size perm :=
  if_neg hp

theorem vmunmapAt_eq (vaddr npages : Nat) (doFree : Bool) :
    vmunmapAt pagetable vaddr npages doFree = vmunmap pagetable vaddr npages doFree :=
  if_neg fun h => hp h.1

include hk

theorem uvmDeallocAt_eq (oldsize newsize : Nat) :
    uvmDeallocAt pagetable kpagetable oldsize newsize =
      uvmDealloc pagetable kpagetable oldsize newsize := by
  simp only [uvmDeallocAt, uvmDealloc, vmunmapAt_eq hp, vmunmapAt_eq hk]

theorem uvmallocAt_eq (oldsize newsize : Nat) :
    uvmallocAt pagetable kpagetable oldsize newsize =
      uvmalloc pagetable kpagetable oldsize newsize := by
  have hround : ∀ old, uvmallocRoundAt pagetable kpagetable old newsize =
      uvmallocRound pagetable kpagetable old newsize := by
    intro old
    funext temp
    simp only [uvmallocRoundAt, uvmallocRound, uvmallocPage, uvmallocMapped, mapPagesAt_eq hp,
      mapPagesAt_eq hk, vmunmapAt_eq hp, vmunmapAt_eq hk, uvmDeallocAt_eq hp hk]
  simp only [uvmallocAt, uvmalloc, hround]

theorem uvmcopyAt_eq {oldtable : Nat} (ho : oldtable ≠ 0) (size : Nat) :
    uvmcopyAt oldtable pagetable kpagetable size =
      uvmcopy oldtable pagetable kpagetable size := by
  have hround : uvmcopyRoundAt oldtable pagetable kpagetable size =
      uvmcopyRound oldtable pagetable kpagetable size := by
    funext ⟨i, ki⟩
    simp only [uvmcopyRoundAt, uvmcopyRound, uvmcopyPageAt, uvmcopyPage, uvmcopyMapped,
      uvmcopyErrAt, uvmcopyErr, walkAt_eq ho, mapPagesAt_eq hp, mapPagesAt_eq hk, vmunmapAt_eq hp,
      vmunmapAt_eq hk]
  simp only [uvmcopyAt, uvmcopy, hround]

end

/-! ## Tables at `NULL` -/

section
variable {σ σ' : MemState} {l : List Nat}

theorem walkNull_faults {α : Type} (vaddr : Nat) (σ : MemState) {a : α} {σ' : MemState} :
    walkNull vaddr σ ≠ .ok a σ' := by
  unfold walkNull
  split <;> exact fun h => by cases h

theorem mapPagesAt_null {vaddr paddr size perm : Nat} {r : Int} :
    mapPagesAt 0 vaddr paddr size perm σ ≠ .ok r σ' := by
  unfold mapPagesAt
  rw [if_pos rfl]
  exact walkNull_faults _ _

theorem walkAt_state {pagetable vaddr pte : Nat}
    (hrun : walkAt pagetable vaddr false σ = .ok pte σ') : σ' = σ := by
  unfold walkAt at hrun
  split at hrun
  · exact absurd hrun (walkNull_faults _ _)
  · have hstate := walk_state pagetable vaddr σ
    rw [hrun] at hstate
    exact hstate

theorem vmunmapAt_none (pagetable : Nat) (doFree : Bool) (σ : MemState) :
    vmunmapAt pagetable 0 0 doFree σ = .ok () σ := by
  unfold vmunmapAt
  rw [if_neg fun h => absurd h.2.2 (by decide)]
  exact vmunmap_none pagetable doFree σ

/-- A `vmunmap` that returns has changed nothing. -/
theorem vmunmapAt_state {pagetable vaddr npages : Nat} {doFree : Bool} (hend : 0 < σ.kernelEnd)
    (hrun : vmunmapAt pagetable vaddr npages doFree σ = .ok () σ') : σ' = σ := by
  unfold vmunmapAt at hrun
  split at hrun
  · exact absurd hrun (walkNull_faults _ _)
  · have hstate := vmunmap_state pagetable vaddr npages doFree σ hend
    rw [hrun] at hstate
    exact hstate

/-- Without a table nothing is mapped. -/
theorem uvmallocAt_null_zero {kpagetable newsize r : Nat}
    (hrun : uvmallocAt 0 kpagetable 0 newsize σ = .ok r σ') : r = 0 := by
  unfold uvmallocAt at hrun
  rw [if_neg (Nat.not_lt_zero _), pgrounddown_zero, pageRounds, loop_succ] at hrun
  obtain ⟨x, u, hround, hrest⟩ := bind_eq_ok.mp hrun
  have hx : x = .inr 0 := by
    unfold uvmallocRoundAt at hround
    by_cases hnew : 0 < newsize
    · rw [if_neg (not_not_intro hnew)] at hround
      obtain ⟨page, v, _, hround⟩ := bind_eq_ok.mp hround
      by_cases hpage : page = 0
      · rw [if_pos hpage] at hround
        obtain ⟨_, y, _, hround⟩ := bind_eq_ok.mp hround
        cases hround
        rfl
      · rw [if_neg hpage] at hround
        obtain ⟨_, y, _, hround⟩ := bind_eq_ok.mp hround
        obtain ⟨_, z, hmap, _⟩ := bind_eq_ok.mp hround
        exact absurd hmap mapPagesAt_null
    · rw [if_pos hnew] at hround
      cases hround
      exact congrArg Sum.inr (Nat.eq_zero_of_not_pos hnew)
  subst hx
  cases hrest
  rfl

/-- Nothing to map, or no page for it. -/
theorem uvmallocAt_null_run (h : FreeList σ l) {newsize : Nat} (kpagetable : Nat)
    (hstop : newsize = 0 ∨ l = []) : uvmallocAt 0 kpagetable 0 newsize σ = .ok 0 σ := by
  have hround : uvmallocRoundAt 0 kpagetable 0 newsize 0 σ = .ok (.inr 0) σ := by
    unfold uvmallocRoundAt
    by_cases hnew : 0 < newsize
    · have hl : l = [] := hstop.resolve_left (Nat.pos_iff_ne_zero.mp hnew)
      subst hl
      rw [if_neg (not_not_intro hnew), bind_ok (kalloc_empty h), if_pos rfl]
      rfl
    · rw [if_pos hnew, Nat.eq_zero_of_not_pos hnew]
      rfl
  unfold uvmallocAt
  rw [if_neg (Nat.not_lt_zero _), pgrounddown_zero]
  exact loop_done hround _

/-- With something to map and a page for it the call does not return. -/
theorem uvmallocAt_null_iff (h : FreeList σ l) (kpagetable newsize : Nat) :
    (∃ r σ', uvmallocAt 0 kpagetable 0 newsize σ = .ok r σ') ↔ newsize = 0 ∨ l = [] := by
  constructor
  · rintro ⟨r, σ', hrun⟩
    by_cases hnew : newsize = 0
    · exact Or.inl hnew
    · right
      unfold uvmallocAt at hrun
      rw [if_neg (Nat.not_lt_zero _), pgrounddown_zero, pageRounds, loop_succ] at hrun
      obtain ⟨x, u, hround, -⟩ := bind_eq_ok.mp hrun
      unfold uvmallocRoundAt at hround
      rw [if_neg (not_not_intro (Nat.pos_of_ne_zero hnew))] at hround
      rcases kalloc_holds h with ⟨hl, _⟩ | ⟨page, l', hl, hk, _⟩
      · exact hl
      · have hpage : page ≠ 0 := by
          have hchain := h.chain
          rw [hl] at hchain
          exact hchain.2.1
        rw [bind_ok hk, if_neg hpage] at hround
        obtain ⟨_, y, _, hround⟩ := bind_eq_ok.mp hround
        obtain ⟨_, z, hmap, _⟩ := bind_eq_ok.mp hround
        exact absurd hmap mapPagesAt_null
  · intro hstop
    exact ⟨0, σ, uvmallocAt_null_run h kpagetable hstop⟩

/-- Growing a process without a table finds no page, or does not return. -/
theorem uvmallocAt_null (h : FreeList σ l) {kpagetable newsize r : Nat}
    (hrun : uvmallocAt 0 kpagetable 0 newsize σ = .ok r σ') : r = 0 ∧ σ' = σ := by
  have hstop := (uvmallocAt_null_iff h kpagetable newsize).mp ⟨r, σ', hrun⟩
  rw [uvmallocAt_null_run h kpagetable hstop] at hrun
  cases hrun
  exact ⟨rfl, rfl⟩

/-- Copying to a process without a table returns where there is nothing to copy, and where
the first `kalloc` fails. -/
theorem uvmcopyAt_null (h : FreeList σ l) {oldtable knewtable size : Nat} {r : Int}
    (hrun : uvmcopyAt oldtable 0 knewtable size σ = .ok r σ') :
    σ' = σ ∧ (size = 0 ∧ r = 0 ∨ l = [] ∧ r = -1) := by
  unfold uvmcopyAt at hrun
  rw [pageRounds, loop_succ] at hrun
  obtain ⟨x, τ, hround, hrest⟩ := bind_eq_ok.mp hrun
  have hx : τ = σ ∧ (size = 0 ∧ x = .inr 0 ∨ l = [] ∧ x = .inr (-1)) := by
    unfold uvmcopyRoundAt at hround
    simp only at hround
    by_cases hsize : 0 < size
    · rw [if_neg (not_not_intro hsize)] at hround
      obtain ⟨pte, u, hwalk, hround⟩ := bind_eq_ok.mp hround
      rw [walkAt_state hwalk] at hround
      split at hround
      · cases hround
      · rw [read_bind] at hround
        split at hround
        · cases hround
        · unfold uvmcopyPageAt at hround
          rcases kalloc_holds h with ⟨hl, hk⟩ | ⟨page, l', hl, hk, _⟩
          · have herr : uvmcopyErrAt 0 knewtable 0 0 σ = .ok (-1) σ := by
              unfold uvmcopyErrAt
              rw [Nat.zero_div, bind_ok (vmunmapAt_none _ _ _), bind_ok (vmunmapAt_none _ _ _)]
              rfl
            rw [bind_ok hk, if_pos rfl, bind_ok herr] at hround
            cases hround
            exact ⟨rfl, Or.inr ⟨hl, rfl⟩⟩
          · have hpage : page ≠ 0 := by
              have hchain := h.chain
              rw [hl] at hchain
              exact hchain.2.1
            rw [bind_ok hk, if_neg hpage] at hround
            obtain ⟨_, v, _, hround⟩ := bind_eq_ok.mp hround
            obtain ⟨_, z, hmap, _⟩ := bind_eq_ok.mp hround
            exact absurd hmap mapPagesAt_null
    · rw [if_pos hsize] at hround
      cases hround
      exact ⟨rfl, Or.inl ⟨Nat.eq_zero_of_not_pos hsize, rfl⟩⟩
  obtain ⟨rfl, ⟨hsize, rfl⟩ | ⟨hl, rfl⟩⟩ := hx
  · cases hrest
    exact ⟨rfl, Or.inl ⟨hsize, rfl⟩⟩
  · cases hrest
    exact ⟨rfl, Or.inr ⟨hl, rfl⟩⟩

end

end PageFaultOS
