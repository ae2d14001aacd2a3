import Mathlib.Tactic
import PageFaultOS.Mm.Tables

/-! Making and taking down a page table: `Uvmcreate`, `freewalk` and `Uvmfree` of
`mm/vm.cpp`, and what they do to the free list. -/

namespace PageFaultOS
open Exec Exec.Comp ByteMem

def uvmcreate : MemComp Nat := do
  let pagetable ← kalloc
  if pagetable = 0 then pure 0
  else do
    memset pagetable 0 pgsize
    pure pagetable

/-- One entry in the loop of `freewalk`; `free` is the call for a table below. -/
def freewalkEntry (free : Nat → MemComp Unit) (pagetable i : Nat) : MemComp Unit := do
  let σ ← read
  let pte := readWord σ.mem (pagetable + 8 * i)
  if pte &&& pteV ≠ 0 ∧ pte &&& (pteR ||| pteW ||| pteX) = 0 then do
    free (pte2page pte)
    setWord (pagetable + 8 * i) 0
  else if pte &&& pteV ≠ 0 then
    Comp.panic "freewalk: leaf"
  else
    pure ()

/-- The recursion is as deep as the tables are. -/
def freewalk : Nat → Nat → MemComp Unit
  | 0, _ => fault .diverge
  | depth + 1, pagetable => do
    forEach (List.range 512) (freewalkEntry (freewalk depth) pagetable)
    kfree pagetable

def uvmfree (pagetable size : Nat) : MemComp Unit := do
  if 0 < size then
    vmunmap pagetable 0 (pgrounddown size / pgsize) true
  freewalk pageRounds pagetable

theorem uvmfree_zero (pagetable : Nat) (σ : MemState) :
    uvmfree pagetable 0 σ = freewalk pageRounds pagetable σ := by
  unfold uvmfree
  rw [if_neg (Nat.lt_irrefl 0)]

/-! ## The free list -/

/-- `page` is on the free list. -/
def OnFreeList (σ : MemState) (page : Nat) : Prop := ∃ l, FreeList σ l ∧ page ∈ l

theorem Chained.unique {m : Mem} {head : Nat} {l l' : List Nat} (h : Chained m head l)
    (h' : Chained m head l') : l = l' := by
  induction l generalizing head l' with
  | nil =>
    cases l' with
    | nil => rfl
    | cons q l' => exact absurd (h'.1.symm.trans h) h'.2.1
  | cons p l ih =>
    cases l' with
    | nil => exact absurd (h.1.symm.trans h') h.2.1
    | cons q l' =>
      obtain ⟨hp, _, hl⟩ := h
      obtain ⟨hq, _, hl'⟩ := h'
      have hpq : p = q := hp.symm.trans hq
      subst hpq
      rw [ih hl hl']

theorem FreeList.onFreeList {σ : MemState} {l : List Nat} (h : FreeList σ l) (page : Nat) :
    OnFreeList σ page ↔ page ∈ l := by
  constructor
  · rintro ⟨l', h', hmem⟩
    rwa [h.chain.unique h'.chain]
  · exact fun hmem => ⟨l, h, hmem⟩

/-- A page of the caller: managed, and not on the free list. -/
structure TakenPage (σ : MemState) (l : List Nat) (page : Nat) : Prop where
  managed : Managed σ.kernelEnd page
  ne_zero : page ≠ 0
  notFree : page ∉ l

section
variable {σ : MemState} {l : List Nat} {page : Nat}

theorem kalloc_taken (h : FreeList σ l) :
    (l = [] ∧ kalloc σ = .ok 0 σ) ∨
    ∃ page l', l = page :: l' ∧ kalloc σ = .ok page (allocated σ page) ∧
      FreeList (allocated σ page) l' ∧ TakenPage (allocated σ page) l' page := by
  rcases kalloc_holds h with hnone | ⟨page, l', hl, hrun, hfree⟩
  · exact Or.inl hnone
  · subst hl
    exact Or.inr ⟨page, l', rfl, hrun, hfree, h.managed page List.mem_cons_self,
      h.chain.2.1, (List.nodup_cons.mp h.nodup).1⟩

/-- A store within such a page. -/
theorem TakenPage.write (hpage : TakenPage σ l page) (h : FreeList σ l) (m' : Mem)
    (hm : ∀ b, b < page ∨ page + 4096 ≤ b → m' b = σ.mem b) :
    FreeList { σ with mem := m' } l := by
  refine h.congr m' fun q hq => ?_
  have hpa := hpage.managed.aligned
  have hqa := (h.managed q hq).aligned
  have hne : q ≠ page := fun e => hpage.notFree (e ▸ hq)
  exact readWord_congr fun b _ _ => hm b (by omega)

theorem TakenPage.kfree (hpage : TakenPage σ l page) (h : FreeList σ l) :
    kfree page σ = .ok () (freed σ page) ∧ FreeList (freed σ page) (page :: l) :=
  kfree_managed h hpage.managed hpage.ne_zero hpage.notFree

/-! ## `freewalk` -/

theorem freewalkEntry_zero (free : Nat → MemComp Unit) {i : Nat}
    (h : readWord σ.mem (page + 8 * i) = 0) : freewalkEntry free page i σ = .ok () σ := by
  simp [freewalkEntry, h]

/-- A table without entries. -/
theorem freewalk_empty (h : FreeList σ l) (hpage : TakenPage σ l page)
    (hzero : ∀ i < 512, readWord σ.mem (page + 8 * i) = 0) (depth : Nat) :
    freewalk (depth + 1) page σ = .ok () (freed σ page) ∧
      FreeList (freed σ page) (page :: l) := by
  obtain ⟨hrun, hfree⟩ := hpage.kfree h
  refine ⟨?_, hfree⟩
  unfold freewalk
  rw [bind_ok (forEach_skip fun i hi => freewalkEntry_zero _ (hzero i (List.mem_range.mp hi)))]
  exact hrun

/-- A table with one entry, for an empty table. -/
theorem freewalk_single (h : FreeList σ l) (hpage : TakenPage σ l page) {q k : Nat}
    (hq : TakenPage σ l q) (hne : q ≠ page) (hk : k < 512)
    (hentry : readWord σ.mem (page + 8 * k) = page2pte q ||| pteV)
    (hzero : ∀ i < 512, i ≠ k → readWord σ.mem (page + 8 * i) = 0)
    (hbelow : ∀ i < 512, readWord σ.mem (q + 8 * i) = 0) (depth : Nat) :
    ∃ σ', freewalk (depth + 2) page σ = .ok () σ' ∧ FreeList σ' (page :: q :: l) ∧
      σ'.kernelEnd = σ.kernelEnd := by
  obtain ⟨hdown, hfreed⟩ := freewalk_empty h hq hbelow depth
  have hqlt : q < 2 ^ 64 := Nat.lt_of_le_of_lt (by omega) hq.managed.lt
  have hvalid : (page2pte q ||| pteV) &&& pteV ≠ 0 := by
    rw [and_flag _ (by decide), pteFlags_or (by decide)]
    decide
  have htable : (page2pte q ||| pteV) &&& (pteR ||| pteW ||| pteX) = 0 := by
    rw [and_flag _ (by decide), pteFlags_or (by decide)]
    decide
  -- after the entry: the table below is free, and the entry is `0`
  have hcleared : TakenPage (freed σ q) (q :: l) page :=
    ⟨hpage.managed, hpage.ne_zero, by simp [hne.symm, hpage.notFree]⟩
  have hround : freewalkEntry (freewalk (depth + 1)) page k σ =
      .ok () { freed σ q with mem := writeWord (freed σ q).mem (page + 8 * k) 0 } := by
    unfold freewalkEntry
    rw [read_bind, hentry, if_pos ⟨hvalid, htable⟩,
      pte2page_or hqlt hq.managed.aligned (by decide), bind_ok hdown]
    rfl
  have hfree' := hcleared.write hfreed (writeWord (freed σ q).mem (page + 8 * k) 0)
    fun b hb => writeWord_apply_of_outside _ _ _ _ (by omega)
  have hstill : ∀ i < 512, i ≠ k →
      readWord (writeWord (freed σ q).mem (page + 8 * k) 0) (page + 8 * i) = 0 := by
    intro i hi hik
    have hpa := hpage.managed.aligned
    have hqa := hq.managed.aligned
    rw [readWord_writeWord_of_disjoint _ _ _ _ (by omega), ← hzero i hi hik]
    exact readWord_congr fun b _ _ => freed_mem_outside σ q b (by omega)
  obtain ⟨before, after, hrange⟩ := List.append_of_mem (List.mem_range.mpr hk)
  have hnodup := List.nodup_range (n := 512)
  rw [hrange] at hnodup
  have hne_before : ∀ i ∈ before, i < 512 ∧ i ≠ k := by
    intro i hi
    refine ⟨List.mem_range.mp (hrange ▸ List.mem_append_left _ hi), fun hik => ?_⟩
    exact (List.nodup_append.mp hnodup).2.2 i hi k List.mem_cons_self hik
  have hne_after : ∀ i ∈ after, i < 512 ∧ i ≠ k := by
    intro i hi
    refine ⟨List.mem_range.mp (hrange ▸ List.mem_append_right _ (List.mem_cons_of_mem _ hi)),
      fun hik => ?_⟩
    exact (List.nodup_cons.mp (List.nodup_append.mp hnodup).2.1).1 (hik ▸ hi)
  have htaken : TakenPage { freed σ q with mem := writeWord (freed σ q).mem (page + 8 * k) 0 }
      (q :: l) page := ⟨hcleared.managed, hcleared.ne_zero, hcleared.notFree⟩
  obtain ⟨hlast, hdone⟩ := htaken.kfree hfree'
  refine ⟨_, ?_, hdone, rfl⟩
  unfold freewalk
  have hloop : forEach (List.range 512) (freewalkEntry (freewalk (depth + 1)) page) σ =
      .ok () { freed σ q with mem := writeWord (freed σ q).mem (page + 8 * k) 0 } := by
    rw [hrange, forEach_append]
    rw [bind_ok (forEach_skip fun i hi =>
      freewalkEntry_zero _ (hzero i (hne_before i hi).1 (hne_before i hi).2))]
    exact (bind_ok hround _).trans (forEach_skip fun i hi =>
      freewalkEntry_zero _ (hstill i (hne_after i hi).1 (hne_after i hi).2))
  rw [bind_ok hloop]
  exact hlast

end

end PageFaultOS
