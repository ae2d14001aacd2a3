import Mathlib.Tactic
import PageFaultOS.Lib.Exec
import PageFaultOS.Lib.ByteMem
import PageFaultOS.Mm.Riscv

/-! The page allocator of `mm/kalloc.cpp`. The free list is threaded through the
free pages: the first word of each is the address of the next. `FreeList`
relates it to a list of pages, and `kalloc` and `kfree` are head removal and
head insertion on that list. The spinlock around the list is left out. -/

namespace PageFaultOS
open Exec Exec.Comp ByteMem

/-- Physical memory and the allocator's globals. `accessed` is a ghost: the user
pages that `copyin`, `copyout` and `copyinstr` have gone through, newest first. -/
structure MemState where
  mem : Mem
  freelist : Nat
  npages : Nat
  /-- The linker's `kernel_end`. -/
  kernelEnd : Nat
  accessed : List Nat := []

abbrev MemComp := Comp MemState

def setWord (a v : Nat) : MemComp Unit :=
  modify fun σ => { σ with mem := writeWord σ.mem a v }

def memset (dst : Nat) (c : UInt8) (n : Nat) : MemComp Unit :=
  modify fun σ => { σ with mem := fill σ.mem dst n c }

def memmove (dst src n : Nat) : MemComp Unit :=
  modify fun σ => { σ with mem := move σ.mem dst src n }

def kfree (pa : Nat) : MemComp Unit := do
  let σ ← read
  if pa % pgsize ≠ 0 ∨ pa < σ.kernelEnd ∨ phystop < pa then
    Comp.panic "kfree: invalid physical address"
  else
    memset pa 1 pgsize
    setWord pa σ.freelist
    modify fun σ => { σ with freelist := pa, npages := u64 (σ.npages + 1) }

def kalloc : MemComp Nat := do
  let σ ← read
  let r := σ.freelist
  if r ≠ 0 then
    modify fun σ => { σ with
      freelist := readWord σ.mem r, npages := u64 (σ.npages + (2 ^ 64 - 1)) }
    memset r 5 pgsize
  pure r

/-! ## The free list -/

/-- `l` is the chain of pages that starts at `head`. -/
def Chained (m : Mem) : Nat → List Nat → Prop
  | head, [] => head = 0
  | head, p :: l => head = p ∧ p ≠ 0 ∧ Chained m (readWord m p) l

/-- A page of the memory that the allocator manages. -/
structure Managed (kernelEnd p : Nat) : Prop where
  aligned : p % 4096 = 0
  above : kernelEnd ≤ p
  below : p + 4096 ≤ phystop

structure FreeList (σ : MemState) (l : List Nat) : Prop where
  chain : Chained σ.mem σ.freelist l
  managed : ∀ p ∈ l, Managed σ.kernelEnd p
  nodup : l.Nodup
  count : σ.npages = l.length

theorem Managed.lt {kernelEnd p : Nat} (h : Managed kernelEnd p) : p + 4096 < 2 ^ 64 :=
  Nat.lt_of_le_of_lt h.below (by decide)

theorem managed_length_le {kernelEnd : Nat} {l : List Nat} (hl : l.Nodup)
    (h : ∀ p ∈ l, Managed kernelEnd p) : l.length ≤ phystop := by
  have hsub : l ⊆ List.range phystop := by
    intro p hp
    have := (h p hp).below
    exact List.mem_range.mpr (by omega)
  have hlen := (List.subperm_of_subset hl hsub).length_le
  rwa [List.length_range] at hlen

/-- Distinct managed pages are few enough for the counter. -/
theorem managed_length_lt {kernelEnd : Nat} {l : List Nat} (hl : l.Nodup)
    (h : ∀ p ∈ l, Managed kernelEnd p) : l.length < 2 ^ 64 :=
  Nat.lt_of_le_of_lt (managed_length_le hl h) (by decide)

theorem Chained.congr {m m' : Mem} {head : Nat} {l : List Nat} (h : Chained m head l)
    (hm : ∀ p ∈ l, readWord m' p = readWord m p) : Chained m' head l := by
  induction l generalizing head with
  | nil => exact h
  | cons p l ih =>
    obtain ⟨rfl, hp, hl⟩ := h
    refine ⟨rfl, hp, ?_⟩
    rw [hm head (List.mem_cons_self ..)]
    exact ih hl fun q hq => hm q (List.mem_cons_of_mem _ hq)

theorem Chained.ne_zero {m : Mem} {head : Nat} {l : List Nat} (h : Chained m head l) :
    ∀ p ∈ l, p ≠ 0 := by
  induction l generalizing head with
  | nil => simp
  | cons p l ih =>
    obtain ⟨_, hp, hl⟩ := h
    intro q hq
    rcases List.mem_cons.mp hq with rfl | hq
    · exact hp
    · exact ih hl q hq

theorem FreeList.ne_zero {σ : MemState} {l : List Nat} {q : Nat} (h : FreeList σ l)
    (hq : q ∈ l) : q ≠ 0 := h.chain.ne_zero q hq

/-- A change of memory that spares the first word of each free page keeps the list. -/
theorem FreeList.congr {σ : MemState} {l : List Nat} (h : FreeList σ l) (m' : Mem)
    (hm : ∀ p ∈ l, readWord m' p = readWord σ.mem p) : FreeList { σ with mem := m' } l :=
  ⟨h.chain.congr hm, h.managed, h.nodup, h.count⟩

private theorem pages_apart {p q : Nat} (hp : p % 4096 = 0) (hq : q % 4096 = 0) (hne : p ≠ q) :
    p + 4096 ≤ q ∨ q + 4096 ≤ p := by omega

theorem kalloc_empty {σ : MemState} (h : FreeList σ []) : kalloc σ = .ok 0 σ := by
  have h0 : σ.freelist = 0 := h.chain
  simp [kalloc, h0]

/-- The state after `kalloc` takes page `p` off the list. -/
def allocated (σ : MemState) (p : Nat) : MemState :=
  { σ with
    mem := fill σ.mem p pgsize 5
    freelist := readWord σ.mem p
    npages := u64 (σ.npages + (2 ^ 64 - 1)) }

theorem kalloc_cons {σ : MemState} {p : Nat} {l : List Nat} (h : FreeList σ (p :: l)) :
    kalloc σ = .ok p (allocated σ p) ∧ FreeList (allocated σ p) l := by
  obtain ⟨hhead, hp, hchain⟩ := h.chain
  have hmanaged := h.managed p (List.mem_cons_self ..)
  obtain ⟨hnot, hnodup⟩ := List.nodup_cons.mp h.nodup
  constructor
  · simp [kalloc, hhead, hp, memset, allocated]
  · refine ⟨?_, fun q hq => h.managed q (List.mem_cons_of_mem _ hq), hnodup, ?_⟩
    · refine hchain.congr fun q hq => ?_
      have hq' := h.managed q (List.mem_cons_of_mem _ hq)
      have hne : q ≠ p := fun e => hnot (e ▸ hq)
      have := pages_apart hq'.aligned hmanaged.aligned hne
      exact readWord_fill_of_disjoint _ _ _ _ _ (by simp only [pgsize]; omega)
    · have hlen := managed_length_lt h.nodup h.managed
      have hcount := h.count
      simp only [List.length_cons] at hcount hlen
      simp only [allocated, u64, hcount]
      omega

/-- `kalloc` never returns a page that stays on the list. -/
theorem kalloc_holds {σ : MemState} {l : List Nat} (h : FreeList σ l) :
    (l = [] ∧ kalloc σ = .ok 0 σ) ∨
    ∃ p l', l = p :: l' ∧ kalloc σ = .ok p (allocated σ p) ∧ FreeList (allocated σ p) l' := by
  cases l with
  | nil => exact Or.inl ⟨rfl, kalloc_empty h⟩
  | cons p l' =>
    obtain ⟨h1, h2⟩ := kalloc_cons h
    exact Or.inr ⟨p, l', rfl, h1, h2⟩

/-- The state after `kfree` puts page `pa` on the list. -/
def freed (σ : MemState) (pa : Nat) : MemState :=
  { σ with
    mem := writeWord (fill σ.mem pa pgsize 1) pa σ.freelist
    freelist := pa
    npages := u64 (σ.npages + 1) }

theorem freed_mem_outside (σ : MemState) (pa b : Nat) (h : b < pa ∨ pa + 4096 ≤ b) :
    (freed σ pa).mem b = σ.mem b := by
  have hw : b < pa ∨ pa + 8 ≤ b := by omega
  simp only [freed]
  rw [writeWord_apply_of_outside _ _ _ _ hw]
  exact fill_apply_of_outside _ _ _ _ _ h

theorem kfree_managed {σ : MemState} {pa : Nat} {l : List Nat} (h : FreeList σ l)
    (hpa : Managed σ.kernelEnd pa) (h0 : pa ≠ 0) (hnew : pa ∉ l) :
    kfree pa σ = .ok () (freed σ pa) ∧ FreeList (freed σ pa) (pa :: l) := by
  have hbelow := hpa.below
  have hguard : ¬ (pa % pgsize ≠ 0 ∨ pa < σ.kernelEnd ∨ phystop < pa) := by
    rintro (h | h | h)
    · exact h hpa.aligned
    · exact absurd hpa.above (by omega)
    · omega
  have hmem : ∀ p ∈ l, readWord (freed σ pa).mem p = readWord σ.mem p := by
    intro p hp
    have hne : p ≠ pa := fun e => hnew (e ▸ hp)
    have hap := pages_apart (h.managed p hp).aligned hpa.aligned hne
    exact readWord_congr fun b _ _ => freed_mem_outside σ pa b (by omega)
  have hlink : readWord (freed σ pa).mem pa = σ.freelist := by
    have hlt : σ.freelist < 2 ^ 64 := by
      cases l with
      | nil => rw [show σ.freelist = 0 from h.chain]; decide
      | cons p l =>
        rw [show σ.freelist = p from h.chain.1]
        exact Nat.lt_of_le_of_lt (by omega) (h.managed p (List.mem_cons_self ..)).lt
    simp only [freed]
    rw [readWord_writeWord, Nat.mod_eq_of_lt hlt]
  have hall : ∀ p ∈ pa :: l, Managed σ.kernelEnd p := by
    intro p hp
    rcases List.mem_cons.mp hp with rfl | hp
    · exact hpa
    · exact h.managed p hp
  have hnodup : (pa :: l).Nodup := List.nodup_cons.mpr ⟨hnew, h.nodup⟩
  refine ⟨?_, ⟨rfl, h0, ?_⟩, hall, hnodup, ?_⟩
  · simp only [kfree, read_bind, hguard, if_false]
    rfl
  · rw [hlink]
    exact h.chain.congr hmem
  · have hlen := managed_length_lt hnodup hall
    rw [List.length_cons] at hlen
    simp only [freed, List.length_cons, u64, h.count, Nat.mod_eq_of_lt hlen]

/-! ## A machine with given free pages -/

/-- Memory after `kfree` of the pages of `l`, last to first, from all zero. -/
def withFree (kernelEnd : Nat) (l : List Nat) : MemState :=
  l.foldr (fun p σ => freed σ p) ⟨fun _ => 0, 0, 0, kernelEnd, []⟩

theorem withFree_kernelEnd (kernelEnd : Nat) (l : List Nat) :
    (withFree kernelEnd l).kernelEnd = kernelEnd := by
  cases l with
  | nil => rfl
  | cons p l => exact withFree_kernelEnd kernelEnd l

theorem withFree_freeList {kernelEnd : Nat} {l : List Nat} (hnodup : l.Nodup)
    (hl : ∀ p ∈ l, Managed kernelEnd p ∧ p ≠ 0) : FreeList (withFree kernelEnd l) l := by
  induction l with
  | nil => exact ⟨rfl, by simp, List.nodup_nil, rfl⟩
  | cons p l ih =>
    obtain ⟨hp, hnodup⟩ := List.nodup_cons.mp hnodup
    have hrest := ih hnodup fun q hq => hl q (List.mem_cons_of_mem _ hq)
    obtain ⟨hmanaged, h0⟩ := hl p (List.mem_cons_self ..)
    have hmanaged' : Managed (withFree kernelEnd l).kernelEnd p := by
      rw [withFree_kernelEnd]
      exact hmanaged
    exact (kfree_managed hrest hmanaged' h0 hp).2

/-- Pages that are not free are all zero. -/
theorem withFree_zero (kernelEnd : Nat) {l : List Nat} {b : Nat}
    (hb : ∀ p ∈ l, b < p ∨ p + 4096 ≤ b) : (withFree kernelEnd l).mem b = 0 := by
  induction l with
  | nil => rfl
  | cons p l ih =>
    exact (freed_mem_outside _ _ _ (hb p (List.mem_cons_self ..))).trans
      (ih fun q hq => hb q (List.mem_cons_of_mem _ hq))

end PageFaultOS
