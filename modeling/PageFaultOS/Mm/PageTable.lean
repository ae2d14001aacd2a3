import Mathlib.Tactic
import PageFaultOS.Lib.Radix
import PageFaultOS.Mm.Vm

/-! Sv39 tables as radix trees: the pages of a table are page numbers, its slots the
512 words of a page. `PageTable` is the well-formedness of a three-level table and
`walk_alloc` what `walk` does to one: it may hang empty tables into it, and changes
no entry of a virtual page. -/

namespace PageFaultOS
open Exec Exec.Comp ByteMem

/-- The 512 entries of each page. -/
def slots (m : Mem) : Radix.Store Nat (Fin 512) Nat :=
  fun pn i => readWord m (pn * 4096 + 8 * i.val)

/-- The page number that a valid entry holds. -/
def child (pte : Nat) : Option Nat :=
  if pte &&& pteV ≠ 0 then some (pte2page pte / 4096) else none

def idx (level va : Nat) : Fin 512 := ⟨px level va, px_lt level va⟩

/-- The indices that lead to the last table of `va`. -/
def inner (va : Nat) : List (Fin 512) := [idx 2 va, idx 1 va]

/-- The page number of the last table of `va`, where there is one. -/
def leafTable (m : Mem) (root va : Nat) : Option Nat :=
  Radix.reach child (slots m) (root / 4096) (inner va)

/-- The entry of the virtual page of `va`, `0` where it has no last table. -/
def pteOf (m : Mem) (root va : Nat) : Nat :=
  match leafTable m root va with
  | none => 0
  | some pn => slots m pn (idx 0 va)

/-- The frame and the flags of a mapped virtual page. -/
def translate (m : Mem) (root va : Nat) : Option (Nat × Nat) :=
  if pteOf m root va &&& pteV ≠ 0 then
    some (pte2page (pteOf m root va), pteFlags (pteOf m root va))
  else
    none

/-- A three-level table: inner valid entries are not leaves, and no page is used as
a table twice. -/
structure PageTable (m : Mem) (root : Nat) : Prop where
  aligned : root % 4096 = 0
  nonLeaf : ∀ is pn i, is.length < 2 → Radix.reach child (slots m) (root / 4096) is = some pn →
    slots m pn i &&& pteV ≠ 0 → slots m pn i &&& (pteR ||| pteW ||| pteX) = 0
  tree : Radix.Tree child (slots m) (root / 4096) 2

def NotInTable (m : Mem) (root page : Nat) : Prop :=
  Radix.Fresh child (slots m) (root / 4096) 2 (page / 4096)

theorem pteOf_of_leafTable {m : Mem} {root va pn : Nat} (h : leafTable m root va = some pn) :
    pteOf m root va = slots m pn (idx 0 va) := by
  rw [pteOf, h]

theorem pteOf_of_none {m : Mem} {root va : Nat} (h : leafTable m root va = none) :
    pteOf m root va = 0 := by
  rw [pteOf, h]

theorem translate_congr {m m' : Mem} {root va : Nat} (h : pteOf m' root va = pteOf m root va) :
    translate m' root va = translate m root va := by
  rw [translate, translate, h]

/-- An entry depends on the page of the address only. -/
theorem pteOf_page (m : Mem) (root va : Nat) :
    pteOf m root (va / 4096 * 4096) = pteOf m root va := by
  have hidx : ∀ level, idx level (va / 4096 * 4096) = idx level va :=
    fun level => Fin.ext (px_page level va)
  simp only [pteOf, leafTable, inner, hidx]

theorem slots_writeWord (m : Mem) (pn v : Nat) (i : Fin 512) :
    slots (writeWord m (pn * 4096 + 8 * i.val) v) =
      Radix.set (slots m) pn i (v % 2 ^ 64) := by
  funext qn j
  by_cases h : qn = pn ∧ j = i
  · obtain ⟨rfl, rfl⟩ := h
    rw [Radix.set_self, slots, readWord_writeWord]
  · rw [Radix.set, if_neg h]
    have hij : qn = pn → j.val ≠ i.val := fun e hv => h ⟨e, Fin.ext hv⟩
    have hi := i.isLt
    have hj := j.isLt
    exact readWord_writeWord_of_disjoint _ _ _ _ (by omega)

theorem slots_fill_zero (m : Mem) (page : Nat) (hpage : page % 4096 = 0) (c : UInt8) :
    slots (fill (fill m page pgsize c) page pgsize 0) =
      Radix.clear (slots m) (page / 4096) 0 := by
  funext qn j
  have hj := j.isLt
  by_cases h : qn = page / 4096
  · subst h
    rw [Radix.clear_self, slots]
    exact readWord_fill_zero _ _ _ _ (by omega) (by simp only [pgsize]; omega)
  · rw [Radix.clear_other h, slots, readWord_fill_of_disjoint, readWord_fill_of_disjoint]
    · rfl
    · simp only [pgsize]; omega
    · simp only [pgsize]; omega

theorem child_table_entry {q : Nat} (hq : q % 4096 = 0) (hlt : q < 2 ^ 64) :
    child (page2pte q ||| pteV) = some (q / 4096) := by
  have hv : (page2pte q ||| pteV) &&& pteV ≠ 0 := by
    rw [and_flag _ (by decide), pteFlags_or (by decide)]
    decide
  rw [child, if_pos hv, pte2page_or hlt hq (by decide)]

/-- A page of zeros is a table without mappings. -/
theorem pageTable_of_zero (m : Mem) (root : Nat) (hal : root % 4096 = 0)
    (hz : ∀ i, slots m (root / 4096) i = 0) :
    PageTable m root ∧ (∀ page, page % 4096 = 0 → page ≠ root → NotInTable m root page) ∧
      ∀ va, pteOf m root va = 0 := by
  have hnone : ∀ i is, Radix.reach child (slots m) (root / 4096) (i :: is) = none := by
    intro i is
    rw [Radix.reach_cons, hz i]
    rfl
  have hnil : ∀ is pn, Radix.reach child (slots m) (root / 4096) is = some pn →
      is = [] ∧ pn = root / 4096 := by
    intro is pn h
    cases is with
    | nil => exact ⟨rfl, by simpa using h.symm⟩
    | cons i is => rw [hnone] at h; cases h
  refine ⟨⟨hal, ?_, ?_⟩, ?_, ?_⟩
  · intro is pn i _ h hval
    rw [(hnil is pn h).2, hz i] at hval
    exact absurd rfl hval
  · intro is js pn _ _ h1 h2
    rw [(hnil is pn h1).1, (hnil js pn h2).1]
  · intro page hpage hne is _ h
    have := (hnil is _ h).2
    omega
  · intro va
    exact pteOf_of_none (hnone _ _)

/-- The state after `walk` hangs the free page `q` into the slot of `va`. -/
def linked (σ : MemState) (q pn level va : Nat) : MemState :=
  let m := fill (fill σ.mem q pgsize 5) q pgsize 0
  { allocated σ q with
    mem := writeWord m (pn * 4096 + 8 * px level va) (page2pte q ||| pteV) }

theorem slots_linked (σ : MemState) {q : Nat} (pn level va : Nat) (hq : q % 4096 = 0)
    (hlt : q < 2 ^ 64) : slots (linked σ q pn level va).mem =
      Radix.link (slots σ.mem) pn (idx level va) (page2pte q ||| pteV) (q / 4096) 0 := by
  have h1 := slots_fill_zero σ.mem q hq 5
  have h2 := slots_writeWord (fill (fill σ.mem q pgsize 5) q pgsize 0) pn
    (page2pte q ||| pteV) (idx level va)
  rw [Nat.mod_eq_of_lt (page2pte_or_lt hlt (by decide)), h1] at h2
  exact h2

/-- One level of `walk` with `alloc` set, from a table that is not a free page. -/
theorem walkLevel_cases {σ : MemState} {l : List Nat} (hfree : FreeList σ l) {pn : Nat}
    (hpn : ∀ q ∈ l, q / 4096 ≠ pn) (va level : Nat) :
    (slots σ.mem pn (idx level va) &&& pteV ≠ 0 ∧
      walkLevel (pn * 4096) va true level σ =
        .ok (some (pte2page (slots σ.mem pn (idx level va)))) σ) ∨
    (slots σ.mem pn (idx level va) &&& pteV = 0 ∧ l = [] ∧
      walkLevel (pn * 4096) va true level σ = .ok none σ) ∨
    (slots σ.mem pn (idx level va) &&& pteV = 0 ∧ ∃ q l', l = q :: l' ∧
      walkLevel (pn * 4096) va true level σ = .ok (some q) (linked σ q pn level va) ∧
      FreeList (linked σ q pn level va) l') := by
  have hword : readWord σ.mem (pn * 4096 + 8 * px level va) = slots σ.mem pn (idx level va) := rfl
  by_cases hval : slots σ.mem pn (idx level va) &&& pteV = 0
  · rcases kalloc_holds hfree with ⟨hl, hk⟩ | ⟨q, l', hl, hk, hfree'⟩
    · refine Or.inr (Or.inl ⟨hval, hl, ?_⟩)
      simp [walkLevel, hword, hval, bind_ok hk]
    · have hq := hfree.managed q (hl ▸ List.mem_cons_self ..)
      have hq0 : q ≠ 0 := by
        have hc := hfree.chain
        rw [hl] at hc
        exact hc.2.1
      refine Or.inr (Or.inr ⟨hval, q, l', hl, ?_, ?_⟩)
      · simp only [walkLevel, read_bind, hword, hval, ne_eq, not_true_eq_false, if_false, if_true]
        rw [bind_ok hk]
        simp only [hq0, if_false, memset, setWord, modify_bind]
        rfl
      · refine hfree'.congr _ fun r hr => ?_
        have hnodup := hfree.nodup
        rw [hl, List.nodup_cons] at hnodup
        have hrq : r ≠ q := fun e => hnodup.1 (e ▸ hr)
        have hrp := hpn r (hl ▸ List.mem_cons_of_mem _ hr)
        have hra := (hfree'.managed r hr).aligned
        have hqa := hq.aligned
        have hpx := px_lt level va
        rw [readWord_writeWord_of_disjoint _ _ _ _ (by omega),
          readWord_fill_of_disjoint _ _ _ _ _ (by simp only [pgsize]; omega)]
        rfl
  · refine Or.inl ⟨hval, ?_⟩
    simp [walkLevel, hword, hval]

/-- What `walk` may do to a table and to the free list. -/
structure Grown (root : Nat) (σ : MemState) (l : List Nat) (σ' : MemState) (l' : List Nat) :
    Prop where
  table : PageTable σ'.mem root
  free : FreeList σ' l'
  fresh : ∀ q ∈ l', NotInTable σ'.mem root q
  sub : l' <:+ l
  ptes : ∀ va, pteOf σ'.mem root va = pteOf σ.mem root va

section
variable {root : Nat} {σ : MemState} {l : List Nat}
  (hwf : PageTable σ.mem root) (hfree : FreeList σ l)
  (hfresh : ∀ q ∈ l, NotInTable σ.mem root q)
include hwf hfree hfresh

theorem Grown.refl : Grown root σ l σ l :=
  ⟨hwf, hfree, hfresh, List.suffix_rfl, fun _ => rfl⟩

omit hwf hfree hfresh in
theorem Grown.trans {σ' σ'' : MemState} {l' l'' : List Nat} (h : Grown root σ l σ' l')
    (h' : Grown root σ' l' σ'' l'') : Grown root σ l σ'' l'' :=
  ⟨h'.table, h'.free, h'.fresh, h'.sub.trans h.sub, fun va => (h'.ptes va).trans (h.ptes va)⟩

/-- Hanging the page `q` from the free list into an empty inner slot. -/
theorem grown_link {is : List (Fin 512)} {pn q : Nat} {i : Fin 512} {l' : List Nat}
    {σ' : MemState} (hl : l = q :: l')
    (hreach : Radix.reach child (slots σ.mem) (root / 4096) is = some pn)
    (his : is.length < 2) (hempty : child (slots σ.mem pn i) = none)
    (hslots : slots σ'.mem =
      Radix.link (slots σ.mem) pn i (page2pte q ||| pteV) (q / 4096) 0)
    (hfree' : FreeList σ' l') : Grown root σ l σ' l' := by
  have hq := hfree.managed q (hl ▸ List.mem_cons_self ..)
  have hqn : Radix.Fresh child (slots σ.mem) (root / 4096) 2 (q / 4096) :=
    hfresh q (hl ▸ List.mem_cons_self ..)
  have hv : child (page2pte q ||| pteV) = some (q / 4096) :=
    child_table_entry hq.aligned (Nat.lt_of_le_of_lt (by omega) hq.lt)
  have hz : child 0 = none := by decide
  have hpq : pn ≠ q / 4096 := fun e => hqn is (by omega) (e ▸ hreach)
  have hback := Radix.reach_link_eq hwf.tree hreach his hqn hv hz (i := i)
  refine ⟨⟨hwf.aligned, ?_, ?_⟩, hfree', ?_, ⟨[q], hl ▸ rfl⟩, ?_⟩
  · intro js rn j hjs hr hval
    rw [hslots] at hr hval ⊢
    rcases hback js (by omega) rn hr with ⟨-, rfl⟩ | hr
    · rw [Radix.link, Radix.set_other (fun e => absurd e.symm hpq), Radix.clear_self] at hval
      simp at hval
    · have hrq : rn ≠ q / 4096 := fun e => hqn js (by omega) (e ▸ hr)
      by_cases hslot : rn = pn ∧ j = i
      · obtain ⟨rfl, rfl⟩ := hslot
        rw [Radix.link, Radix.set_self, and_flag _ (by decide), pteFlags_or (by decide)]
        decide
      · have hne : rn = pn → j ≠ i := fun e h => hslot ⟨e, h⟩
        rw [Radix.link, Radix.set_other hne, Radix.clear_other hrq] at hval ⊢
        exact hwf.nonLeaf js rn j hjs hr hval
  · rw [hslots]
    exact Radix.tree_link hwf.tree hreach his hqn hv hz
  · intro r hr js hjs hjr
    rw [hslots] at hjr
    rcases hback js hjs _ hjr with ⟨-, he⟩ | hjr
    · have hrl : r ∈ l := hl ▸ List.mem_cons_of_mem _ hr
      have hr' := (hfree.managed r hrl).aligned
      have hqr : r = q := by have := hq.aligned; omega
      have hnodup := hfree.nodup
      rw [hl, List.nodup_cons] at hnodup
      exact hnodup.1 (hqr ▸ hr)
    · exact hfresh r (hl ▸ List.mem_cons_of_mem _ hr) js hjs hjr
  · intro va
    by_cases hpre : is ++ [i] <+: inner va
    · -- the path of `va` goes through the new slot: there was no entry, and there is an empty one
      have hold : leafTable σ.mem root va = none :=
        Radix.reach_through_empty hreach hempty _ hpre
      rw [pteOf_of_none hold]
      cases hnew : leafTable σ'.mem root va with
      | none => exact pteOf_of_none hnew
      | some rn =>
        rw [pteOf_of_leafTable hnew, hslots]
        rw [leafTable, hslots] at hnew
        rcases hback _ (le_refl 2) rn hnew with ⟨-, rfl⟩ | hr
        · rw [Radix.link, Radix.set_other (fun e => absurd e.symm hpq), Radix.clear_self]
        · rw [leafTable, hr] at hold
          cases hold
    · have hsame : leafTable σ'.mem root va = leafTable σ.mem root va := by
        rw [leafTable, hslots]
        exact Radix.reach_link_other hwf.tree hreach his hqn _ (le_refl 2) hpre
      cases hr : leafTable σ.mem root va with
      | none => rw [pteOf_of_none hr, pteOf_of_none (hsame.trans hr)]
      | some rn =>
        have hrq : rn ≠ q / 4096 := fun e => hqn _ (le_refl 2) (e ▸ hr)
        have hrp : rn ≠ pn := by
          rintro rfl
          have := hwf.tree _ _ _ (le_refl 2) (by omega) hr hreach
          rw [← this] at his
          exact absurd his (by simp [inner])
        rw [pteOf_of_leafTable hr, pteOf_of_leafTable (hsame.trans hr), hslots, Radix.link,
          Radix.set_other (fun e => absurd e hrp), Radix.clear_other hrq]

/-- One level of `walk` from a table of the tree. -/
theorem walkLevel_alloc {is : List (Fin 512)} {pn : Nat} (va level : Nat)
    (hreach : Radix.reach child (slots σ.mem) (root / 4096) is = some pn) (his : is.length < 2) :
    ∃ r σ' l', walkLevel (pn * 4096) va true level σ = .ok r σ' ∧ Grown root σ l σ' l' ∧
      (r = none ∨ ∃ qn, r = some (qn * 4096) ∧
        Radix.reach child (slots σ'.mem) (root / 4096) (is ++ [idx level va]) = some qn) := by
  have hpn : ∀ q ∈ l, q / 4096 ≠ pn := fun q hq e => hfresh q hq is (by omega) (e ▸ hreach)
  rcases walkLevel_cases hfree hpn va level with
    ⟨hval, hrun⟩ | ⟨_, _, hrun⟩ | ⟨hval, q, l', hl, hrun, hfree'⟩
  · refine ⟨_, σ, l, hrun, Grown.refl hwf hfree hfresh,
      Or.inr ⟨pte2page (slots σ.mem pn (idx level va)) / 4096, ?_, ?_⟩⟩
    · rw [page_mul (pte2page_aligned _)]
    · rw [Radix.reach_append, hreach, Option.bind_some, Radix.reach_cons, child, if_pos hval]
      rfl
  · exact ⟨none, σ, l, hrun, Grown.refl hwf hfree hfresh, Or.inl rfl⟩
  · have hq := hfree.managed q (hl ▸ List.mem_cons_self ..)
    have hqlt : q < 2 ^ 64 := Nat.lt_of_le_of_lt (by omega) hq.lt
    have hqn := hfresh q (hl ▸ List.mem_cons_self ..)
    have hempty : child (slots σ.mem pn (idx level va)) = none := by simp [child, hval]
    have hslots := slots_linked σ pn level va hq.aligned hqlt
    refine ⟨some q, _, l', hrun,
      grown_link hwf hfree hfresh hl hreach his hempty hslots hfree',
      Or.inr ⟨q / 4096, ?_, ?_⟩⟩
    · rw [page_mul hq.aligned]
    · rw [hslots]
      exact Radix.reach_link_self hwf.tree hreach his hqn (child_table_entry hq.aligned hqlt)

/-- `walk` with `alloc` set either finds no memory or returns the address of the
entry, and changes no entry on the way. -/
theorem walk_alloc (va : Nat) (hva : va < maxva) :
    ∃ r σ' l', walk root va true σ = .ok r σ' ∧ Grown root σ l σ' l' ∧
      (r = 0 ∨ ∃ pn, leafTable σ'.mem root va = some pn ∧ r = pn * 4096 + 8 * px 0 va) := by
  have hnot : ¬ maxva ≤ va := by omega
  have hroot : root / 4096 * 4096 = root := page_mul hwf.aligned
  have hself : Radix.reach child (slots σ.mem) (root / 4096) [] = some (root / 4096) := rfl
  obtain ⟨r2, σ2, l2, hw2, hg2, hr2⟩ :=
    walkLevel_alloc hwf hfree hfresh va 2 hself (by decide)
  rw [hroot] at hw2
  rcases hr2 with rfl | ⟨q2, rfl, hq2⟩
  · refine ⟨0, σ2, l2, ?_, hg2, Or.inl rfl⟩
    simp only [walk, hnot, if_false]
    rw [bind_ok hw2]
    rfl
  · obtain ⟨r1, σ1, l1, hw1, hg1, hr1⟩ :=
      walkLevel_alloc hg2.table hg2.free hg2.fresh va 1 hq2 (by simp)
    have hwalk : walk root va true σ = (match r1 with
        | none => (pure 0 : MemComp Nat)
        | some table0 => pure (table0 + 8 * px 0 va)) σ1 := by
      simp only [walk, hnot, if_false]
      rw [bind_ok hw2]
      exact bind_ok hw1 _
    rcases hr1 with rfl | ⟨q1, rfl, hq1⟩
    · exact ⟨0, σ1, l1, hwalk, hg2.trans hg1, Or.inl rfl⟩
    · exact ⟨_, σ1, l1, hwalk, hg2.trans hg1, Or.inr ⟨q1, hq1, rfl⟩⟩

end

/-- The address of the entry of `va` as `walk` reports it, `0` for `NULL`. -/
def pteAddr (m : Mem) (root va : Nat) : Nat :=
  match leafTable m root va with
  | none => 0
  | some pn => pn * 4096 + 8 * px 0 va

theorem readWord_pteAddr {m : Mem} {root va : Nat} (h : pteAddr m root va ≠ 0) :
    readWord m (pteAddr m root va) = pteOf m root va := by
  cases hleaf : leafTable m root va with
  | none =>
    rw [pteAddr, hleaf] at h
    exact absurd rfl h
  | some pn =>
    rw [pteAddr, hleaf, pteOf_of_leafTable hleaf]
    rfl

/-- The entry of a virtual page depends on the entries on the way to it. -/
theorem pteOf_congr {m m' : Mem} {root va : Nat}
    (h : ∀ is i js, inner va ++ [idx 0 va] = is ++ i :: js →
      ∀ pn, Radix.reach child (slots m) (root / 4096) is = some pn →
        slots m' pn i = slots m pn i) : pteOf m' root va = pteOf m root va := by
  have hleaf : leafTable m' root va = leafTable m root va := by
    refine Radix.reach_congr (inner va) fun pre j post he q hr =>
      h pre j (post ++ [idx 0 va]) ?_ q hr
    rw [he, List.append_assoc]
    rfl
  cases hr : leafTable m root va with
  | none => rw [pteOf_of_none hr, pteOf_of_none (hleaf.trans hr)]
  | some pn =>
    rw [pteOf_of_leafTable hr, pteOf_of_leafTable (hleaf.trans hr)]
    exact h (inner va) (idx 0 va) [] rfl pn hr

/-- The pages of the table hold in `m'` what they hold in `m`. -/
def TableSame (m m' : Mem) (root : Nat) : Prop :=
  ∀ is pn, is.length ≤ 2 → Radix.reach child (slots m) (root / 4096) is = some pn →
    ∀ i, slots m' pn i = slots m pn i

section TableSame
variable {m m' : Mem} {root : Nat} (h : TableSame m m' root)
include h

theorem TableSame.reach (is : List (Fin 512)) (his : is.length ≤ 2) :
    Radix.reach child (slots m') (root / 4096) is =
      Radix.reach child (slots m) (root / 4096) is := by
  apply Radix.reach_congr
  intro pre j post he r hr
  have hlen : pre.length ≤ 2 := by
    rw [he, List.length_append] at his
    omega
  exact h pre r hlen hr j

theorem TableSame.notIn_iff {page : Nat} : NotInTable m' root page ↔ NotInTable m root page := by
  constructor
  · intro hnot is his hr
    exact hnot is his ((h.reach is his).trans hr)
  · intro hnot is his hr
    exact hnot is his ((h.reach is his).symm.trans hr)

theorem TableSame.leafTable (va : Nat) : leafTable m' root va = leafTable m root va :=
  h.reach (inner va) (le_refl 2)

theorem TableSame.pteAddr (va : Nat) : pteAddr m' root va = pteAddr m root va := by
  rw [PageFaultOS.pteAddr, PageFaultOS.pteAddr, h.leafTable va]

theorem TableSame.pteOf (va : Nat) : pteOf m' root va = pteOf m root va := by
  refine pteOf_congr fun is i js hpath pn hr => h is pn ?_ hr i
  have hlen := congrArg List.length hpath
  simp only [inner, List.length_append, List.length_cons, List.length_nil] at hlen
  omega

theorem TableSame.pageTable (hwf : PageTable m root) : PageTable m' root := by
  refine ⟨hwf.aligned, fun is pn i his hr hval => ?_, fun is js pn his hjs hr hr' => ?_⟩
  · rw [h.reach is (by omega)] at hr
    rw [h is pn (by omega) hr] at hval ⊢
    exact hwf.nonLeaf is pn i his hr hval
  · rw [h.reach is his] at hr
    rw [h.reach js hjs] at hr'
    exact hwf.tree is js pn his hjs hr hr'

/-- A change within a page that is none of the table. -/
theorem TableSame.change {m'' : Mem} {page : Nat} (hpage : page % 4096 = 0)
    (hnot : NotInTable m root page)
    (hm : ∀ b, b < page ∨ page + 4096 ≤ b → m'' b = m' b) : TableSame m m'' root := by
  intro is pn his hr i
  have hne : pn ≠ page / 4096 := fun e => hnot is his (e ▸ hr)
  have hi := i.isLt
  rw [← h is pn his hr i]
  exact readWord_congr fun b _ _ => hm b (by omega)

end TableSame

/-- One level of `walk` without `alloc` is one step down the tree. -/
theorem walkLevel_lookup (σ : MemState) (pn va level : Nat) :
    walkLevel (pn * 4096) va false level σ =
      .ok ((child (slots σ.mem pn (idx level va))).map (· * 4096)) σ := by
  have hword : readWord σ.mem (pn * 4096 + 8 * px level va) = slots σ.mem pn (idx level va) := rfl
  by_cases hval : slots σ.mem pn (idx level va) &&& pteV = 0
  · simp [walkLevel, hword, hval, child]
  · simp [walkLevel, hword, hval, child, page_mul (pte2page_aligned _)]

/-- `walk` without `alloc` reads the tree and changes nothing. -/
theorem walk_lookup {σ : MemState} {root : Nat} (hal : root % 4096 = 0) (va : Nat)
    (hva : va < maxva) : walk root va false σ = .ok (pteAddr σ.mem root va) σ := by
  have hnot : ¬ maxva ≤ va := by omega
  have h2 := walkLevel_lookup σ (root / 4096) va 2
  rw [page_mul hal] at h2
  have hleaf : leafTable σ.mem root va = (child (slots σ.mem (root / 4096) (idx 2 va))).bind
      fun q => child (slots σ.mem q (idx 1 va)) := by
    rw [leafTable, inner, Radix.reach_cons]
    congr 1
    funext q
    rw [Radix.reach_cons]
    cases child (slots σ.mem q (idx 1 va)) <;> rfl
  simp only [walk, hnot, if_false]
  rw [bind_ok h2]
  cases hc2 : child (slots σ.mem (root / 4096) (idx 2 va)) with
  | none =>
    rw [hc2] at hleaf
    simp [pteAddr, hleaf]
  | some q =>
    have h1 := walkLevel_lookup σ q va 1
    rw [hc2] at hleaf
    simp only [Option.map_some]
    rw [bind_ok h1]
    cases hc1 : child (slots σ.mem q (idx 1 va)) with
    | none => simp [pteAddr, hleaf, hc1]
    | some r => simp [pteAddr, hleaf, hc1]

/-- Storing an entry of the last table of `va` changes the entry of that page only. -/
theorem pteOf_setLeaf {m : Mem} {root va pn v : Nat} (hwf : PageTable m root)
    (hleaf : leafTable m root va = some pn) (hva : va < 2 ^ 39) (hv : v < 2 ^ 64) :
    let m' := writeWord m (pn * 4096 + 8 * px 0 va) v
    PageTable m' root ∧ (∀ page, NotInTable m root page → NotInTable m' root page) ∧
      ∀ vb, vb < 2 ^ 39 →
        pteOf m' root vb = if vb / 4096 = va / 4096 then v else pteOf m root vb := by
  intro m'
  have hslots : slots m' = Radix.set (slots m) pn (idx 0 va) v := by
    have h := slots_writeWord m pn v (idx 0 va)
    rw [Nat.mod_eq_of_lt hv] at h
    exact h
  have hkeep := fun is (h : is.length ≤ 2) =>
    Radix.reach_set_deepest (i := idx 0 va) (v := v) hwf.tree hleaf rfl is h
  refine ⟨⟨hwf.aligned, ?_, ?_⟩, ?_, ?_⟩
  · intro is rn i his hr hval
    rw [hslots] at hr hval ⊢
    rw [hkeep is (by omega)] at hr
    have hne : rn ≠ pn := by
      rintro rfl
      have := hwf.tree _ _ _ (by omega) (le_refl 2) hr hleaf
      rw [this] at his
      exact absurd his (by simp [inner])
    rw [Radix.set_other (fun e => absurd e hne)] at hval ⊢
    exact hwf.nonLeaf is rn i his hr hval
  · rw [hslots]
    exact Radix.tree_set_deepest hwf.tree hleaf rfl
  · intro page hpage is his hr
    rw [hslots, hkeep is his] at hr
    exact hpage is his hr
  · intro vb hvb
    have hsame : leafTable m' root vb = leafTable m root vb := by
      rw [leafTable, hslots]
      exact hkeep _ (le_refl 2)
    by_cases hpage : vb / 4096 = va / 4096
    · have hleaf' : leafTable m' root va = some pn := by
        rw [leafTable, hslots, hkeep _ (le_refl 2)]
        exact hleaf
      rw [if_pos hpage, ← pteOf_page, hpage, pteOf_page, pteOf_of_leafTable hleaf', hslots,
        Radix.set_self]
    · rw [if_neg hpage]
      cases hr : leafTable m root vb with
      | none => rw [pteOf_of_none hr, pteOf_of_none (hsame.trans hr)]
      | some rn =>
        rw [pteOf_of_leafTable hr, pteOf_of_leafTable (hsame.trans hr), hslots]
        apply Radix.set_other
        rintro rfl h0
        have hin := hwf.tree _ _ _ (le_refl 2) (le_refl 2) hr hleaf
        simp only [inner, List.cons.injEq, and_true] at hin
        exact hpage (page_eq_of_px hvb hva (Fin.val_eq_of_eq hin.1) (Fin.val_eq_of_eq hin.2)
          (Fin.val_eq_of_eq h0))

/-- The store of an entry leaves the free pages. -/
theorem freeList_setLeaf {root : Nat} {s : MemState} {l' : List Nat} {va pn : Nat}
    (h : FreeList s l') (hfresh : ∀ q ∈ l', NotInTable s.mem root q)
    (hleaf : leafTable s.mem root va = some pn) (v : Nat) :
    FreeList { s with mem := writeWord s.mem (pn * 4096 + 8 * px 0 va) v } l' := by
  refine h.congr _ fun q hq => ?_
  have hqa := (h.managed q hq).aligned
  have hpx := px_lt 0 va
  have hqn : q / 4096 ≠ pn := by
    rintro rfl
    exact hfresh q hq (inner va) (Nat.le_refl 2) hleaf
  exact readWord_writeWord_of_disjoint _ _ _ _ (by omega)

/-! ## A table of three pages -/

/-- The table at page `p2` has one entry in each of its inner pages. -/
structure OnePath (m : Mem) (p2 p1 p0 : Nat) (k2 k1 : Fin 512) : Prop where
  distinct : [p2, p1, p0].Nodup
  below : p1 * 4096 < 2 ^ 64 ∧ p0 * 4096 < 2 ^ 64
  root : ∀ i, slots m p2 i = if i = k2 then page2pte (p1 * 4096) ||| pteV else 0
  middle : ∀ i, slots m p1 i = if i = k1 then page2pte (p0 * 4096) ||| pteV else 0

namespace OnePath
variable {m : Mem} {p2 p1 p0 : Nat} {k2 k1 : Fin 512} (h : OnePath m p2 p1 p0 k2 k1)
include h

theorem child_root (i : Fin 512) : child (slots m p2 i) = if i = k2 then some p1 else none := by
  rw [h.root]
  by_cases hi : i = k2
  · rw [if_pos hi, if_pos hi, child_table_entry (Nat.mul_mod_left p1 4096) h.below.1,
      Nat.mul_div_cancel p1 (by decide)]
  · rw [if_neg hi, if_neg hi]
    rfl

theorem child_middle (i : Fin 512) : child (slots m p1 i) = if i = k1 then some p0 else none := by
  rw [h.middle]
  by_cases hi : i = k1
  · rw [if_pos hi, if_pos hi, child_table_entry (Nat.mul_mod_left p0 4096) h.below.2,
      Nat.mul_div_cancel p0 (by decide)]
  · rw [if_neg hi, if_neg hi]
    rfl

/-- What its index lists lead to. -/
theorem reach_iff {is : List (Fin 512)} (his : is.length ≤ 2) (pn : Nat) :
    Radix.reach child (slots m) p2 is = some pn ↔
      (is = [] ∧ pn = p2) ∨ (is = [k2] ∧ pn = p1) ∨ (is = [k2, k1] ∧ pn = p0) := by
  match is with
  | [] => simpa using eq_comm
  | [i] =>
    rw [Radix.reach_cons, h.child_root]
    by_cases hi : i = k2
    · simpa [hi] using eq_comm
    · simp [hi]
  | [i, j] =>
    rw [Radix.reach_cons, h.child_root]
    by_cases hi : i = k2
    · rw [if_pos hi, Option.bind_some, Radix.reach_cons, h.child_middle]
      by_cases hj : j = k1
      · simpa [hi, hj] using eq_comm
      · simp [hj]
    · simp [hi]
  | _ :: _ :: _ :: _ => simp at his

/-- Only the two inner pages matter. -/
theorem congr {m' : Mem} (hm : ∀ b, b / 4096 = p2 ∨ b / 4096 = p1 → m' b = m b) :
    OnePath m' p2 p1 p0 k2 k1 := by
  have hslots : ∀ pn, pn = p2 ∨ pn = p1 → ∀ i, slots m' pn i = slots m pn i := by
    intro pn hpn i
    have hi := i.isLt
    exact readWord_congr fun b _ _ => hm b (by omega)
  refine ⟨h.distinct, h.below, fun i => ?_, fun i => ?_⟩
  · rw [hslots p2 (Or.inl rfl), h.root]
  · rw [hslots p1 (Or.inr rfl), h.middle]

theorem pageTable : PageTable m (p2 * 4096) := by
  have hdiv : p2 * 4096 / 4096 = p2 := Nat.mul_div_cancel p2 (by decide)
  have hdistinct := h.distinct
  simp only [List.nodup_cons, List.mem_cons, List.not_mem_nil, or_false, not_or] at hdistinct
  obtain ⟨⟨h21, h20⟩, h10, -⟩ := hdistinct
  refine ⟨Nat.mul_mod_left p2 4096, fun is pn i his hreach hval => ?_, ?_⟩
  · rw [hdiv, h.reach_iff (by omega)] at hreach
    have htable : ∀ q, (page2pte q ||| pteV) &&& (pteR ||| pteW ||| pteX) = 0 := fun q => by
      rw [and_flag _ (by decide), pteFlags_or (by decide)]
      decide
    rcases hreach with ⟨-, rfl⟩ | ⟨-, rfl⟩ | ⟨rfl, -⟩
    · rw [h.root] at hval ⊢
      by_cases hi : i = k2
      · rw [if_pos hi]
        exact htable _
      · rw [if_neg hi] at hval
        exact absurd rfl hval
    · rw [h.middle] at hval ⊢
      by_cases hi : i = k1
      · rw [if_pos hi]
        exact htable _
      · rw [if_neg hi] at hval
        exact absurd rfl hval
    · exact absurd his (by simp)
  · intro is js pn his hjs hi hj
    rw [hdiv, h.reach_iff his] at hi
    rw [hdiv, h.reach_iff hjs] at hj
    rcases hi with ⟨rfl, rfl⟩ | ⟨rfl, rfl⟩ | ⟨rfl, rfl⟩ <;>
      rcases hj with ⟨rfl, hpn⟩ | ⟨rfl, hpn⟩ | ⟨rfl, hpn⟩ <;> first | rfl | omega

/-- The entries of the addresses that go through the last page. -/
theorem pteOf_path {va : Nat} (h2 : idx 2 va = k2) (h1 : idx 1 va = k1) :
    pteOf m (p2 * 4096) va = slots m p0 (idx 0 va) := by
  refine pteOf_of_leafTable ?_
  rw [leafTable, Nat.mul_div_cancel p2 (by decide), inner,
    h.reach_iff (by simp : [idx 2 va, idx 1 va].length ≤ 2), h2, h1]
  exact Or.inr (Or.inr ⟨rfl, rfl⟩)

end OnePath

/-- The first page. -/
theorem idx_low {va : Nat} (hva : va < 4096) (level : Nat) : idx level va = 0 := by
  have hle : 2 ^ 12 ≤ 2 ^ (12 + 9 * level) := Nat.pow_le_pow_right (by decide) (by omega)
  have hpx : px level va = 0 := by
    rw [px_eq, Nat.div_eq_of_lt (Nat.lt_of_lt_of_le hva hle)]
  exact Fin.ext hpx

/-- The memory with a table of the pages `p2`, `p1` and `p0` that has the entry `v` for page `0`. -/
def onePath (m : Mem) (p2 p1 p0 v : Nat) : Mem :=
  writeWord (writeWord (writeWord m (p2 * 4096) (page2pte (p1 * 4096) ||| pteV)) (p1 * 4096)
    (page2pte (p0 * 4096) ||| pteV)) (p0 * 4096) v

section
variable {m : Mem} {p2 p1 p0 v : Nat}

theorem slots_onePath (hp1 : p1 * 4096 < 2 ^ 64) (hp0 : p0 * 4096 < 2 ^ 64) (hv : v < 2 ^ 64) :
    slots (onePath m p2 p1 p0 v) =
      Radix.set (Radix.set (Radix.set (slots m) p2 0 (page2pte (p1 * 4096) ||| pteV)) p1 0
        (page2pte (p0 * 4096) ||| pteV)) p0 0 v := by
  have hwrite : ∀ (m : Mem) (pn w : Nat), w < 2 ^ 64 →
      slots (writeWord m (pn * 4096) w) = Radix.set (slots m) pn 0 w := by
    intro m pn w hw
    have hslots := slots_writeWord m pn w 0
    have haddr : pn * 4096 + 8 * (0 : Fin 512).val = pn * 4096 := Nat.add_zero _
    rw [haddr, Nat.mod_eq_of_lt hw] at hslots
    exact hslots
  unfold onePath
  rw [hwrite _ _ _ hv, hwrite _ _ _ (page2pte_or_lt hp0 (by decide)),
    hwrite _ _ _ (page2pte_or_lt hp1 (by decide))]

theorem onePath_other (hp1 : p1 * 4096 < 2 ^ 64) (hp0 : p0 * 4096 < 2 ^ 64) (hv : v < 2 ^ 64)
    {pn : Nat} (h : pn ∉ [p2, p1, p0]) (i : Fin 512) :
    slots (onePath m p2 p1 p0 v) pn i = slots m pn i := by
  simp only [List.mem_cons, List.not_mem_nil, or_false, not_or] at h
  rw [slots_onePath hp1 hp0 hv, Radix.set_other (fun e => absurd e h.2.2),
    Radix.set_other (fun e => absurd e h.2.1), Radix.set_other (fun e => absurd e h.1)]

variable (hdistinct : [p2, p1, p0].Nodup) (hp1 : p1 * 4096 < 2 ^ 64) (hp0 : p0 * 4096 < 2 ^ 64)
  (hv : v < 2 ^ 64) (hzero : ∀ pn ∈ [p2, p1, p0], ∀ i, slots m pn i = 0)
include hdistinct hp1 hp0 hv hzero

/-- Where the three pages were empty. -/
theorem onePath_path : OnePath (onePath m p2 p1 p0 v) p2 p1 p0 0 0 := by
  have hne := hdistinct
  simp only [List.nodup_cons, List.mem_cons, List.not_mem_nil, or_false, not_or] at hne
  obtain ⟨⟨h21, h20⟩, h10, -⟩ := hne
  have h2 := hzero p2 (List.mem_cons_self ..)
  have h1 := hzero p1 (List.mem_cons_of_mem _ (List.mem_cons_self ..))
  refine ⟨hdistinct, ⟨hp1, hp0⟩, fun i => ?_, fun i => ?_⟩
  · rw [slots_onePath hp1 hp0 hv, Radix.set_other (fun e => absurd e h20),
      Radix.set_other (fun e => absurd e h21)]
    by_cases hi : i = 0
    · rw [if_pos hi, hi, Radix.set_self]
    · rw [if_neg hi, Radix.set_other (fun _ => hi), h2]
  · rw [slots_onePath hp1 hp0 hv, Radix.set_other (fun e => absurd e h10)]
    by_cases hi : i = 0
    · rw [if_pos hi, hi, Radix.set_self]
    · rw [if_neg hi, Radix.set_other (fun _ => hi), Radix.set_other (fun e => absurd e.symm h21), h1]

/-- Page `0` has the entry, and no other page has one. -/
theorem onePath_pteOf {va : Nat} (hva : va < 2 ^ 39) :
    pteOf (onePath m p2 p1 p0 v) (p2 * 4096) va = if va < 4096 then v else 0 := by
  have hpath := onePath_path hdistinct hp1 hp0 hv hzero
  have hne := hdistinct
  simp only [List.nodup_cons, List.mem_cons, List.not_mem_nil, or_false, not_or] at hne
  obtain ⟨⟨h21, h20⟩, h10, -⟩ := hne
  have hlow : ∀ i, slots (onePath m p2 p1 p0 v) p0 i = if i = 0 then v else 0 := by
    intro i
    rw [slots_onePath hp1 hp0 hv]
    by_cases hi : i = 0
    · rw [if_pos hi, hi, Radix.set_self]
    · rw [if_neg hi, Radix.set_other (fun _ => hi), Radix.set_other (fun _ => hi),
        Radix.set_other (fun _ => hi),
        hzero p0 (List.mem_cons_of_mem _ (List.mem_cons_of_mem _ (List.mem_cons_self ..)))]
  by_cases hinner : idx 2 va = 0 ∧ idx 1 va = 0
  · rw [hpath.pteOf_path hinner.1 hinner.2, hlow]
    by_cases h0 : idx 0 va = 0
    · have hpage := page_eq_of_px hva (by decide : 0 < 2 ^ 39)
        (Fin.val_eq_of_eq (hinner.1.trans (idx_low (by decide : 0 < 4096) 2).symm))
        (Fin.val_eq_of_eq (hinner.2.trans (idx_low (by decide : 0 < 4096) 1).symm))
        (Fin.val_eq_of_eq (h0.trans (idx_low (by decide : 0 < 4096) 0).symm))
      rw [if_pos h0, if_pos (by omega)]
    · rw [if_neg h0, if_neg fun hlt => h0 (idx_low hlt 0)]
  · rw [if_neg fun hlt => hinner ⟨idx_low hlt 2, idx_low hlt 1⟩]
    refine pteOf_of_none (Option.eq_none_iff_forall_ne_some.mpr fun pn hleaf => hinner ?_)
    rw [leafTable, Nat.mul_div_cancel p2 (by decide), inner,
      hpath.reach_iff (by simp : [idx 2 va, idx 1 va].length ≤ 2)] at hleaf
    obtain ⟨h, -⟩ | ⟨h, -⟩ | ⟨h, -⟩ := hleaf
    · exact absurd h (List.cons_ne_nil _ _)
    · exact absurd (List.cons.inj h).2 (List.cons_ne_nil _ _)
    · exact ⟨(List.cons.inj h).1, (List.cons.inj (List.cons.inj h).2).1⟩

end

end PageFaultOS
