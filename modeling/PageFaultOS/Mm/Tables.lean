import Mathlib.Tactic
import PageFaultOS.Mm.PageTable

/-! Several page tables in one memory. `Tables` is what the page-table code relies on:
the free pages and page `0` are in none of the tables, and each page of the tables is used
at one level. `Kept` is what it leaves: entries that are not `0` stay as they are. -/

namespace PageFaultOS
open Exec Exec.Comp ByteMem

def rootPages (roots : List Nat) : Set Nat := {p | ∃ root ∈ roots, root / 4096 = p}

theorem mem_rootPages {roots : List Nat} {root : Nat} (h : root ∈ roots) :
    root / 4096 ∈ rootPages roots := ⟨root, h, rfl⟩

structure Tables (roots : List Nat) (σ : MemState) (l : List Nat) : Prop where
  aligned : ∀ root ∈ roots, root % 4096 = 0
  free : FreeList σ l
  fresh : ∀ root ∈ roots, ∀ q ∈ l, NotInTable σ.mem root q
  nonzero : ∀ root ∈ roots, NotInTable σ.mem root 0
  leveled : Radix.Leveled child (slots σ.mem) (rootPages roots) 2

/-- What a run of page-table code from `σ` with free pages `l` leaves. -/
structure Kept (roots : List Nat) (σ : MemState) (l : List Nat) (σ' : MemState)
    (l' : List Nat) : Prop where
  tables : Tables roots σ' l'
  sub : l' <:+ l
  entries : ∀ root ∈ roots, ∀ va, pteOf σ.mem root va ≠ 0 →
    pteOf σ'.mem root va = pteOf σ.mem root va
  outside : ∀ q, q % 4096 = 0 → q ∉ l → (∀ root ∈ roots, NotInTable σ.mem root q) →
    ∀ root ∈ roots, NotInTable σ'.mem root q
  grown : ∀ root ∈ roots, ∀ q, NotInTable σ'.mem root q → NotInTable σ.mem root q
  taken : ∀ q ∈ l, q ∈ l' ∨ ∃ root ∈ roots, ¬ NotInTable σ'.mem root q
  kernelEnd : σ'.kernelEnd = σ.kernelEnd

/-- No entry changes: what `walk` leaves. -/
def SameEntries (roots : List Nat) (σ σ' : MemState) : Prop :=
  ∀ root ∈ roots, ∀ va, pteOf σ'.mem root va = pteOf σ.mem root va

variable {roots : List Nat} {σ σ' : MemState} {l l' : List Nat}

theorem Kept.refl (h : Tables roots σ l) : Kept roots σ l σ l :=
  ⟨h, List.suffix_rfl, fun _ _ _ _ => rfl, fun _ _ _ hq => hq, fun _ _ _ hq => hq,
    fun _ hq => Or.inl hq, rfl⟩

theorem Kept.trans {σ'' : MemState} {l'' : List Nat} (h : Kept roots σ l σ' l')
    (h' : Kept roots σ' l' σ'' l'') : Kept roots σ l σ'' l'' := by
  refine ⟨h'.tables, h'.sub.trans h.sub, fun root hroot va hne => ?_,
    fun q hq hql hnot => ?_, fun root hroot q hq => h.grown root hroot q (h'.grown root hroot q hq),
    fun q hq => ?_, h'.kernelEnd.trans h.kernelEnd⟩
  · have h1 := h.entries root hroot va hne
    rw [← h1] at hne
    exact (h'.entries root hroot va hne).trans h1
  · exact h'.outside q hq (fun hql' => hql (h.sub.mem hql')) (h.outside q hq hql hnot)
  · rcases h.taken q hq with hq' | ⟨root, hroot, hin⟩
    · exact h'.taken q hq'
    · exact Or.inr ⟨root, hroot, fun hnot => hin (h'.grown root hroot q hnot)⟩

/-- A change that spares the pages of the tables. -/
theorem Tables.same (h : Tables roots σ l)
    (hsame : ∀ root ∈ roots, TableSame σ.mem σ'.mem root) (hfree : FreeList σ' l')
    (hfresh : ∀ root ∈ roots, ∀ q ∈ l', NotInTable σ.mem root q) : Tables roots σ' l' := by
  refine ⟨h.aligned, hfree, fun root hroot q hq =>
    (hsame root hroot).notIn_iff.mpr (hfresh root hroot q hq), fun root hroot =>
    (hsame root hroot).notIn_iff.mpr (h.nonzero root hroot), ?_⟩
  rintro _ ⟨r1, h1, rfl⟩ _ ⟨r2, h2, rfl⟩ is js p his hjs hr1 hr2
  rw [(hsame r1 h1).reach is his] at hr1
  rw [(hsame r2 h2).reach js hjs] at hr2
  exact h.leveled _ ⟨r1, h1, rfl⟩ _ ⟨r2, h2, rfl⟩ is js p his hjs hr1 hr2

/-- A change within one page that is in none of the tables. -/
theorem Tables.change {page : Nat} (h : Tables roots σ l) (hpage : page % 4096 = 0)
    (hnot : ∀ root ∈ roots, NotInTable σ.mem root page)
    (hm : ∀ b, b < page ∨ page + 4096 ≤ b → σ'.mem b = σ.mem b) (hfree : FreeList σ' l')
    (hsub : ∀ q ∈ l', q ∈ l ∨ q = page) :
    Tables roots σ' l' ∧ ∀ root ∈ roots, TableSame σ.mem σ'.mem root := by
  have hsame : ∀ root ∈ roots, TableSame σ.mem σ'.mem root := fun root hroot =>
    TableSame.change (fun _ _ _ _ _ => rfl) hpage (hnot root hroot) hm
  refine ⟨h.same hsame hfree fun root hroot q hq => ?_, hsame⟩
  rcases hsub q hq with hql | rfl
  · exact h.fresh root hroot q hql
  · exact hnot root hroot

/-- Roots without entries. -/
theorem tables_of_zero (hal : ∀ root ∈ roots, root % 4096 = 0) (hfree : FreeList σ l)
    (hnot : ∀ root ∈ roots, root ∉ l) (hne : ∀ root ∈ roots, root ≠ 0)
    (hz : ∀ root ∈ roots, ∀ i, slots σ.mem (root / 4096) i = 0) :
    Tables roots σ l := by
  have hnil : ∀ root ∈ roots, ∀ is pn,
      Radix.reach child (slots σ.mem) (root / 4096) is = some pn → is = [] := by
    intro root hroot is pn hr
    cases is with
    | nil => rfl
    | cons i is =>
      have hc : child 0 = none := by decide
      rw [Radix.reach_cons, hz root hroot, hc] at hr
      cases hr
  have hother : ∀ root ∈ roots, ∀ q, q % 4096 = 0 → q ≠ root → NotInTable σ.mem root q :=
    fun root hroot => (pageTable_of_zero σ.mem root (hal root hroot) (hz root hroot)).2.1
  refine ⟨hal, hfree, fun root hroot q hq => ?_, fun root hroot =>
    hother root hroot 0 rfl (hne root hroot).symm, ?_⟩
  · exact hother root hroot q (hfree.managed q hq).aligned fun e => hnot root hroot (e ▸ hq)
  · rintro _ ⟨r1, h1, rfl⟩ _ ⟨r2, h2, rfl⟩ is js p his hjs hr1 hr2
    rw [hnil r1 h1 is p hr1, hnil r2 h2 js p hr2]

/-! ## `walk` -/

section
variable {root pn : Nat} {is : List (Fin 512)} (h : Tables roots σ l) (hroot : root ∈ roots)
include h hroot

/-- Hanging the first free page into an empty slot of an inner table. -/
theorem kept_linked {q va level : Nat} (hl : l = q :: l')
    (hreach : Radix.reach child (slots σ.mem) (root / 4096) is = some pn) (his : is.length < 2)
    (hempty : child (slots σ.mem pn (idx level va)) = none)
    (hfree : FreeList (linked σ q pn level va) l') :
    Kept roots σ l (linked σ q pn level va) l' ∧
      SameEntries roots σ (linked σ q pn level va) := by
  have hql : q ∈ l := hl ▸ List.mem_cons_self ..
  have hq := h.free.managed q hql
  have hqlt : q < 2 ^ 64 := Nat.lt_of_le_of_lt (by omega) hq.lt
  have hslots := slots_linked σ pn level va hq.aligned hqlt
  have hv : child (page2pte q ||| pteV) = some (q / 4096) := child_table_entry hq.aligned hqlt
  have hz : child 0 = none := by decide
  have hqf : ∀ p ∈ rootPages roots, Radix.Fresh child (slots σ.mem) p 2 (q / 4096) := by
    rintro _ ⟨r, hr, rfl⟩
    exact h.fresh r hr q hql
  have hpq : pn ≠ q / 4096 := by
    rintro rfl
    exact hqf _ (mem_rootPages hroot) is (by omega) hreach
  have hfresh : ∀ r ∈ roots, ∀ q', q' % 4096 = 0 → q' ≠ q → NotInTable σ.mem r q' →
      NotInTable (linked σ q pn level va).mem r q' := by
    intro r hr q' hq' hne hnot
    unfold NotInTable at hnot ⊢
    rw [hslots]
    refine Radix.fresh_link hqf hpq hv hz (mem_rootPages hr) hnot ?_
    have := hq.aligned
    omega
  have hsame : SameEntries roots σ (linked σ q pn level va) := by
    intro r hr vb
    have hback := fun rn => Radix.reach_link_inv (i := idx level va) hqf hpq hv hz
      (mem_rootPages hr) (inner vb) (le_refl 2) (r := rn)
    rw [← hslots] at hback
    cases hold : leafTable σ.mem r vb with
    | none =>
      rw [pteOf_of_none hold]
      cases hnew : leafTable (linked σ q pn level va).mem r vb with
      | none => exact pteOf_of_none hnew
      | some rn =>
        rcases hback rn hnew with ⟨rfl, _⟩ | hr'
        · rw [pteOf_of_leafTable hnew, hslots, Radix.link,
            Radix.set_other (fun e => absurd e.symm hpq), Radix.clear_self]
        · rw [leafTable, hr'] at hold
          cases hold
    | some rn =>
      have hnew : leafTable (linked σ q pn level va).mem r vb = some rn := by
        rw [leafTable, hslots]
        exact Radix.reach_link_old hempty hqf (mem_rootPages hr) _ (le_refl 2) hold
      have hrq : rn ≠ q / 4096 := fun e => hqf _ (mem_rootPages hr) _ (le_refl 2) (e ▸ hold)
      have hrp : rn ≠ pn := by
        rintro rfl
        have := h.leveled _ (mem_rootPages hr) _ (mem_rootPages hroot) _ _ _ (le_refl 2)
          (by omega) hold hreach
        rw [← this] at his
        exact absurd his (by simp [inner])
      rw [pteOf_of_leafTable hold, pteOf_of_leafTable hnew, hslots, Radix.link,
        Radix.set_other (fun e => absurd e hrp), Radix.clear_other hrq]
  refine ⟨⟨⟨h.aligned, hfree, fun r hr q' hq' => ?_, fun r hr =>
    hfresh r hr 0 rfl (h.free.ne_zero hql).symm (h.nonzero r hr), ?_⟩, ⟨[q], hl ▸ rfl⟩,
    fun r hr va _ => hsame r hr va, fun q' hq' hql' hnot r hr => ?_, fun r hr q' hnot => ?_,
    fun q' hq' => ?_, rfl⟩, hsame⟩
  · have hq'l : q' ∈ l := hl ▸ List.mem_cons_of_mem _ hq'
    have hnodup := h.free.nodup
    rw [hl, List.nodup_cons] at hnodup
    have hne : q' ≠ q := fun e => hnodup.1 (e ▸ hq')
    exact hfresh r hr q' (h.free.managed q' hq'l).aligned hne (h.fresh r hr q' hq'l)
  · rw [hslots]
    exact Radix.leveled_link h.leveled hqf hpq hv hz
  · exact hfresh r hr q' hq' (fun e => hql' (e ▸ hql)) (hnot r hr)
  · intro js hjs hjr
    refine hnot js hjs ?_
    rw [hslots]
    exact Radix.reach_link_old hempty hqf (mem_rootPages hr) js hjs hjr
  · rw [hl, List.mem_cons] at hq'
    rcases hq' with rfl | hq'
    · refine Or.inr ⟨root, hroot, fun hnot => hnot (is ++ [idx level va]) ?_ ?_⟩
      · rw [List.length_append, List.length_singleton]
        omega
      · rw [hslots, Radix.reach_append,
          Radix.reach_link_old hempty hqf (mem_rootPages hroot) is (by omega) hreach,
          Option.bind_some, Radix.reach_cons, Radix.link, Radix.set_self, hv]
        rfl
    · exact Or.inl hq'

/-- One level of `walk`: without a table and without a free page it stops, else it goes
down, to a table of zeros where there was none. -/
theorem walkLevel_tables (va level : Nat)
    (hreach : Radix.reach child (slots σ.mem) (root / 4096) is = some pn) (his : is.length < 2) :
    ∃ r σ' l', walkLevel (pn * 4096) va true level σ = .ok r σ' ∧ Kept roots σ l σ' l' ∧
      SameEntries roots σ σ' ∧
      ((r = none ∧ child (slots σ.mem pn (idx level va)) = none ∧ l = []) ∨
        ∃ qn, r = some (qn * 4096) ∧
          Radix.reach child (slots σ'.mem) (root / 4096) (is ++ [idx level va]) = some qn ∧
          ((child (slots σ.mem pn (idx level va)) = some qn ∧ l' = l ∧ σ' = σ) ∨
            (child (slots σ.mem pn (idx level va)) = none ∧ l = qn * 4096 :: l' ∧
              ∀ i, slots σ'.mem qn i = 0))) := by
  have hpn : ∀ q ∈ l, q / 4096 ≠ pn := fun q hq e =>
    h.fresh root hroot q hq is (by omega) (e ▸ hreach)
  rcases walkLevel_cases h.free hpn va level with
    ⟨hval, hrun⟩ | ⟨hval, hl, hrun⟩ | ⟨hval, q, l', hl, hrun, hfree'⟩
  · have hchild : child (slots σ.mem pn (idx level va)) =
        some (pte2page (slots σ.mem pn (idx level va)) / 4096) := by rw [child, if_pos hval]
    refine ⟨_, σ, l, hrun, Kept.refl h, fun _ _ _ => rfl, Or.inr ⟨_, ?_, ?_,
      Or.inl ⟨hchild, rfl, rfl⟩⟩⟩
    · rw [page_mul (pte2page_aligned _)]
    · rw [Radix.reach_append, hreach, Option.bind_some, Radix.reach_cons, hchild]
      rfl
  · have hchild : child (slots σ.mem pn (idx level va)) = none := by simp [child, hval]
    exact ⟨none, σ, l, hrun, Kept.refl h, fun _ _ _ => rfl, Or.inl ⟨rfl, hchild, hl⟩⟩
  · have hchild : child (slots σ.mem pn (idx level va)) = none := by simp [child, hval]
    have hql : q ∈ l := hl ▸ List.mem_cons_self ..
    have hq := h.free.managed q hql
    have hqlt : q < 2 ^ 64 := Nat.lt_of_le_of_lt (by omega) hq.lt
    have hqp : q / 4096 * 4096 = q := page_mul hq.aligned
    have hslots := slots_linked σ pn level va hq.aligned hqlt
    obtain ⟨hkept, hsame⟩ := kept_linked h hroot hl hreach his hchild hfree'
    have hpq : pn ≠ q / 4096 := fun e => hpn q hql e.symm
    refine ⟨some q, _, l', hrun, hkept, hsame, Or.inr ⟨q / 4096, ?_, ?_,
      Or.inr ⟨hchild, ?_, fun i => ?_⟩⟩⟩
    · rw [hqp]
    · have hpre : Radix.reach child (slots (linked σ q pn level va).mem) (root / 4096) is =
          some pn := by
        rw [hslots]
        have hqf : ∀ p ∈ rootPages roots, Radix.Fresh child (slots σ.mem) p 2 (q / 4096) := by
          rintro _ ⟨r, hr, rfl⟩
          exact h.fresh r hr q hql
        exact Radix.reach_link_old hchild hqf (mem_rootPages hroot) is (by omega) hreach
      rw [Radix.reach_append, hpre, Option.bind_some, Radix.reach_cons, hslots, Radix.link,
        Radix.set_self, child_table_entry hq.aligned hqlt]
      rfl
    · rw [hqp, hl]
    · rw [hslots, Radix.link, Radix.set_other (fun e => absurd e.symm hpq), Radix.clear_self]

end

/-- The number of tables that the path of `va` lacks. -/
def missing (m : Mem) (root va : Nat) : Nat :=
  match child (slots m (root / 4096) (idx 2 va)) with
  | none => 2
  | some pn =>
    match child (slots m pn (idx 1 va)) with
    | none => 1
    | some _ => 0

theorem TableSame.missing {m m' : Mem} {root : Nat} (h : TableSame m m' root) (va : Nat) :
    missing m' root va = missing m root va := by
  rw [PageFaultOS.missing, PageFaultOS.missing, h [] (root / 4096) (by decide) rfl]
  cases hc : child (slots m (root / 4096) (idx 2 va)) with
  | none => rfl
  | some pn =>
    have hpn : Radix.reach child (slots m) (root / 4096) [idx 2 va] = some pn := by
      rw [Radix.reach_cons, hc]
      rfl
    simp only [h [idx 2 va] pn (by simp) hpn]

/-- `walk` with `alloc` set takes the missing tables from the free list. It returns `NULL`
when there are too few free pages, and the address of the entry of `va` otherwise. -/
theorem walk_tables {root : Nat} (h : Tables roots σ l) (hroot : root ∈ roots) {va : Nat}
    (hva : va < maxva) :
    ∃ r σ' l', walk root va true σ = .ok r σ' ∧ Kept roots σ l σ' l' ∧
      SameEntries roots σ σ' ∧
      ((r = 0 ∧ l.length < missing σ.mem root va) ∨
        (missing σ.mem root va ≤ l.length ∧ ∃ pn, leafTable σ'.mem root va = some pn ∧
          r = pn * 4096 + 8 * px 0 va ∧ r ≠ 0)) := by
  have hnot : ¬ maxva ≤ va := by omega
  have hself : Radix.reach child (slots σ.mem) (root / 4096) [] = some (root / 4096) := rfl
  obtain ⟨r2, σ2, l2, hw2, hk2, hs2, hr2⟩ := walkLevel_tables h hroot va 2 hself (by decide)
  rw [page_mul (h.aligned root hroot)] at hw2
  rcases hr2 with ⟨rfl, hc2, hl⟩ | ⟨q2, rfl, hq2, hstep2⟩
  · refine ⟨0, σ2, l2, ?_, hk2, hs2, Or.inl ⟨rfl, ?_⟩⟩
    · simp only [walk, hnot, if_false]
      rw [bind_ok hw2]
      rfl
    · simp [missing, hc2, hl]
  · obtain ⟨r1, σ1, l1, hw1, hk1, hs1, hr1⟩ :=
      walkLevel_tables hk2.tables hroot va 1 hq2 (by simp)
    have hwalk : walk root va true σ = (match r1 with
        | none => (pure 0 : MemComp Nat)
        | some table0 => pure (table0 + 8 * px 0 va)) σ1 := by
      simp only [walk, hnot, if_false]
      rw [bind_ok hw2]
      exact bind_ok hw1 _
    have hsame : SameEntries roots σ σ1 := fun r hr va =>
      (hs1 r hr va).trans (hs2 r hr va)
    rcases hr1 with ⟨rfl, hc1, hl2⟩ | ⟨q1, rfl, hq1, hstep1⟩
    · refine ⟨0, σ1, l1, hwalk, hk2.trans hk1, hsame, Or.inl ⟨rfl, ?_⟩⟩
      rcases hstep2 with ⟨hc2, hl', rfl⟩ | ⟨hc2, hl', _⟩
      · simp [missing, hc2, hc1, ← hl', hl2]
      · simp [missing, hc2, hl', hl2]
    · refine ⟨_, σ1, l1, hwalk, hk2.trans hk1, hsame, Or.inr ⟨?_, q1, hq1, rfl, fun h0 => ?_⟩⟩
      · rcases hstep2 with ⟨hc2, hl2, rfl⟩ | ⟨hc2, hl2, hzero⟩ <;>
          rcases hstep1 with ⟨hc1, hl1, _⟩ | ⟨hc1, hl1, _⟩
        · simp only [missing, hc2, hc1, Nat.zero_le]
        · simp only [missing, hc2, hc1, ← hl2, hl1, List.length_cons]
          omega
        · rw [hzero] at hc1
          cases hc1
        · simp only [missing, hc2, hl2, hl1, List.length_cons]
          omega
      · have hq10 : q1 = 0 / 4096 := by omega
        exact hk1.tables.nonzero root hroot (inner va) (le_refl 2) (hq10 ▸ hq1)

/-! ## Storing an entry -/

/-- Storing an entry over a `0` in the last table of `va`. -/
theorem kept_setLeaf {root pn v : Nat} (h : Tables roots σ l) (hroot : root ∈ roots) {va : Nat}
    (hleaf : leafTable σ.mem root va = some pn) (hzero : slots σ.mem pn (idx 0 va) = 0)
    (hv : v < 2 ^ 64) :
    let σ' := { σ with mem := writeWord σ.mem (pn * 4096 + 8 * px 0 va) v }
    Kept roots σ l σ' l ∧ pteOf σ'.mem root va = v := by
  intro σ'
  have hslots : slots σ'.mem = Radix.set (slots σ.mem) pn (idx 0 va) v := by
    have hset := slots_writeWord σ.mem pn v (idx 0 va)
    rw [Nat.mod_eq_of_lt hv] at hset
    exact hset
  have hreach : ∀ r ∈ roots, ∀ is, is.length ≤ 2 →
      Radix.reach child (slots σ'.mem) (r / 4096) is =
        Radix.reach child (slots σ.mem) (r / 4096) is := by
    intro r hr is his
    rw [hslots]
    exact Radix.reach_set_leaf h.leveled (mem_rootPages hroot) hleaf rfl (mem_rootPages hr) is his
  have hleaf' : ∀ r ∈ roots, ∀ vb, leafTable σ'.mem r vb = leafTable σ.mem r vb :=
    fun r hr vb => hreach r hr (inner vb) (le_refl 2)
  have hnotin : ∀ r ∈ roots, ∀ q, NotInTable σ'.mem r q ↔ NotInTable σ.mem r q := by
    intro r hr q
    constructor <;> intro hq is his hr'
    · exact hq is his ((hreach r hr is his).trans hr')
    · exact hq is his ((hreach r hr is his).symm.trans hr')
  have hfree : FreeList σ' l := freeList_setLeaf h.free (h.fresh root hroot) hleaf v
  refine ⟨⟨⟨h.aligned, hfree, fun r hr q hq => (hnotin r hr q).mpr (h.fresh r hr q hq),
    fun r hr => (hnotin r hr 0).mpr (h.nonzero r hr), ?_⟩,
    List.suffix_rfl, fun r hr vb hne => ?_,
    fun q _ _ hnot r hr => (hnotin r hr q).mpr (hnot r hr), fun r hr q => (hnotin r hr q).mp,
    fun q hq => Or.inl hq, rfl⟩, ?_⟩
  · rw [hslots]
    exact Radix.leveled_set_leaf h.leveled (mem_rootPages hroot) hleaf rfl
  · cases hold : leafTable σ.mem r vb with
    | none => rw [pteOf_of_none hold, pteOf_of_none ((hleaf' r hr vb).trans hold)]
    | some rn =>
      rw [pteOf_of_leafTable hold] at hne ⊢
      rw [pteOf_of_leafTable ((hleaf' r hr vb).trans hold), hslots]
      apply Radix.set_other
      rintro rfl hidx
      exact hne (hidx ▸ hzero)
  · rw [pteOf_of_leafTable ((hleaf' root hroot va).trans hleaf), hslots, Radix.set_self]

/-! ## `MapPages` and `vmunmap` -/

/-- A round of `MapPages` after its `walk`. -/
theorem mapPagesRound_walked {root last perm temp pa r : Nat} {s : MemState}
    (hwalk : walk root temp true σ = .ok r s) :
    mapPagesRound root last perm (temp, pa) σ =
      if r = 0 then .ok (.inr (-1)) s
      else if readWord s.mem r ≠ 0 then .fault (.panic "ramap") s
      else .ok (if temp = last then .inr 0 else .inl (u64 (temp + pgsize), u64 (pa + pgsize)))
        { s with mem := writeWord s.mem r (page2pte pa ||| perm ||| pteV) } := by
  unfold mapPagesRound
  simp only
  rw [bind_ok hwalk]
  by_cases hr : r = 0
  · rw [if_pos hr, if_pos hr]
    rfl
  · rw [if_neg hr, if_neg hr, read_bind]
    by_cases hentry : readWord s.mem r ≠ 0
    · rw [if_pos hentry, if_pos hentry]
      rfl
    · rw [if_neg hentry, if_neg hentry, setWord, modify_bind]
      by_cases hlast : temp = last
      · rw [if_pos hlast, if_pos hlast]
        rfl
      · rw [if_neg hlast, if_neg hlast]
        rfl

section
variable {root perm : Nat} (hroot : root ∈ roots) (hperm : perm < 1024)
include hroot hperm

/-- One round of `MapPages` that returns. With the tables that it needs it has stored the
entry of its page. -/
theorem mapPagesRound_tables (h : Tables roots σ l) (last temp pa : Nat) (hpa : pa < 2 ^ 64) :
    (mapPagesRound root last perm (temp, pa) σ).Holds
      (fun r σ' => (∀ p, r = .inl p → p.2 < 2 ^ 64) ∧ ∃ l', Kept roots σ l σ' l' ∧
        (missing σ.mem root temp ≤ l.length →
          pteOf σ'.mem root temp = page2pte pa ||| perm ||| pteV))
      (fun _ _ => True) := by
  by_cases htemp : temp < maxva
  · obtain ⟨r, σ1, l1, hwalk, hkept, hsame, hr⟩ := walk_tables h hroot htemp
    by_cases hr0 : r = 0
    · have hshort : ¬ missing σ.mem root temp ≤ l.length := by
        rcases hr with ⟨_, hlt⟩ | ⟨_, pn, _, _, hne⟩
        · omega
        · exact absurd hr0 hne
      have hrun : mapPagesRound root last perm (temp, pa) σ = .ok (.inr (-1)) σ1 := by
        simp only [mapPagesRound, bind_ok hwalk, hr0, if_true, pure_apply]
      rw [hrun]
      exact ⟨(fun p hp => by cases hp), l1, hkept, fun hlen => absurd hlen hshort⟩
    · obtain ⟨pn, hleaf, rfl⟩ : ∃ pn, leafTable σ1.mem root temp = some pn ∧
          r = pn * 4096 + 8 * px 0 temp := by
        rcases hr with ⟨h0, _⟩ | ⟨_, pn, hleaf, hrpn, _⟩
        · exact absurd h0 hr0
        · exact ⟨pn, hleaf, hrpn⟩
      have hword : readWord σ1.mem (pn * 4096 + 8 * px 0 temp) = slots σ1.mem pn (idx 0 temp) :=
        rfl
      by_cases hzero : slots σ1.mem pn (idx 0 temp) = 0
      · have hv : page2pte pa ||| perm ||| pteV < 2 ^ 64 := by
          rw [Nat.or_assoc]
          exact page2pte_or_lt hpa (or_lt_1024 hperm (by decide))
        obtain ⟨hset, hentry⟩ := kept_setLeaf hkept.tables hroot hleaf hzero hv
        by_cases hlast : temp = last
        · subst hlast
          have hrun : mapPagesRound root temp perm (temp, pa) σ = .ok (.inr 0)
              { σ1 with mem := writeWord σ1.mem (pn * 4096 + 8 * px 0 temp)
                          (page2pte pa ||| perm ||| pteV) } := by
            unfold mapPagesRound
            simp only
            rw [bind_ok hwalk]
            simp only [hr0, if_false, read_bind, hword, hzero, ne_eq, not_true_eq_false, setWord,
              modify_bind, if_true, pure_apply]
          rw [hrun]
          exact ⟨(fun p hp => by cases hp), l1, hkept.trans hset, fun _ => hentry⟩
        · have hrun : mapPagesRound root last perm (temp, pa) σ =
              .ok (.inl (u64 (temp + pgsize), u64 (pa + pgsize)))
              { σ1 with mem := writeWord σ1.mem (pn * 4096 + 8 * px 0 temp)
                          (page2pte pa ||| perm ||| pteV) } := by
            unfold mapPagesRound
            simp only
            rw [bind_ok hwalk]
            simp only [hr0, if_false, read_bind, hword, hzero, ne_eq, not_true_eq_false, setWord,
              modify_bind, hlast, pure_apply]
          rw [hrun]
          refine ⟨fun p hp => ?_, l1, hkept.trans hset, fun _ => hentry⟩
          rw [← Sum.inl.inj hp]
          exact u64_lt _
      · have hrun : mapPagesRound root last perm (temp, pa) σ = .fault (.panic "ramap") σ1 := by
          unfold mapPagesRound
          simp only
          rw [bind_ok hwalk]
          simp only [hr0, if_false, read_bind, hword, hzero, ne_eq, not_false_eq_true, if_true,
            panic_apply]
        rw [hrun]
        trivial
  · have hwalk : walk root temp true σ = .fault (.panic "get pagetable entry") σ := by
      simp [walk, Nat.le_of_not_lt htemp]
    have hrun : mapPagesRound root last perm (temp, pa) σ =
        .fault (.panic "get pagetable entry") σ := by
      simp only [mapPagesRound, bind_fault hwalk]
    rw [hrun]
    trivial

theorem mapLoop_tables (h : Tables roots σ l) (last n : Nat) {p : Nat × Nat} (hp : p.2 < 2 ^ 64) :
    (loop (mapPagesRound root last perm) n p σ).Holds
      (fun _ σ' => ∃ l', Kept roots σ l σ' l') (fun _ _ => True) := by
  refine Res.holds_loop
    (I := fun p s => p.2 < 2 ^ 64 ∧ ∃ l', Kept roots σ l s l') ?_ (fun _ _ _ => trivial) n p σ
    ⟨hp, l, Kept.refl h⟩
  rintro ⟨temp, pa⟩ s ⟨hpa, l1, hkept⟩
  refine (mapPagesRound_tables hroot hperm hkept.tables last temp pa hpa).mono ?_ fun _ _ h => h
  rintro (p' | r) s' ⟨hp', l2, hkept', _⟩
  · exact ⟨hp' p' rfl, l2, hkept.trans hkept'⟩
  · exact ⟨l2, hkept.trans hkept'⟩

/-- A `MapPages` that returns changes no entry that is not `0`. -/
theorem mapPages_tables (h : Tables roots σ l) (vaddr size : Nat) {paddr : Nat}
    (hpaddr : paddr < 2 ^ 64) :
    (mapPages root vaddr paddr size perm σ).Holds
      (fun _ σ' => ∃ l', Kept roots σ l σ' l') (fun _ _ => True) :=
  mapLoop_tables hroot hperm h _ _ hpaddr

/-- With the tables for the first page at hand, a `MapPages` that returns has mapped it. -/
theorem mapPages_first (h : Tables roots σ l) (vaddr size : Nat) {paddr : Nat}
    (hpaddr : paddr < 2 ^ 64) (hlen : missing σ.mem root (pgrounddown vaddr) ≤ l.length) :
    (mapPages root vaddr paddr size perm σ).Holds
      (fun _ σ' => ∃ l', Kept roots σ l σ' l' ∧
        pteOf σ'.mem root (pgrounddown vaddr) = page2pte paddr ||| perm ||| pteV)
      (fun _ _ => True) := by
  have hne : page2pte paddr ||| perm ||| pteV ≠ 0 := by
    intro h0
    exact absurd (Nat.or_eq_zero_iff.mp h0).2 (by decide)
  unfold mapPages
  rw [pageRounds, loop_succ]
  refine Res.holds_bind
    (mapPagesRound_tables hroot hperm h _ (pgrounddown vaddr) paddr hpaddr) ?_
  rintro (p | r) σ1 ⟨hp, l1, hkept, hentry⟩
  · refine (mapLoop_tables hroot hperm hkept.tables _ _ (hp p rfl)).mono ?_ fun _ _ h => h
    rintro r σ2 ⟨l2, hkept2⟩
    refine ⟨l2, hkept.trans hkept2, ?_⟩
    rw [hkept2.entries root hroot _ (by rw [hentry hlen]; exact hne), hentry hlen]
  · exact ⟨l1, hkept, hentry hlen⟩

omit hperm in
/-- Without them it returns `-1` and has changed no entry. -/
theorem mapPages_fails (h : Tables roots σ l) (vaddr paddr size perm : Nat)
    (hva : pgrounddown vaddr < maxva)
    (hlen : l.length < missing σ.mem root (pgrounddown vaddr)) :
    ∃ σ' l', mapPages root vaddr paddr size perm σ = .ok (-1) σ' ∧ Kept roots σ l σ' l' ∧
      SameEntries roots σ σ' := by
  obtain ⟨r, σ1, l1, hwalk, hkept, hsame, hr⟩ := walk_tables h hroot hva
  have hr0 : r = 0 := by
    rcases hr with ⟨hr0, _⟩ | ⟨hge, _, _⟩
    · exact hr0
    · omega
  refine ⟨σ1, l1, ?_, hkept, hsame⟩
  unfold mapPages
  rw [pageRounds]
  apply loop_done
  unfold mapPagesRound
  simp only
  rw [bind_ok hwalk]
  simp only [hr0, if_true, pure_apply]

end

/-- `walk` without `alloc` changes nothing. -/
theorem walk_state (root va : Nat) (σ : MemState) :
    (walk root va false σ).Holds (fun _ σ' => σ' = σ) (fun _ _ => True) := by
  have hlevel : ∀ table level s, (walkLevel table va false level s).Holds
      (fun _ s' => s' = s) (fun _ _ => True) := by
    intro table level s
    simp only [walkLevel, read_bind, Bool.false_eq_true, if_false]
    split <;> exact rfl
  unfold walk
  split
  · trivial
  · refine Res.holds_bind (hlevel root 2 σ) ?_
    rintro (_ | table1) s rfl
    · exact rfl
    · refine Res.holds_bind (hlevel table1 1 s) ?_
      rintro (_ | table0) s' rfl
      · exact rfl
      · exact rfl

theorem vmunmapEntry_state (pte : Nat) (doFree : Bool) (temp : Nat) (σ : MemState)
    (hend : 0 < σ.kernelEnd) :
    (vmunmapEntry pte doFree temp σ).Holds (fun _ σ' => σ' = σ) (fun _ _ => True) := by
  by_cases hentry : readWord σ.mem pte = 0
  · have hflags : ¬ pteFlags 0 = pteV := by decide
    have hwrite : writeWord σ.mem pte 0 = σ.mem := by
      rw [← hentry]
      exact writeWord_readWord σ.mem pte
    cases doFree with
    | true =>
      have hfree : kfree (pte2page 0) σ =
          .fault (.panic "kfree: invalid physical address") σ := by
        have h0 : pte2page 0 = 0 := by decide
        simp [kfree, h0, hend]
      have hrun : vmunmapEntry pte true temp σ =
          .fault (.panic "kfree: invalid physical address") σ := by
        unfold vmunmapEntry
        rw [read_bind]
        simp only [hentry, ne_eq, not_true_eq_false, if_false, hflags, if_true]
        exact bind_fault hfree _
      rw [hrun]
      trivial
    | false =>
      have hrun : vmunmapEntry pte false temp σ = .ok (.inl (u64 (temp + pgsize))) σ := by
        unfold vmunmapEntry
        rw [read_bind]
        simp only [hentry, ne_eq, not_true_eq_false, if_false, hflags, Bool.false_eq_true,
          setWord, modify_bind, pure_apply, hwrite]
      rw [hrun]
      rfl
  · have hrun : vmunmapEntry pte doFree temp σ = .fault (.panic "vmumap: invalid") σ := by
      unfold vmunmapEntry
      rw [read_bind]
      simp only [hentry, ne_eq, not_false_eq_true, if_true, panic_apply]
    rw [hrun]
    trivial

/-- One round of a `vmunmap` that returns: the entry was `0`, and there is no page to free
for one. -/
theorem vmunmapRound_state (root stop : Nat) (doFree : Bool) (temp : Nat) (σ : MemState)
    (hend : 0 < σ.kernelEnd) :
    (vmunmapRound root stop doFree temp σ).Holds (fun _ σ' => σ' = σ) (fun _ _ => True) := by
  by_cases hstop : temp < stop
  · have hround : vmunmapRound root stop doFree temp σ = (walk root temp false >>= fun pte =>
        if pte = 0 then Comp.panic "vmunmap: walk" else vmunmapEntry pte doFree temp) σ := by
      simp only [vmunmapRound, hstop, not_true_eq_false, if_false]
    rw [hround]
    refine Res.holds_bind (walk_state root temp σ) ?_
    rintro pte s rfl
    by_cases hpte : pte = 0
    · simp only [hpte, if_true, panic_apply, Res.holds_fault]
    · simp only [hpte, if_false]
      exact vmunmapEntry_state pte doFree temp s hend
  · have hround : vmunmapRound root stop doFree temp σ = .ok (.inr ()) σ := by
      simp only [vmunmapRound, hstop, not_false_eq_true, if_true, pure_apply]
    rw [hround]
    rfl

/-- A `vmunmap` that returns has changed nothing. -/
theorem vmunmap_state (root vaddr npages : Nat) (doFree : Bool) (σ : MemState)
    (hend : 0 < σ.kernelEnd) :
    (vmunmap root vaddr npages doFree σ).Holds (fun _ σ' => σ' = σ) (fun _ _ => True) := by
  unfold vmunmap
  by_cases hal : vaddr % pgsize = 0
  · simp only [hal, ne_eq, not_true_eq_false, if_false]
    refine Res.holds_loop (I := fun _ s => s = σ) ?_ (fun _ _ _ => trivial) _ _ _ rfl
    rintro temp s rfl
    refine (vmunmapRound_state root _ doFree temp s hend).mono ?_ fun _ _ h => h
    rintro (temp' | u) s' rfl <;> rfl
  · simp only [hal, ne_eq, not_false_eq_true, if_true, panic_apply, Res.holds_fault]

/-- With pages to free it does not return: an entry that is not `0` is refused, and for one that
is `0` the page `0` is to be freed. -/
theorem vmunmap_frees_none {root vaddr npages : Nat} (hend : 0 < σ.kernelEnd)
    (hpages : vaddr < u64 (vaddr + npages * pgsize)) :
    ∃ e s, vmunmap root vaddr npages true σ = .fault e s := by
  unfold vmunmap
  by_cases hal : vaddr % pgsize ≠ 0
  · exact ⟨_, σ, by rw [if_pos hal]; rfl⟩
  rw [if_neg hal, pageRounds]
  have hround : ∃ e s, vmunmapRound root (u64 (vaddr + npages * pgsize)) true vaddr σ =
      .fault e s := by
    unfold vmunmapRound
    rw [if_neg (not_not_intro hpages)]
    cases hwalk : walk root vaddr false σ with
    | fault e s => exact ⟨e, s, bind_fault hwalk _⟩
    | ok pte s =>
      have hsame := walk_state root vaddr σ
      rw [hwalk] at hsame
      obtain rfl : s = σ := hsame
      rw [bind_ok hwalk]
      by_cases hpte : pte = 0
      · exact ⟨_, s, by rw [if_pos hpte]; rfl⟩
      rw [if_neg hpte]
      unfold vmunmapEntry
      rw [read_bind]
      by_cases hentry : readWord s.mem pte ≠ 0
      · exact ⟨_, s, by rw [if_pos hentry]; rfl⟩
      have hflags : ¬ pteFlags 0 = pteV := by decide
      have hkfree : kfree (pte2page 0) s =
          .fault (.panic "kfree: invalid physical address") s := by
        have h0 : pte2page 0 = 0 := by decide
        simp [kfree, h0, hend]
      rw [if_neg hentry, not_not.mp hentry, if_neg hflags, if_pos rfl]
      exact ⟨_, s, bind_fault hkfree _⟩
  obtain ⟨e, s, hfault⟩ := hround
  exact ⟨e, s, loop_fault hfault _⟩

theorem vmunmap_none (root : Nat) (doFree : Bool) (σ : MemState) :
    vmunmap root 0 0 doFree σ = .ok () σ := by
  unfold vmunmap
  rw [if_neg (by decide), pageRounds]
  exact loop_done rfl _

/-! ## An entry that stays -/

/-- What any run of page-table code that returns leaves. -/
structure EntriesKept (roots : List Nat) (σ σ' : MemState) : Prop where
  tables : ∃ l', Tables roots σ' l'
  kernelEnd : σ'.kernelEnd = σ.kernelEnd
  entries : ∀ root ∈ roots, ∀ va, pteOf σ.mem root va ≠ 0 →
    pteOf σ'.mem root va = pteOf σ.mem root va

theorem EntriesKept.refl (h : Tables roots σ l) : EntriesKept roots σ σ :=
  ⟨⟨l, h⟩, rfl, fun _ _ _ _ => rfl⟩

theorem EntriesKept.trans {σ'' : MemState} (h : EntriesKept roots σ σ')
    (h' : EntriesKept roots σ' σ'') : EntriesKept roots σ σ'' := by
  refine ⟨h'.tables, h'.kernelEnd.trans h.kernelEnd, fun root hroot va hne => ?_⟩
  have hold := h.entries root hroot va hne
  rw [← hold] at hne ⊢
  exact h'.entries root hroot va hne

theorem Kept.entriesKept (h : Kept roots σ l σ' l') : EntriesKept roots σ σ' :=
  ⟨⟨l', h.tables⟩, h.kernelEnd, h.entries⟩

/-- A change outside the tables. -/
theorem entriesKept_same (htables : Tables roots σ' l')
    (hsame : ∀ root ∈ roots, TableSame σ.mem σ'.mem root)
    (hend : σ'.kernelEnd = σ.kernelEnd) : EntriesKept roots σ σ' :=
  ⟨⟨l', htables⟩, hend, fun root hroot va _ => (hsame root hroot).pteOf va⟩

/-- Page `0` has the entry `entry` in the table `root`. -/
structure Stuck (roots : List Nat) (root entry : Nat) (σ : MemState) : Prop where
  tables : ∃ l, Tables roots σ l
  kernel : kernbase ≤ σ.kernelEnd
  entry : pteOf σ.mem root 0 = entry

section
variable {root entry : Nat} (hroot : root ∈ roots) (h : Stuck roots root entry σ)
include hroot h

theorem Stuck.entriesKept (hentry : entry ≠ 0) (hsame : EntriesKept roots σ σ') :
    Stuck roots root entry σ' := by
  refine ⟨hsame.tables, ?_, ?_⟩
  · rw [hsame.kernelEnd]
    exact h.kernel
  · rw [hsame.entries root hroot 0 (by rw [h.entry]; exact hentry), h.entry]

/-- Page-table code keeps it. -/
theorem Stuck.kept (hentry : entry ≠ 0) (hkept : Kept roots σ l σ' l') :
    Stuck roots root entry σ' := h.entriesKept hroot hentry hkept.entriesKept

/-- A change outside the tables keeps it. -/
theorem Stuck.same (htables : Tables roots σ' l')
    (hsame : ∀ root ∈ roots, TableSame σ.mem σ'.mem root)
    (hend : σ'.kernelEnd = σ.kernelEnd) : Stuck roots root entry σ' := by
  refine ⟨⟨l', htables⟩, ?_, ?_⟩
  · rw [hend]
    exact h.kernel
  · rw [(hsame root hroot).pteOf, h.entry]

omit hroot in
/-- So does `vmunmap`. -/
theorem Stuck.vmunmap (pagetable vaddr npages : Nat) (doFree : Bool) :
    (vmunmap pagetable vaddr npages doFree σ).Holds (fun _ σ' => Stuck roots root entry σ')
      (fun _ _ => True) := by
  have hpos : 0 < kernbase := by decide
  refine (vmunmap_state pagetable vaddr npages doFree σ (Nat.lt_of_lt_of_le hpos h.kernel)).mono
    ?_ fun _ _ h => h
  rintro _ s rfl
  exact h

end

/-- The entry that a swapped call of `MapPages` leaves: the page is mapped to the page at
`PGSIZE`. -/
theorem translate_swapped {m : Mem} {root va flags : Nat}
    (h : pteOf m root va = page2pte pgsize ||| flags ||| pteV) (hflags : flags < 1024) :
    translate m root va = some (pgsize, flags ||| pteV) := by
  have hfl : flags ||| pteV < 1024 := or_lt_1024 hflags (by decide)
  have hv : (page2pte pgsize ||| (flags ||| pteV)) &&& pteV ≠ 0 := by
    rw [and_flag _ (by decide), pteFlags_or hfl, Nat.and_comm, Nat.and_or_distrib_left]
    intro h0
    exact absurd (Nat.or_eq_zero_iff.mp h0).2 (by decide)
  rw [translate, h, Nat.or_assoc, if_pos hv, pte2page_or (by decide) (by decide) hfl,
    pteFlags_or hfl]

theorem Stuck.translate {root flags : Nat}
    (h : Stuck roots root (page2pte pgsize ||| flags ||| pteV) σ) (hflags : flags < 1024) :
    translate σ.mem root 0 = some (pgsize, flags ||| pteV) := translate_swapped h.entry hflags

/-- That page is not one that the allocator manages. -/
theorem not_managed_pgsize {kernelEnd : Nat} (h : kernbase ≤ kernelEnd) :
    ¬ Managed kernelEnd pgsize := by
  intro hm
  exact absurd (Nat.le_trans h hm.above) (by decide)

/-! ## Pages of the caller -/

/-- A page that the caller has taken from the free list and not put into a table. -/
structure Owned (roots : List Nat) (σ : MemState) (l : List Nat) (page : Nat) : Prop where
  managed : Managed σ.kernelEnd page
  ne_zero : page ≠ 0
  notFree : page ∉ l
  notIn : ∀ root ∈ roots, NotInTable σ.mem root page

theorem kalloc_tables (h : Tables roots σ l) :
    (l = [] ∧ kalloc σ = .ok 0 σ) ∨
    ∃ page l', l = page :: l' ∧ kalloc σ = .ok page (allocated σ page) ∧
      Tables roots (allocated σ page) l' ∧ Owned roots (allocated σ page) l' page ∧
      ∀ root ∈ roots, TableSame σ.mem (allocated σ page).mem root := by
  rcases kalloc_holds h.free with hnone | ⟨page, l', hl, hrun, hfree⟩
  · exact Or.inl hnone
  · have hmem : page ∈ l := hl ▸ List.mem_cons_self ..
    have hmanaged := h.free.managed page hmem
    have hnot : ∀ root ∈ roots, NotInTable σ.mem root page := fun root hroot =>
      h.fresh root hroot page hmem
    obtain ⟨htables, hsame⟩ := h.change hmanaged.aligned hnot
      (fun b hb => fill_apply_of_outside σ.mem page pgsize 5 b hb) hfree
      (fun q hq => Or.inl (hl ▸ List.mem_cons_of_mem _ hq))
    refine Or.inr ⟨page, l', hl, hrun, htables, ⟨hmanaged, h.free.ne_zero hmem, ?_, ?_⟩, hsame⟩
    · have hnodup := h.free.nodup
      rw [hl, List.nodup_cons] at hnodup
      exact hnodup.1
    · intro root hroot is his hr
      rw [(hsame root hroot).reach is his] at hr
      exact hnot root hroot is his hr

section
variable {page : Nat} (h : Tables roots σ l) (hpage : Owned roots σ l page)
include h hpage

/-- Writing to such a page. -/
theorem Owned.write {m' : Mem} (hm : ∀ b, b < page ∨ page + 4096 ≤ b → m' b = σ.mem b) :
    Tables roots { σ with mem := m' } l ∧ Owned roots { σ with mem := m' } l page ∧
      ∀ root ∈ roots, TableSame σ.mem m' root := by
  have hal := hpage.managed.aligned
  have hfree : FreeList { σ with mem := m' } l := by
    refine h.free.congr m' fun q hq => ?_
    have hqa := (h.free.managed q hq).aligned
    have hne : q ≠ page := fun e => hpage.notFree (e ▸ hq)
    exact readWord_congr fun b _ _ => hm b (by omega)
  have hch : Tables roots { σ with mem := m' } l ∧ ∀ root ∈ roots, TableSame σ.mem m' root :=
    h.change hal hpage.notIn hm hfree fun q hq => Or.inl hq
  obtain ⟨htables, hsame⟩ := hch
  refine ⟨htables, ⟨hpage.managed, hpage.ne_zero, hpage.notFree, ?_⟩, hsame⟩
  intro root hroot is his hr
  rw [(hsame root hroot).reach is his] at hr
  exact hpage.notIn root hroot is his hr

/-- Giving it back. -/
theorem Owned.kfree :
    kfree page σ = .ok () (freed σ page) ∧ Tables roots (freed σ page) (page :: l) ∧
      ∀ root ∈ roots, TableSame σ.mem (freed σ page).mem root := by
  obtain ⟨hrun, hfree⟩ := kfree_managed h.free hpage.managed hpage.ne_zero hpage.notFree
  obtain ⟨htables, hsame⟩ := h.change hpage.managed.aligned hpage.notIn
    (freed_mem_outside σ page) hfree fun q hq => by
      rcases List.mem_cons.mp hq with rfl | hq
      · exact Or.inr rfl
      · exact Or.inl hq
  exact ⟨hrun, htables, hsame⟩

omit h in
/-- Page-table code leaves it to the caller. -/
theorem Owned.kept (hkept : Kept roots σ l σ' l') : Owned roots σ' l' page := by
  refine ⟨?_, hpage.ne_zero, fun hmem => hpage.notFree (hkept.sub.mem hmem),
    hkept.outside page hpage.managed.aligned hpage.notFree hpage.notIn⟩
  rw [hkept.kernelEnd]
  exact hpage.managed

end

end PageFaultOS
