import Mathlib.Tactic
import PageFaultOS.Mm.MapPages
import PageFaultOS.Mm.Tables

/-! How many pages `MapPages` takes for tables, and when they run out: at the first page of the
range whose tables, with those of the pages before it, are more than the free pages, unless
there is an entry that is not `0` before. -/

namespace PageFaultOS
open Exec Exec.Comp ByteMem

/-- No table is reached along `js`. -/
abbrev Lacks (m : Mem) (root : Nat) (js : List (Fin 512)) : Prop :=
  Radix.reach child (slots m) (root / 4096) js = none

/-- The ways to the tables below the root that the page of `va` needs. -/
def tablePaths (va : Nat) : Finset (List (Fin 512)) := {[idx 2 va], [idx 2 va, idx 1 va]}

/-- Those of the `n` pages from `first` on. -/
def tablePathsTo (first n : Nat) : Finset (List (Fin 512)) :=
  (Finset.range n).biUnion fun k => tablePaths (first + 4096 * k)

/-- The number of tables that the `n` pages from `first` on lack. -/
def lacking (m : Mem) (root first n : Nat) : Nat :=
  ((tablePathsTo first n).filter (Lacks m root)).card

/-- Of the pages from `first` to `last`, there is one whose tables are no longer to be had from
`free` pages, and no entry before it. -/
def TablesRunOut (m : Mem) (root first last free : Nat) : Prop :=
  ∃ n, first + 4096 * n ≤ last ∧ (∀ k < n, pteOf m root (first + 4096 * k) = 0) ∧
    free < lacking m root first (n + 1)

theorem tablePaths_length {va : Nat} {js : List (Fin 512)} (h : js ∈ tablePaths va) :
    js.length ≤ 2 := by
  rw [tablePaths, Finset.mem_insert, Finset.mem_singleton] at h
  obtain rfl | rfl := h
  · exact Nat.le_succ 1
  · exact Nat.le_refl 2

theorem tablePathsTo_succ (first n : Nat) :
    tablePathsTo first (n + 1) = tablePathsTo first n ∪ tablePaths (first + 4096 * n) := by
  rw [tablePathsTo, Finset.range_add_one, Finset.biUnion_insert, Finset.union_comm]
  rfl

theorem lacking_mono (m : Mem) (root first : Nat) {k n : Nat} (h : k ≤ n) :
    lacking m root first k ≤ lacking m root first n :=
  Finset.card_le_card (Finset.filter_subset_filter _
    (Finset.biUnion_subset_biUnion_of_subset_left _ (Finset.range_subset_range.mpr h)))

/-- Where the pages so far have their tables, and an entry or the end stops the loop, the free
pages do not run out. -/
theorem not_tablesRunOut {m : Mem} {root first last free n : Nat}
    (hcount : lacking m root first (n + 1) ≤ free)
    (hstop : pteOf m root (first + 4096 * n) ≠ 0 ∨ last ≤ first + 4096 * n) :
    ¬ TablesRunOut m root first last free := by
  rintro ⟨k, hk, hzero, hlt⟩
  by_cases hkn : k ≤ n
  · have hle : lacking m root first (k + 1) ≤ lacking m root first (n + 1) :=
      lacking_mono m root first (Nat.succ_le_succ hkn)
    omega
  · obtain hentry | hlast := hstop
    · exact hentry (hzero n (Nat.not_le.mp hkn))
    · omega

theorem TableSame.lacking {m m' : Mem} {root : Nat} (h : TableSame m m' root) (first n : Nat) :
    lacking m' root first n = lacking m root first n := by
  unfold PageFaultOS.lacking
  congr 1
  refine Finset.filter_congr fun js hjs => ?_
  obtain ⟨k, -, hk⟩ := Finset.mem_biUnion.mp hjs
  rw [Lacks, Lacks, h.reach js (tablePaths_length hk)]

theorem TableSame.tablesRunOut_iff {m m' : Mem} {root : Nat} (h : TableSame m m' root)
    (first last free : Nat) :
    TablesRunOut m' root first last free ↔ TablesRunOut m root first last free := by
  unfold TablesRunOut
  refine exists_congr fun n => and_congr_right fun _ => and_congr ?_ ?_
  · exact forall₂_congr fun k _ => by rw [h.pteOf]
  · rw [h.lacking]

/-- From `σ` to `σ'` the tables along `paths` have been added, from the free pages. -/
structure Added (root : Nat) (σ : MemState) (l : List Nat) (σ' : MemState) (l' : List Nat)
    (paths : Finset (List (Fin 512))) : Prop where
  lacks : ∀ js, js.length ≤ 2 → (Lacks σ'.mem root js ↔ Lacks σ.mem root js ∧ js ∉ paths)
  count : l'.length + (paths.filter (Lacks σ.mem root)).card = l.length
  outside : ∀ q, q % 4096 = 0 → q ∉ l → NotInTable σ.mem root q → NotInTable σ'.mem root q

section
variable {root : Nat} {σ σ' : MemState} {l l' : List Nat} {S T : Finset (List (Fin 512))}

theorem Added.none (root : Nat) (σ : MemState) (l : List Nat) : Added root σ l σ l ∅ := by
  refine ⟨fun js _ => ?_, ?_, fun q _ _ hq => hq⟩
  · simp
  · rw [Finset.filter_empty, Finset.card_empty, Nat.add_zero]

/-- What is lacking for more ways is what is still lacking for these. -/
theorem Added.card_union (h : Added root σ l σ' l' S) (hT : ∀ js ∈ T, js.length ≤ 2) :
    ((S ∪ T).filter (Lacks σ.mem root)).card =
      (S.filter (Lacks σ.mem root)).card + (T.filter (Lacks σ'.mem root)).card := by
  have hdisjoint : Disjoint (S.filter (Lacks σ.mem root)) (T.filter (Lacks σ'.mem root)) := by
    rw [Finset.disjoint_left]
    intro js hS hT'
    obtain ⟨hjs, hlacks⟩ := Finset.mem_filter.mp hT'
    exact ((h.lacks js (hT js hjs)).mp hlacks).2 (Finset.mem_filter.mp hS).1
  rw [← Finset.card_union_of_disjoint hdisjoint]
  congr 1
  ext js
  simp only [Finset.mem_filter, Finset.mem_union]
  constructor
  · rintro ⟨hjs, hlacks⟩
    by_cases hS : js ∈ S
    · exact .inl ⟨hS, hlacks⟩
    · have hjT := hjs.resolve_left hS
      exact .inr ⟨hjT, (h.lacks js (hT js hjT)).mpr ⟨hlacks, hS⟩⟩
  · rintro (⟨hS, hlacks⟩ | ⟨hjT, hlacks⟩)
    · exact ⟨.inl hS, hlacks⟩
    · exact ⟨.inr hjT, ((h.lacks js (hT js hjT)).mp hlacks).1⟩

theorem Added.trans {σ'' : MemState} {l'' : List Nat} (h : Added root σ l σ' l' S)
    (h' : Added root σ' l' σ'' l'' T) (hT : ∀ js ∈ T, js.length ≤ 2) (hsub : l' ⊆ l) :
    Added root σ l σ'' l'' (S ∪ T) := by
  refine ⟨fun js hjs => ?_, ?_, fun q hq hql hnot =>
    h'.outside q hq (fun hq' => hql (hsub hq')) (h.outside q hq hql hnot)⟩
  · rw [h'.lacks js hjs, h.lacks js hjs, Finset.mem_union, not_or, and_assoc]
  · have hcount := h.count
    have hcount' := h'.count
    rw [h.card_union hT]
    omega

variable (hwf : PageTable σ.mem root) (hfree : FreeList σ l)
  (hfresh : ∀ q ∈ l, NotInTable σ.mem root q)
include hwf hfree hfresh

/-- One level of `walk`. -/
theorem walkLevel_added {is : List (Fin 512)} {pn : Nat} (va level : Nat)
    (hreach : Radix.reach child (slots σ.mem) (root / 4096) is = some pn) (his : is.length < 2) :
    ∃ r σ' l', walkLevel (pn * 4096) va true level σ = .ok r σ' ∧ Grown root σ l σ' l' ∧
      ((r = none ∧ Lacks σ.mem root (is ++ [idx level va]) ∧ l = []) ∨
        Added root σ l σ' l' {is ++ [idx level va]} ∧ ∃ qn, r = some (qn * 4096) ∧
          Radix.reach child (slots σ'.mem) (root / 4096) (is ++ [idx level va]) = some qn) := by
  have hpn : ∀ q ∈ l, q / 4096 ≠ pn := fun q hq e => hfresh q hq is (by omega) (e ▸ hreach)
  have hnext : Radix.reach child (slots σ.mem) (root / 4096) (is ++ [idx level va]) =
      child (slots σ.mem pn (idx level va)) := by
    rw [Radix.reach_append, hreach, Option.bind_some, Radix.reach_cons]
    cases child (slots σ.mem pn (idx level va)) <;> rfl
  rcases walkLevel_cases hfree hpn va level with
    ⟨hval, hrun⟩ | ⟨hval, hl, hrun⟩ | ⟨hval, q, l', hl, hrun, hfree'⟩
  · -- the table is there
    have hchild : child (slots σ.mem pn (idx level va)) =
        some (pte2page (slots σ.mem pn (idx level va)) / 4096) := by rw [child, if_pos hval]
    have hhas : ¬ Lacks σ.mem root (is ++ [idx level va]) := by
      rw [Lacks, hnext, hchild]
      exact Option.some_ne_none _
    refine ⟨_, σ, l, hrun, Grown.refl hwf hfree hfresh, .inr ⟨⟨fun js _ => ?_, ?_,
      fun q _ _ hq => hq⟩, _, ?_, hnext.trans hchild⟩⟩
    · refine ⟨fun hlacks => ⟨hlacks, fun hjs => ?_⟩, And.left⟩
      rw [Finset.mem_singleton.mp hjs] at hlacks
      exact hhas hlacks
    · rw [Finset.filter_singleton, if_neg hhas, Finset.card_empty, Nat.add_zero]
    · rw [page_mul (pte2page_aligned _)]
  · have hempty : child (slots σ.mem pn (idx level va)) = none := by simp [child, hval]
    exact ⟨none, σ, l, hrun, Grown.refl hwf hfree hfresh, .inl ⟨rfl, hnext.trans hempty, hl⟩⟩
  · -- a free page becomes the table
    have hql : q ∈ l := hl ▸ List.mem_cons_self ..
    have hq := hfree.managed q hql
    have hqlt : q < 2 ^ 64 := Nat.lt_of_le_of_lt (by omega) hq.lt
    have hqn := hfresh q hql
    have hempty : child (slots σ.mem pn (idx level va)) = none := by simp [child, hval]
    have hslots := slots_linked σ pn level va hq.aligned hqlt
    have hv := child_table_entry hq.aligned hqlt
    have hz : child 0 = none := by decide
    refine ⟨some q, _, l', hrun,
      grown_link hwf hfree hfresh hl hreach his hempty hslots hfree', .inr ⟨⟨fun js hjs => ?_, ?_,
        fun page hpage hnew hnot js hjs hjr => ?_⟩, q / 4096, ?_, ?_⟩⟩
    · rw [Lacks, hslots, Finset.mem_singleton]
      exact Radix.reach_link_none_iff hwf.tree hreach his hqn hv hz hempty js hjs
    · rw [Finset.filter_singleton, if_pos (hnext.trans hempty), Finset.card_singleton, hl]
      rfl
    · rw [hslots] at hjr
      obtain ⟨-, he⟩ | hold := Radix.reach_link_eq hwf.tree hreach his hqn hv hz js hjs _ hjr
      · have hqa := hq.aligned
        have heq : page = q := by omega
        exact hnew (heq ▸ hql)
      · exact hnot js hjs hold
    · rw [page_mul hq.aligned]
    · rw [hslots]
      exact Radix.reach_link_self hwf.tree hreach his hqn hv

/-- `walk` takes what its page lacks, and returns `NULL` where that is more than there is. -/
theorem walk_added (hzero : NotInTable σ.mem root 0) {va : Nat} (hva : va < maxva) :
    ∃ r σ' l', walk root va true σ = .ok r σ' ∧ Grown root σ l σ' l' ∧
      ((r = 0 ∧ l.length < ((tablePaths va).filter (Lacks σ.mem root)).card) ∨
        Added root σ l σ' l' (tablePaths va) ∧ ∃ pn, leafTable σ'.mem root va = some pn ∧
          r = pn * 4096 + 8 * px 0 va ∧ r ≠ 0) := by
  have hself : Radix.reach child (slots σ.mem) (root / 4096) [] = some (root / 4096) := rfl
  have hpaths : tablePaths va = {[idx 2 va]} ∪ {[idx 2 va, idx 1 va]} := rfl
  have hmiddle : ∀ js ∈ ({[idx 2 va, idx 1 va]} : Finset (List (Fin 512))), js.length ≤ 2 := by
    intro js hjs
    rw [Finset.mem_singleton.mp hjs]
    exact Nat.le_refl 2
  obtain ⟨r2, σ2, l2, hw2, hg2, hr2⟩ :=
    walkLevel_added hwf hfree hfresh va 2 hself (by decide)
  rw [page_mul hwf.aligned] at hw2
  have hnot : ¬ maxva ≤ va := Nat.not_le.mpr hva
  rcases hr2 with ⟨rfl, hlacks, hl⟩ | ⟨hadded2, q2, rfl, hq2⟩
  · refine ⟨0, σ2, l2, ?_, hg2, .inl ⟨rfl, ?_⟩⟩
    · simp only [walk, hnot, if_false]
      rw [bind_ok hw2]
      rfl
    · rw [hl, List.length_nil, Finset.card_pos]
      exact ⟨[idx 2 va], Finset.mem_filter.mpr ⟨Finset.mem_insert_self .., hlacks⟩⟩
  obtain ⟨r1, σ1, l1, hw1, hg1, hr1⟩ :=
    walkLevel_added hg2.table hg2.free hg2.fresh va 1 hq2 (by simp)
  rcases hr1 with ⟨rfl, hlacks, hl⟩ | ⟨hadded1, q1, rfl, hq1⟩
  · have hwalk : walk root va true σ = .ok 0 σ1 := by
      simp only [walk, hnot, if_false]
      rw [bind_ok hw2]
      exact bind_ok hw1 _
    refine ⟨0, σ1, l1, hwalk, hg2.trans hg1, .inl ⟨rfl, ?_⟩⟩
    have hcount : l2.length + (({[idx 2 va]} : Finset _).filter (Lacks σ.mem root)).card =
        l.length := hadded2.count
    have hunion : (({[idx 2 va]} ∪ {[idx 2 va, idx 1 va]} : Finset _).filter
        (Lacks σ.mem root)).card = (({[idx 2 va]} : Finset _).filter (Lacks σ.mem root)).card +
          (({[idx 2 va, idx 1 va]} : Finset _).filter (Lacks σ2.mem root)).card :=
      hadded2.card_union hmiddle
    have hlacks' : Lacks σ2.mem root [idx 2 va, idx 1 va] := hlacks
    have hone : (({[idx 2 va, idx 1 va]} : Finset _).filter (Lacks σ2.mem root)).card = 1 := by
      rw [Finset.filter_singleton, if_pos hlacks', Finset.card_singleton]
    rw [hl, List.length_nil] at hcount
    rw [hpaths, hunion, hone]
    omega
  · have hadded : Added root σ l σ1 l1 (tablePaths va) :=
      hadded2.trans hadded1 hmiddle hg2.sub.subset
    have hwalk : walk root va true σ = .ok (q1 * 4096 + 8 * px 0 va) σ1 := by
      simp only [walk, hnot, if_false]
      rw [bind_ok hw2]
      exact bind_ok hw1 _
    refine ⟨_, σ1, l1, hwalk, hg2.trans hg1, .inr ⟨hadded, q1, hq1, rfl, fun h0 => ?_⟩⟩
    have hnot := hadded.outside 0 rfl (fun hmem => hfree.ne_zero hmem rfl) hzero
    have hq10 : q1 = 0 / 4096 := by omega
    exact hnot (inner va) (Nat.le_refl 2) (hq10 ▸ hq1)

omit hwf hfree hfresh in
/-- Storing an entry of a last table adds no table. -/
theorem Added.store {s : MemState} {l' : List Nat} {va pn : Nat} (h : Added root σ l s l' S)
    (hs : PageTable s.mem root) (hleaf : leafTable s.mem root va = some pn) (v : Nat) :
    Added root σ l { s with mem := writeWord s.mem (pn * 4096 + 8 * px 0 va) v } l' S := by
  have hslots : slots (writeWord s.mem (pn * 4096 + 8 * px 0 va) v) =
      Radix.set (slots s.mem) pn (idx 0 va) (v % 2 ^ 64) := slots_writeWord s.mem pn v (idx 0 va)
  have hreach : ∀ js : List (Fin 512), js.length ≤ 2 →
      Radix.reach child (slots (writeWord s.mem (pn * 4096 + 8 * px 0 va) v)) (root / 4096) js =
        Radix.reach child (slots s.mem) (root / 4096) js := by
    intro js hjs
    rw [hslots]
    exact Radix.reach_set_deepest hs.tree hleaf rfl js hjs
  refine ⟨fun js hjs => ?_, h.count, fun q hq hql hnot js hjs hr => ?_⟩
  · rw [← h.lacks js hjs, Lacks, Lacks, hreach js hjs]
  · exact h.outside q hq hql hnot js hjs ((hreach js hjs).symm.trans hr)

end

/-! ## The loop of `MapPages` -/

/-- The loop of `MapPages` at its page with index `n`. -/
structure MapCount (root first last : Nat) (σ : MemState) (l : List Nat) (n : Nat) (s : MemState)
    (l' : List Nat) : Prop where
  table : PageTable s.mem root
  free : FreeList s l'
  fresh : ∀ q ∈ l', NotInTable s.mem root q
  sub : l' ⊆ l
  le : first + 4096 * n ≤ last
  unmapped : ∀ k < n, pteOf σ.mem root (first + 4096 * k) = 0
  entries : ∀ va, first + 4096 * n ≤ va → va < 2 ^ 39 →
    pteOf s.mem root va = pteOf σ.mem root va
  added : Added root σ l s l' (tablePathsTo first n)

/-- The loop of `MapPages` has ended with the last page mapped. -/
structure MapAll (root first last : Nat) (σ : MemState) (l : List Nat) (s : MemState)
    (l' : List Nat) : Prop where
  free : FreeList s l'
  fresh : ∀ q ∈ l', NotInTable s.mem root q
  added : Added root σ l s l' (tablePathsTo first ((last - first) / 4096 + 1))

section
variable {root first last perm : Nat} {σ : MemState} {l : List Nat}

/-- One round: it goes on to the next page, ends at the last, or stops, with the tables used up
or at an entry that is not `0`. -/
theorem MapCount.round {n pa : Nat} {s : MemState} {l' : List Nat} (hperm : perm < 1024)
    (hpa : pa < 2 ^ 64) (hlast : last < 2 ^ 38) (hfirst : first % 4096 = 0)
    (hlastal : last % 4096 = 0) (hl : FreeList σ l) (hzero : NotInTable σ.mem root 0)
    (h : MapCount root first last σ l n s l') :
    (mapPagesRound root last perm (first + 4096 * n, pa) s).Holds
      (fun r s' => match r with
        | .inl p => p.1 = first + 4096 * (n + 1) ∧ p.2 < 2 ^ 64 ∧
          ∃ l'', MapCount root first last σ l (n + 1) s' l''
        | .inr r => (r = -1 ∧ TablesRunOut σ.mem root first last l.length) ∨
          r = 0 ∧ ¬ TablesRunOut σ.mem root first last l.length ∧
            ∃ l'', MapAll root first last σ l s' l'')
      (fun _ _ => ¬ TablesRunOut σ.mem root first last l.length) := by
  have hle := h.le
  have hva : first + 4096 * n < maxva := by
    rw [maxva_eq]
    omega
  have hzero' : NotInTable s.mem root 0 :=
    h.added.outside 0 rfl (fun hmem => hl.ne_zero hmem rfl) hzero
  have hlength : ∀ js ∈ tablePaths (first + 4096 * n), js.length ≤ 2 :=
    fun js hjs => tablePaths_length hjs
  have hcount := h.added.count
  have hunion := h.added.card_union hlength
  rw [← tablePathsTo_succ] at hunion
  obtain ⟨r, s1, l1, hwalk, hgrown, ⟨rfl, hshort⟩ | ⟨hadded, pn, hleaf, rfl, hne⟩⟩ :=
    walk_added h.table h.free h.fresh hzero' hva
  · -- the tables of this page are not to be had
    rw [mapPagesRound_walked hwalk, if_pos rfl]
    refine .inl ⟨rfl, n, h.le, h.unmapped, ?_⟩
    rw [lacking, hunion]
    omega
  have hadded' := h.added.trans hadded hlength h.sub
  rw [← tablePathsTo_succ] at hadded'
  have hlacking : lacking σ.mem root first (n + 1) ≤ l.length := by
    rw [lacking, ← hadded'.count]
    exact Nat.le_add_left _ _
  have hentry : readWord s1.mem (pn * 4096 + 8 * px 0 (first + 4096 * n)) =
      pteOf σ.mem root (first + 4096 * n) := by
    rw [← h.entries _ (Nat.le_refl _) (by omega), ← hgrown.ptes]
    exact (pteOf_of_leafTable hleaf).symm
  rw [mapPagesRound_walked hwalk, if_neg hne, hentry]
  by_cases hmapped : pteOf σ.mem root (first + 4096 * n) ≠ 0
  · rw [if_pos hmapped]
    exact not_tablesRunOut hlacking (.inl hmapped)
  have hv : page2pte pa ||| perm ||| pteV < 2 ^ 64 := by
    rw [Nat.or_assoc]
    exact page2pte_or_lt hpa (or_lt_1024 hperm (by decide))
  obtain ⟨htable, hkeep, hptes⟩ := pteOf_setLeaf hgrown.table hleaf (by omega) hv
  have hfree := freeList_setLeaf hgrown.free hgrown.fresh hleaf (page2pte pa ||| perm ||| pteV)
  have hstored := hadded'.store hgrown.table hleaf (page2pte pa ||| perm ||| pteV)
  rw [if_neg hmapped]
  by_cases hend : first + 4096 * n = last
  · rw [if_pos hend]
    refine .inr ⟨rfl, not_tablesRunOut hlacking (.inr hend.ge), l1, hfree,
      fun q hq => hkeep q (hgrown.fresh q hq), ?_⟩
    rw [show (last - first) / 4096 = n by omega]
    exact hstored
  rw [if_neg hend]
  have hnext : u64 (first + 4096 * n + pgsize) = first + 4096 * (n + 1) := by
    simp only [u64, pgsize]
    omega
  refine ⟨hnext, u64_lt _, l1, htable, hfree, fun q hq => hkeep q (hgrown.fresh q hq),
    fun q hq => h.sub (hgrown.sub.subset hq), by omega, fun k hk => ?_, fun va hva hlt => ?_, hstored⟩
  · obtain hk | rfl := Nat.lt_succ_iff_lt_or_eq.mp hk
    · exact h.unmapped k hk
    · exact not_not.mp hmapped
  · rw [hptes va hlt, if_neg (by omega), hgrown.ptes, h.entries va (by omega) hlt]

/-- `MapPages` fails if and only if the free pages run out before an entry is met; where it does not
fail, it has taken the pages for the tables. -/
theorem mapPages_takes {vaddr size paddr : Nat} (hwf : PageTable σ.mem root)
    (hfree : FreeList σ l) (hfresh : ∀ q ∈ l, NotInTable σ.mem root q)
    (hzero : NotInTable σ.mem root 0) (hpaddr : paddr < 2 ^ 64) (hsize : 1 ≤ size)
    (hrange : vaddr + size - 1 < maxva) (hperm : perm < 1024) :
    (mapPages root vaddr paddr size perm σ).Holds
      (fun r s => (r = -1 ∧ TablesRunOut σ.mem root (pgrounddown vaddr)
          (pgrounddown (vaddr + size - 1)) l.length) ∨
        r = 0 ∧ ¬ TablesRunOut σ.mem root (pgrounddown vaddr)
          (pgrounddown (vaddr + size - 1)) l.length ∧
          ∃ l', MapAll root (pgrounddown vaddr) (pgrounddown (vaddr + size - 1)) σ l s l')
      (fun _ _ => ¬ TablesRunOut σ.mem root (pgrounddown vaddr)
        (pgrounddown (vaddr + size - 1)) l.length) := by
  have hmax := maxva_eq
  have h1 := pgrounddown_eq (a := vaddr) (by omega)
  have h2 := pgrounddown_eq (a := vaddr + size - 1) (by omega)
  have hstart : MapCount root (pgrounddown vaddr) (pgrounddown (vaddr + size - 1)) σ l 0 σ l :=
    ⟨hwf, hfree, hfresh, List.Subset.refl l, by omega, fun k hk => absurd hk (Nat.not_lt_zero k),
      fun _ _ _ => rfl, Added.none root σ l⟩
  rw [mapPages, mapPages_last hsize hrange]
  refine Res.holds_loop_measure
    (I := fun p s => p.2 < 2 ^ 64 ∧ ∃ n l', p.1 = pgrounddown vaddr + 4096 * n ∧
      MapCount root (pgrounddown vaddr) (pgrounddown (vaddr + size - 1)) σ l n s l')
    (μ := fun p => pgrounddown (vaddr + size - 1) + 1 - p.1) ?_ _ _ _ ?_
    ⟨hpaddr, 0, l, rfl, hstart⟩
  · rintro ⟨temp, pa⟩ s ⟨hpa, n, l', rfl, hI⟩
    refine (hI.round hperm hpa (by omega) (by omega) (by omega) hfree hzero).mono ?_
      fun _ _ h => h
    rintro (⟨temp', pa'⟩ | r) s' h
    · obtain ⟨htemp, hpa', l'', hnext⟩ := h
      have hle := hI.le
      dsimp only at htemp hpa' ⊢
      exact ⟨⟨hpa', n + 1, l'', htemp, hnext⟩, by omega⟩
    · exact h
  · have hrounds : 2 ^ 40 < pageRounds := by
      rw [pageRounds]
      norm_num
    dsimp only
    omega

theorem mapPages_count {vaddr size paddr : Nat} (hwf : PageTable σ.mem root)
    (hfree : FreeList σ l) (hfresh : ∀ q ∈ l, NotInTable σ.mem root q)
    (hzero : NotInTable σ.mem root 0) (hpaddr : paddr < 2 ^ 64) (hsize : 1 ≤ size)
    (hrange : vaddr + size - 1 < maxva) (hperm : perm < 1024) :
    (mapPages root vaddr paddr size perm σ).Holds
      (fun r _ => (r = -1 ∧ TablesRunOut σ.mem root (pgrounddown vaddr)
          (pgrounddown (vaddr + size - 1)) l.length) ∨
        r = 0 ∧ ¬ TablesRunOut σ.mem root (pgrounddown vaddr)
          (pgrounddown (vaddr + size - 1)) l.length)
      (fun _ _ => ¬ TablesRunOut σ.mem root (pgrounddown vaddr)
        (pgrounddown (vaddr + size - 1)) l.length) :=
  (mapPages_takes hwf hfree hfresh hzero hpaddr hsize hrange hperm).mono
    (fun _ _ h => h.imp_right fun h => ⟨h.1, h.2.1⟩) fun _ _ h => h

end

end PageFaultOS
