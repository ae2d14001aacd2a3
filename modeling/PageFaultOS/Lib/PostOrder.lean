import Mathlib.Tactic
import PageFaultOS.Lib.Radix

/-! The pages of a radix tree in the order in which a recursion leaves them: those below a
page before the page itself. In a tree without aliasing each page comes once. -/

namespace Radix
variable {P I V : Type}

/-- The pages below slot `i` of `p`. -/
def branch (child : V → Option P) (σ : Store P I V) (below : P → List P) (p : P) (i : I) :
    List P :=
  match child (σ p i) with
  | none => []
  | some q => below q

/-- The pages of the tree of depth `n` at a page; `slots` are the slots of a page. -/
def pages (child : V → Option P) (σ : Store P I V) (slots : List I) : Nat → P → List P
  | 0, p => [p]
  | n + 1, p => slots.flatMap (branch child σ (pages child σ slots n) p) ++ [p]

/-- A property of the slots of a tree of depth `n`, by how far they are from its end. -/
def Entries (child : V → Option P) (Q : Nat → V → Prop) (σ : Store P I V) (n : Nat) (p : P) :
    Prop :=
  ∀ is q i, is.length ≤ n → reach child σ p is = some q → Q (n - is.length) (σ q i)

variable {child : V → Option P} {σ σ' : Store P I V} {slots : List I} {root p q : P} {i : I}
  {n : Nat} {Q : Nat → V → Prop}

theorem branch_none {below : P → List P} (h : child (σ p i) = none) :
    branch child σ below p i = [] := by
  rw [branch, h]

theorem branch_some {below : P → List P} (h : child (σ p i) = some q) :
    branch child σ below p i = below q := by
  rw [branch, h]

theorem mem_pages_self : p ∈ pages child σ slots n p := by
  cases n with
  | zero => exact List.mem_singleton.mpr rfl
  | succ n => exact List.mem_append_right _ (List.mem_singleton.mpr rfl)

theorem mem_branch (h : child (σ p i) = some q) (hi : i ∈ slots) {r : P}
    (hr : r ∈ pages child σ slots n q) : r ∈ pages child σ slots (n + 1) p := by
  refine List.mem_append_left _ (List.mem_flatMap.mpr ⟨i, hi, ?_⟩)
  rwa [branch_some h]

/-- They are the pages that `reach` reaches. -/
theorem mem_pages (hslots : ∀ i, i ∈ slots) : q ∈ pages child σ slots n p ↔
    ∃ is : List I, is.length ≤ n ∧ reach child σ p is = some q := by
  induction n generalizing p with
  | zero =>
    rw [pages, List.mem_singleton]
    constructor
    · rintro rfl
      exact ⟨[], Nat.le_refl 0, rfl⟩
    · rintro ⟨is, hlen, hr⟩
      rw [List.eq_nil_of_length_eq_zero (Nat.le_zero.mp hlen)] at hr
      exact (Option.some.inj hr).symm
  | succ n ih =>
    rw [pages, List.mem_append, List.mem_flatMap, List.mem_singleton]
    constructor
    · rintro (⟨i, -, hq⟩ | rfl)
      · cases hc : child (σ p i) with
        | none =>
          rw [branch_none hc] at hq
          cases hq
        | some r =>
          rw [branch_some hc] at hq
          obtain ⟨is, hlen, hr⟩ := ih.mp hq
          refine ⟨i :: is, by simpa using hlen, ?_⟩
          rw [reach_cons, hc]
          exact hr
      · exact ⟨[], Nat.zero_le _, rfl⟩
    · rintro ⟨is, hlen, hr⟩
      cases is with
      | nil => exact Or.inr (Option.some.inj hr).symm
      | cons i is =>
        rw [reach_cons] at hr
        cases hc : child (σ p i) with
        | none =>
          rw [hc] at hr
          cases hr
        | some r =>
          rw [hc] at hr
          refine Or.inl ⟨i, hslots i, ?_⟩
          rw [branch_some hc]
          exact ih.mpr ⟨is, by simpa using hlen, hr⟩

/-- What is below a page of a tree is a tree. -/
theorem Tree.below (h : Tree child σ root (n + 1)) (hc : child (σ root i) = some q) :
    Tree child σ q n := by
  intro is js r his hjs hi hj
  have hcons : ∀ ks, reach child σ q ks = some r → reach child σ root (i :: ks) = some r := by
    intro ks hk
    rw [reach_cons, hc]
    exact hk
  have heq := h (i :: is) (i :: js) r (by simpa using his) (by simpa using hjs) (hcons is hi)
    (hcons js hj)
  exact (List.cons.inj heq).2

/-- A page below slot `i` is reached by a list that starts with `i`. -/
theorem mem_branch_iff (hslots : ∀ i, i ∈ slots) :
    q ∈ branch child σ (pages child σ slots n) p i ↔
      ∃ is : List I, is.length ≤ n ∧ reach child σ p (i :: is) = some q := by
  simp only [reach_cons]
  cases hc : child (σ p i) with
  | none =>
    rw [branch_none hc]
    constructor
    · intro hq
      cases hq
    · rintro ⟨is, -, hr⟩
      cases hr
  | some r =>
    rw [branch_some hc, mem_pages hslots]
    exact Iff.rfl

theorem pages_nodup (hslots : ∀ i, i ∈ slots) (hnodup : slots.Nodup)
    (h : Tree child σ root n) : (pages child σ slots n root).Nodup := by
  induction n generalizing root with
  | zero => exact List.nodup_singleton root
  | succ n ih =>
    rw [pages, List.nodup_append]
    refine ⟨List.nodup_flatMap.mpr ⟨fun i _ => ?_, hnodup.imp fun {i j} hne r hi hj => ?_⟩,
      List.nodup_singleton root, fun r hr s hs hrs => ?_⟩
    · cases hc : child (σ root i) with
      | none =>
        rw [branch_none hc]
        exact List.nodup_nil
      | some q =>
        rw [branch_some hc]
        exact ih (h.below hc)
    · obtain ⟨is, his, hri⟩ := (mem_branch_iff hslots).mp hi
      obtain ⟨js, hjs, hrj⟩ := (mem_branch_iff hslots).mp hj
      have heq := h (i :: is) (j :: js) r (by simpa using his) (by simpa using hjs) hri hrj
      exact hne (List.cons.inj heq).1
    · obtain ⟨i, -, hi⟩ := List.mem_flatMap.mp hr
      obtain ⟨is, his, hri⟩ := (mem_branch_iff hslots).mp hi
      have hroot : reach child σ root [] = some r := by
        rw [hrs, List.mem_singleton.mp hs]
        rfl
      have heq := h (i :: is) [] r (by simpa using his) (Nat.zero_le _) hri hroot
      cases heq

/-- The pages depend on the slots of the pages only. -/
theorem pages_congr (h : ∀ q ∈ pages child σ slots n p, ∀ i, σ' q i = σ q i) :
    pages child σ' slots n p = pages child σ slots n p := by
  induction n generalizing p with
  | zero => rfl
  | succ n ih =>
    have hbranch : ∀ i ∈ slots, branch child σ' (pages child σ' slots n) p i =
        branch child σ (pages child σ slots n) p i := by
      intro i hi
      have hslot := h p mem_pages_self i
      cases hc : child (σ p i) with
      | none => rw [branch_none hc, branch_none (hslot ▸ hc)]
      | some q =>
        rw [branch_some hc, branch_some (hslot ▸ hc)]
        exact ih fun r hr => h r (mem_branch hc hi hr)
    rw [pages, pages, List.flatMap_congr hbranch]

theorem Entries.top (h : Entries child Q σ n p) (i : I) : Q n (σ p i) :=
  h [] p i (Nat.zero_le n) rfl

theorem Entries.below (h : Entries child Q σ (n + 1) p) (hc : child (σ p i) = some q) :
    Entries child Q σ n q := by
  intro is r j hlen hr
  have hreach : reach child σ p (i :: is) = some r := by
    rw [reach_cons, hc]
    exact hr
  have hentry := h (i :: is) r j (by simpa using hlen) hreach
  rwa [List.length_cons, Nat.add_sub_add_right] at hentry

theorem Entries.congr (h : Entries child Q σ n p) (hslots : ∀ i, i ∈ slots)
    (hσ : ∀ q ∈ pages child σ slots n p, ∀ i, σ' q i = σ q i) : Entries child Q σ' n p := by
  have hpage : ∀ (is : List I) r, is.length ≤ n → reach child σ p is = some r →
      ∀ i, σ' r i = σ r i :=
    fun is r hlen hr => hσ r ((mem_pages hslots).mpr ⟨is, hlen, hr⟩)
  intro is r i hlen hr
  have hold : reach child σ p is = some r := by
    rw [← hr]
    refine (reach_congr is fun pre j post he q hq => hpage pre q ?_ hq j).symm
    rw [he, List.length_append] at hlen
    omega
  rw [hpage is r hlen hold]
  exact h is r i hlen hold

end Radix
