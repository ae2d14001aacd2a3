import Mathlib.Tactic

/-! Radix trees kept in a store of pages. A page has one slot for each index,
`child` says which slots point to another page, and `reach` follows a list of
indices from a root. `Tree σ root n` is the absence of aliasing: no page is
reached by two index lists of length at most `n`. Writing a slot of a deepest
page changes no list (`reach_set_deepest`), and hanging a cleared page that was
not in the tree into an empty slot changes only the lists through that slot
(`reach_link_self`, `reach_link_other`, `reach_link_below`). With several roots, `Owned` says
which pages belong to one tree alone. -/

namespace Radix
variable {P I V : Type}

abbrev Store (P I V : Type) := P → I → V

/-- The page reached from `p` along `is`. -/
def reach (child : V → Option P) (σ : Store P I V) : P → List I → Option P
  | p, [] => some p
  | p, i :: is =>
    match child (σ p i) with
    | none => none
    | some q => reach child σ q is

def set [DecidableEq P] [DecidableEq I] (σ : Store P I V) (p : P) (i : I) (v : V) :
    Store P I V := fun q j => if q = p ∧ j = i then v else σ q j

def clear [DecidableEq P] (σ : Store P I V) (p : P) (z : V) : Store P I V :=
  fun q j => if q = p then z else σ q j

/-- No page is reached by two index lists of length at most `n`. -/
def Tree (child : V → Option P) (σ : Store P I V) (root : P) (n : Nat) : Prop :=
  ∀ is js p, is.length ≤ n → js.length ≤ n →
    reach child σ root is = some p → reach child σ root js = some p → is = js

/-- `q` is not a page of the tree. -/
def Fresh (child : V → Option P) (σ : Store P I V) (root : P) (n : Nat) (q : P) : Prop :=
  ∀ is, is.length ≤ n → reach child σ root is ≠ some q

variable {child : V → Option P} {σ σ' : Store P I V} {root p q : P} {i : I} {v z : V} {n : Nat}

@[simp] theorem reach_nil : reach child σ p [] = some p := rfl

theorem reach_cons (is : List I) :
    reach child σ p (i :: is) = (child (σ p i)).bind fun q => reach child σ q is := by
  rw [reach]
  cases child (σ p i) <;> rfl

theorem reach_append (is js : List I) :
    reach child σ p (is ++ js) =
      (reach child σ p is).bind fun q => reach child σ q js := by
  induction is generalizing p with
  | nil => rfl
  | cons i is ih =>
    rw [List.cons_append, reach_cons, reach_cons]
    cases child (σ p i) with
    | none => rfl
    | some q => exact ih

/-- A list reads only the slots on its way. -/
theorem reach_congr (is : List I)
    (h : ∀ pre j post, is = pre ++ j :: post →
      ∀ r, reach child σ root pre = some r → σ' r j = σ r j) :
    reach child σ' root is = reach child σ root is := by
  induction is generalizing root with
  | nil => rfl
  | cons i is ih =>
    have hslot : σ' root i = σ root i := h [] i is rfl root rfl
    rw [reach_cons, reach_cons, hslot]
    cases hc : child (σ root i) with
    | none => rfl
    | some q =>
      apply ih
      intro pre j post he r hr
      refine h (i :: pre) j post (by rw [he, List.cons_append]) r ?_
      rw [reach_cons, hc]
      exact hr

/-- An empty slot ends every list that goes through it. -/
theorem reach_through_empty {ip : List I} (hp : reach child σ root ip = some p)
    (hempty : child (σ p i) = none) (is : List I) (h : ip ++ [i] <+: is) :
    reach child σ root is = none := by
  obtain ⟨js, rfl⟩ := h
  rw [reach_append, reach_append, hp, Option.bind_some, reach_cons, hempty]
  rfl

private theorem ne_of_fresh {ip : List I} (hp : reach child σ root ip = some p)
    (hl : ip.length < n) (hq : Fresh child σ root n q) : p ≠ q := by
  rintro rfl
  exact hq ip (by omega) hp

theorem clear_other [DecidableEq P] {j : I} (h : q ≠ p) : clear σ p z q j = σ q j := if_neg h

@[simp] theorem clear_self [DecidableEq P] {j : I} : clear σ p z p j = z := if_pos rfl

section
variable [DecidableEq P] [DecidableEq I]

@[simp] theorem set_self : set σ p i v p i = v := by simp [set]

theorem set_other {j : I} (h : q = p → j ≠ i) : set σ p i v q j = σ q j := by
  rw [set, if_neg]
  rintro ⟨hq, hj⟩
  exact h hq hj

/-- Slots of a deepest page lead nowhere that `reach` goes. -/
theorem reach_set_deepest (ht : Tree child σ root n) {ip : List I}
    (hp : reach child σ root ip = some p) (hl : ip.length = n) (is : List I)
    (his : is.length ≤ n) : reach child (set σ p i v) root is = reach child σ root is := by
  apply reach_congr
  intro pre j post he r hr
  apply set_other
  rintro rfl
  have hlen : pre.length < n := by
    rw [he] at his
    simp only [List.length_append, List.length_cons] at his
    omega
  have := ht pre ip r (by omega) (by omega) hr hp
  rw [this] at hlen
  omega

theorem tree_set_deepest (ht : Tree child σ root n) {ip : List I}
    (hp : reach child σ root ip = some p) (hl : ip.length = n) :
    Tree child (set σ p i v) root n := by
  intro is js r h1 h2 hr1 hr2
  rw [reach_set_deepest ht hp hl is h1] at hr1
  rw [reach_set_deepest ht hp hl js h2] at hr2
  exact ht is js r h1 h2 hr1 hr2

/-- The store after a cleared page `q` is hung into slot `i` of `p`. -/
def link (σ : Store P I V) (p : P) (i : I) (v : V) (q : P) (z : V) : Store P I V :=
  set (clear σ q z) p i v

section link
variable {ip : List I} (ht : Tree child σ root n) (hp : reach child σ root ip = some p)
  (hl : ip.length < n) (hq : Fresh child σ root n q)
  (hv : child v = some q) (hz : child z = none)
include ht hp hl hq

/-- Lists that do not go through the new slot are as before. -/
theorem reach_link_other (is : List I) (his : is.length ≤ n)
    (hne : ¬ ip ++ [i] <+: is) :
    reach child (link σ p i v q z) root is = reach child σ root is := by
  apply reach_congr
  intro pre j post he r hr
  have hlen : pre.length ≤ n := by
    rw [he, List.length_append] at his
    omega
  have hrq : r ≠ q := by
    rintro rfl
    exact hq pre hlen hr
  rw [link, set_other, clear_other hrq]
  rintro rfl rfl
  have hpre := ht pre ip r hlen (by omega) hr hp
  apply hne
  exact ⟨post, by rw [he, hpre, List.append_assoc, List.singleton_append]⟩

private theorem reach_link_prefix :
    reach child (link σ p i v q z) root ip = some p := by
  rw [reach_link_other ht hp hl hq ip (by omega), hp]
  intro hpre
  have := hpre.length_le
  simp only [List.length_append, List.length_singleton] at this
  omega

include hv in
/-- The new page is reached through the new slot. -/
theorem reach_link_self : reach child (link σ p i v q z) root (ip ++ [i]) = some q := by
  rw [reach_append, reach_link_prefix ht hp hl hq, Option.bind_some, reach_cons, link, set_self,
    hv]
  rfl

include hv hz in
/-- Below the new page there is nothing yet. -/
theorem reach_link_below (j : I) (js : List I) :
    reach child (link σ p i v q z) root (ip ++ [i] ++ j :: js) = none := by
  have hne : p ≠ q := ne_of_fresh hp hl hq
  rw [reach_append, reach_link_self ht hp hl hq hv, Option.bind_some, reach_cons, link,
    set_other (fun h => absurd h.symm hne), clear_self, hz]
  rfl

include hv hz in
theorem reach_link_eq (is : List I) (his : is.length ≤ n) (r : P)
    (hr : reach child (link σ p i v q z) root is = some r) :
    (is = ip ++ [i] ∧ r = q) ∨ reach child σ root is = some r := by
  by_cases hpre : ip ++ [i] <+: is
  · obtain ⟨js, rfl⟩ := hpre
    cases js with
    | nil =>
      rw [List.append_nil, reach_link_self ht hp hl hq hv] at hr
      exact Or.inl ⟨by simp, by simpa using hr.symm⟩
    | cons j js =>
      rw [reach_link_below ht hp hl hq hv hz] at hr
      cases hr
  · rw [reach_link_other ht hp hl hq is his hpre] at hr
    exact Or.inr hr

include hv hz in
/-- The new slot is the only list that now leads somewhere. -/
theorem reach_link_none_iff (hempty : child (σ p i) = none) (is : List I) (his : is.length ≤ n) :
    reach child (link σ p i v q z) root is = none ↔
      reach child σ root is = none ∧ is ≠ ip ++ [i] := by
  by_cases hpre : ip ++ [i] <+: is
  · have hold := reach_through_empty hp hempty is hpre
    obtain ⟨js, rfl⟩ := hpre
    cases js with
    | nil =>
      rw [List.append_nil, reach_link_self ht hp hl hq hv]
      simp
    | cons j js =>
      rw [reach_link_below ht hp hl hq hv hz]
      exact iff_of_true rfl ⟨hold, by simp⟩
  · rw [reach_link_other ht hp hl hq is his hpre]
    exact ⟨fun h => ⟨h, fun he => hpre (he ▸ List.prefix_refl _)⟩, And.left⟩

include hv hz in
theorem tree_link : Tree child (link σ p i v q z) root n := by
  intro is js r h1 h2 hr1 hr2
  have e1 := reach_link_eq ht hp hl hq hv hz is h1 r hr1
  have e2 := reach_link_eq ht hp hl hq hv hz js h2 r hr2
  rcases e1 with ⟨hi, hrq⟩ | e1 <;> rcases e2 with ⟨hj, hrq'⟩ | e2
  · rw [hi, hj]
  · exact absurd (hrq ▸ e2) (hq js h2)
  · exact absurd (hrq' ▸ e1) (hq is h1)
  · exact ht is js r h1 h2 e1 e2

end link

/-! ### Several trees in one store -/

/-- Each page is reached at one depth only, from whichever of the roots. -/
def Leveled (child : V → Option P) (σ : Store P I V) (roots : Set P) (n : Nat) : Prop :=
  ∀ root ∈ roots, ∀ root' ∈ roots, ∀ is js p, is.length ≤ n → js.length ≤ n →
    reach child σ root is = some p → reach child σ root' js = some p → is.length = js.length

section Leveled
variable {roots : Set P} {ip : List I} {root' : P} (hlv : Leveled child σ roots n)
  (hroot' : root' ∈ roots) (hp : reach child σ root' ip = some p)

section
include hlv hroot' hp

/-- Slots of a deepest page lead nowhere from any of the roots. -/
theorem reach_set_leaf (hl : ip.length = n) (hroot : root ∈ roots) (is : List I)
    (his : is.length ≤ n) : reach child (set σ p i v) root is = reach child σ root is := by
  apply reach_congr
  intro pre j post he r hr
  apply set_other
  rintro rfl
  have hlen : pre.length < n := by
    rw [he] at his
    simp only [List.length_append, List.length_cons] at his
    omega
  have := hlv root hroot root' hroot' pre ip r (by omega) (by omega) hr hp
  omega

theorem leveled_set_leaf (hl : ip.length = n) : Leveled child (set σ p i v) roots n := by
  intro r1 h1 r2 h2 is js r his hjs hr1 hr2
  rw [reach_set_leaf hlv hroot' hp hl h1 is his] at hr1
  rw [reach_set_leaf hlv hroot' hp hl h2 js hjs] at hr2
  exact hlv r1 h1 r2 h2 is js r his hjs hr1 hr2

end

variable (hempty : child (σ p i) = none) (hq : ∀ root ∈ roots, Fresh child σ root n q)
  (hpq : p ≠ q) (hv : child v = some q) (hz : child z = none)

include hempty hq in
/-- Every page that was reached still is. -/
theorem reach_link_old (hroot : root ∈ roots) (is : List I) (his : is.length ≤ n) {r : P}
    (hr : reach child σ root is = some r) :
    reach child (link σ p i v q z) root is = some r := by
  rw [← hr]
  apply reach_congr
  intro pre j post he r' hr'
  have hlen : pre.length ≤ n := by
    rw [he, List.length_append] at his
    omega
  have hrq : r' ≠ q := by
    rintro rfl
    exact hq root hroot pre hlen hr'
  rw [link, set_other, clear_other hrq]
  rintro rfl rfl
  have hnone := reach_through_empty hr' hempty is ⟨post, by rw [he]; simp⟩
  rw [hnone] at hr
  cases hr

include hq hpq hv hz in
/-- What is reached after linking `q`: `q` itself, or what was reached before. -/
theorem reach_link_inv (hroot : root ∈ roots) (is : List I) (his : is.length ≤ n) {r : P}
    (hr : reach child (link σ p i v q z) root is = some r) :
    (r = q ∧ ∃ ip, is = ip ++ [i] ∧ reach child σ root ip = some p) ∨
      reach child σ root is = some r := by
  induction is using List.reverseRecOn generalizing r with
  | nil => exact Or.inr hr
  | append_singleton pre j ih =>
    have hlen : pre.length ≤ n := by
      rw [List.length_append] at his
      omega
    rw [reach_append] at hr
    cases hpre : reach child (link σ p i v q z) root pre with
    | none =>
      rw [hpre] at hr
      cases hr
    | some p' =>
      rw [hpre, Option.bind_some, reach_cons] at hr
      rcases ih hlen hpre with ⟨rfl, _⟩ | hold
      · rw [link, set_other (fun h => absurd h.symm hpq), clear_self, hz] at hr
        cases hr
      · have hpq' : p' ≠ q := by
          rintro rfl
          exact hq root hroot pre hlen hold
        by_cases hslot : p' = p ∧ j = i
        · obtain ⟨rfl, rfl⟩ := hslot
          rw [link, set_self, hv] at hr
          exact Or.inl ⟨by simpa using hr.symm, pre, rfl, hold⟩
        · rw [link, set_other (fun h1 h2 => hslot ⟨h1, h2⟩), clear_other hpq'] at hr
          refine Or.inr ?_
          rw [reach_append, hold, Option.bind_some, reach_cons]
          exact hr

include hlv hq hpq hv hz in
theorem leveled_link : Leveled child (link σ p i v q z) roots n := by
  intro r1 h1 r2 h2 is js r his hjs hr1 hr2
  have e1 := reach_link_inv hq hpq hv hz h1 is his hr1
  have e2 := reach_link_inv hq hpq hv hz h2 js hjs hr2
  rcases e1 with ⟨hrq1, ip1, rfl, hp1⟩ | e1 <;> rcases e2 with ⟨hrq2, ip2, rfl, hp2⟩ | e2
  · rw [List.length_append] at his hjs
    rw [List.length_append, List.length_append,
      hlv r1 h1 r2 h2 ip1 ip2 p (by omega) (by omega) hp1 hp2]
  · exact absurd (hrq1 ▸ e2) (hq r2 h2 js hjs)
  · exact absurd (hrq2 ▸ e1) (hq r1 h1 is his)
  · exact hlv r1 h1 r2 h2 is js r his hjs e1 e2

include hq hpq hv hz in
theorem fresh_link (hroot : root ∈ roots) {r : P} (hr : Fresh child σ root n r) (hrq : r ≠ q) :
    Fresh child (link σ p i v q z) root n r := by
  intro is his h
  rcases reach_link_inv hq hpq hv hz hroot is his h with ⟨e, _⟩ | hold
  · exact hrq e
  · exact hr is his hold

/-! ### Pages of one tree only -/

/-- A page that a list of `U` reaches from `root` is reached in no other way. -/
def Owned (child : V → Option P) (σ : Store P I V) (roots : Set P) (root : P) (n : Nat)
    (U : List I → Prop) : Prop :=
  ∀ is p, U is → is.length ≤ n → reach child σ root is = some p →
    ∀ root' ∈ roots, ∀ js, js.length ≤ n → reach child σ root' js = some p →
      root' = root ∧ js = is

variable {U : List I → Prop}

include hq hpq hv hz in
theorem owned_link (hU : ∀ is i, U (is ++ [i]) → U is) (hroot : root ∈ roots)
    (h : Owned child σ roots root n U) : Owned child (link σ p i v q z) roots root n U := by
  intro is r hin his hr r' hr' js hjs hrj
  have e1 := reach_link_inv hq hpq hv hz hroot is his hr
  have e2 := reach_link_inv hq hpq hv hz hr' js hjs hrj
  rcases e1 with ⟨hrq1, ip1, rfl, hp1⟩ | e1 <;> rcases e2 with ⟨hrq2, ip2, rfl, hp2⟩ | e2
  · rw [List.length_append] at his hjs
    obtain ⟨rfl, rfl⟩ := h ip1 p (hU _ _ hin) (by omega) hp1 r' hr' ip2 (by omega) hp2
    exact ⟨rfl, rfl⟩
  · exact absurd (hrq1 ▸ e2) (hq r' hr' js hjs)
  · exact absurd (hrq2 ▸ e1) (hq root hroot is his)
  · exact h is r hin his e1 r' hr' js hjs e2

include hlv hroot' hp in
theorem owned_set_leaf (hl : ip.length = n) (hroot : root ∈ roots)
    (h : Owned child σ roots root n U) : Owned child (set σ p i v) roots root n U := by
  intro is r hin his hr r' hr' js hjs hrj
  rw [reach_set_leaf hlv hroot' hp hl hroot is his] at hr
  rw [reach_set_leaf hlv hroot' hp hl hr' js hjs] at hrj
  exact h is r hin his hr r' hr' js hjs hrj

end Leveled
end

end Radix
