import Mathlib.Tactic

/-! Reference counts. Finitely many holders point to an object each or to nothing, and
`refs` is the number of those that point to one. -/

namespace Refs
variable {ι α : Type} [DecidableEq α]
variable {holders : Finset ι} {points : ι → Option α}

/-- The number of holders that point to `a`. -/
def refs (holders : Finset ι) (points : ι → Option α) (a : α) : Nat :=
  (holders.filter fun i => points i = some a).card

theorem refs_congr {points' : ι → Option α} (h : ∀ i ∈ holders, points' i = points i) (a : α) :
    refs holders points' a = refs holders points a := by
  unfold refs
  congr 1
  refine Finset.filter_congr fun i hi => ?_
  rw [h i hi]

theorem refs_eq_zero {a : α} : refs holders points a = 0 ↔ ∀ i ∈ holders, points i ≠ some a := by
  unfold refs
  rw [Finset.card_eq_zero, Finset.filter_eq_empty_iff]

/-- A holder of nothing takes hold of `a`. -/
theorem refs_take [DecidableEq ι] {i : ι} (hi : i ∈ holders) (hnone : points i = none) (a b : α) :
    refs holders (Function.update points i (some a)) b =
      refs holders points b + if b = a then 1 else 0 := by
  unfold refs
  by_cases hba : b = a
  · subst hba
    have hset : (holders.filter fun j => Function.update points i (some b) j = some b) =
        insert i (holders.filter fun j => points j = some b) := by
      ext j
      by_cases hji : j = i
      · subst hji
        simp [hi]
      · simp [hji]
    rw [hset, if_pos rfl, Finset.card_insert_of_notMem]
    simp [hnone]
  · rw [if_neg hba, Nat.add_zero]
    congr 1
    refine Finset.filter_congr fun j _ => ?_
    by_cases hji : j = i
    · subst hji
      simp [hnone, Ne.symm hba]
    · simp [hji]

/-- A holder lets go of `a`. -/
theorem refs_drop [DecidableEq ι] {i : ι} (hi : i ∈ holders) {a : α} (hold : points i = some a)
    (b : α) : refs holders points b =
      refs holders (Function.update points i none) b + if b = a then 1 else 0 := by
  have hnone : Function.update points i none i = none := Function.update_self ..
  have htake := refs_take hi hnone a b
  rwa [Function.update_idem, ← hold, Function.update_eq_self] at htake

end Refs
