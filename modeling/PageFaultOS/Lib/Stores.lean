import Mathlib.Tactic
import PageFaultOS.Lib.ByteMem

/-! Byte strings that are stored one after the other. Each byte is the one that was stored last,
whatever was there before. -/

namespace ByteMem

variable {m m' : Mem} {l l' : List (Nat × List UInt8)} {a b : Nat} {bs xs ys : List UInt8}

/-- Store each of the strings at its address. -/
def storeAll (m : Mem) (l : List (Nat × List UInt8)) : Mem :=
  l.foldl (fun m c => store m c.1 c.2) m

/-- The address is one of those of a string. -/
def Covers (l : List (Nat × List UInt8)) (b : Nat) : Prop :=
  ∃ c ∈ l, c.1 ≤ b ∧ b < c.1 + c.2.length

theorem storeAll_append (m : Mem) (l l' : List (Nat × List UInt8)) :
    storeAll m (l ++ l') = storeAll (storeAll m l) l' := List.foldl_append

theorem storeAll_cons (m : Mem) (c : Nat × List UInt8) (l : List (Nat × List UInt8)) :
    storeAll m (c :: l) = storeAll (store m c.1 c.2) l := rfl

theorem covers_cons {c : Nat × List UInt8} :
    Covers (c :: l) b ↔ c.1 ≤ b ∧ b < c.1 + c.2.length ∨ Covers l b := by
  simp only [Covers, List.mem_cons, exists_eq_or_imp]

theorem covers_append : Covers (l ++ l') b ↔ Covers l b ∨ Covers l' b := by
  constructor
  · rintro ⟨c, hc, hin⟩
    exact (List.mem_append.mp hc).imp (fun h => ⟨c, h, hin⟩) fun h => ⟨c, h, hin⟩
  · rintro (⟨c, hc, hin⟩ | ⟨c, hc, hin⟩)
    · exact ⟨c, List.mem_append_left _ hc, hin⟩
    · exact ⟨c, List.mem_append_right _ hc, hin⟩

theorem covers_single : Covers [(a, xs)] b ↔ a ≤ b ∧ b < a + xs.length := by
  constructor
  · rintro ⟨c, hc, hin⟩
    cases List.mem_singleton.mp hc
    exact hin
  · exact fun hin => ⟨_, List.mem_singleton_self _, hin⟩

/-- One address depends on what was there only. -/
theorem store_congr (h : m b = m' b) (a : Nat) (bs : List UInt8) :
    store m a bs b = store m' a bs b := by
  simp only [store, h]

theorem store_apply (m : Mem) (ha : a ≤ b) (hb : b < a + bs.length) :
    store m a bs b = bs.getD (b - a) 0 := by
  rw [store, if_pos ha, List.getD_eq_getElem?_getD, List.getElem?_eq_getElem (by omega)]
  rfl

theorem storeAll_congr (h : m b = m' b) (l : List (Nat × List UInt8)) :
    storeAll m l b = storeAll m' l b := by
  induction l generalizing m m' with
  | nil => exact h
  | cons c l ih => exact ih (store_congr h c.1 c.2)

theorem storeAll_outside (h : ¬ Covers l b) (m : Mem) : storeAll m l b = m b := by
  induction l generalizing m with
  | nil => rfl
  | cons c l ih =>
    rw [covers_cons, not_or] at h
    rw [storeAll_cons, ih h.2, store_apply_of_outside _ _ _ _ (by omega)]

/-- What is stored does not depend on what was there. -/
theorem storeAll_covered (h : Covers l b) (m m' : Mem) : storeAll m l b = storeAll m' l b := by
  induction l generalizing m m' with
  | nil =>
    obtain ⟨c, hc, _⟩ := h
    cases hc
  | cons c l ih =>
    by_cases hl : Covers l b
    · exact ih hl _ _
    · have hin := (covers_cons.mp h).resolve_right hl
      rw [storeAll_cons, storeAll_cons, storeAll_outside hl, storeAll_outside hl,
        store_apply m hin.1 hin.2, store_apply m' hin.1 hin.2]

/-- Two strings in a row are one string. -/
theorem storeAll_merge (m : Mem) (a : Nat) (xs ys : List UInt8) :
    storeAll m [(a, xs), (a + xs.length, ys)] = storeAll m [(a, xs ++ ys)] :=
  store_append m a xs ys

theorem covers_merge :
    Covers [(a, xs), (a + xs.length, ys)] b ↔ Covers [(a, xs ++ ys)] b := by
  have hnil : ¬ Covers [] b := by
    rintro ⟨c, hc, _⟩
    cases hc
  rw [covers_cons, covers_cons, covers_cons, or_iff_left hnil, or_iff_left hnil]
  simp only [List.length_append]
  omega

/-! ## Strings that make up one -/

/-- Stored one after the other, the strings are the one string at `a`. -/
structure Puts (a : Nat) (bs : List UInt8) (l : List (Nat × List UInt8)) : Prop where
  stored : ∀ m, storeAll m l = store m a bs
  covered : ∀ b, Covers l b ↔ a ≤ b ∧ b < a + bs.length

theorem puts_nil (a : Nat) : Puts a [] [] := by
  refine ⟨fun m => funext fun b => ?_, fun b => iff_of_false ?_ ?_⟩
  · exact (store_apply_of_outside _ _ _ _ (Nat.lt_or_ge _ _)).symm
  · rintro ⟨c, hc, _⟩
    cases hc
  · exact fun h => absurd h.2 (Nat.not_lt.mpr h.1)

theorem puts_single (a : Nat) (bs : List UInt8) : Puts a bs [(a, bs)] :=
  ⟨fun _ => rfl, fun _ => covers_single⟩

/-- The front is stored first. -/
theorem Puts.append (h : Puts a xs l) (h' : Puts (a + xs.length) ys l') :
    Puts a (xs ++ ys) (l ++ l') := by
  refine ⟨fun m => ?_, fun b => ?_⟩
  · rw [storeAll_append, h.stored, h'.stored, store_append]
  · rw [covers_append, h.covered, h'.covered, List.length_append]
    omega

/-- The front is stored last. -/
theorem Puts.prepend (h : Puts a xs l) (h' : Puts (a + xs.length) ys l') :
    Puts a (xs ++ ys) (l' ++ l) := by
  refine ⟨fun m => ?_, fun b => ?_⟩
  · rw [storeAll_append, h.stored, h'.stored, store_prepend]
  · rw [covers_append, h.covered, h'.covered, List.length_append]
    omega

end ByteMem
