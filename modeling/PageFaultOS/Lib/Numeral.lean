import Mathlib.Data.Nat.Digits.Lemmas
import Mathlib.Tactic

/-! Numerals in a base, from the left: without leading zeros, and of a fixed length. The loop that
finds the digits from the other end stops with the same ones, where it has room for them. -/

namespace Numeral

/-- The number that digits stand for, from the left. -/
def value (b : Nat) (l : List Nat) : Nat := l.foldl (fun v d => b * v + d) 0

/-- The digits of `n`; zero has one. -/
def numeral (b n : Nat) : List Nat := if n = 0 then [0] else (Nat.digits b n).reverse

/-- The last `k` digits of `n`, zeros included. -/
def fixed (b : Nat) : Nat → Nat → List Nat
  | 0, _ => []
  | k + 1, n => n / b ^ k % b :: fixed b k n

/-- `do digit (n % b) while ((n /= b) != 0)`, in a buffer with that much room. -/
def lowDigits (b : Nat) : Nat → Nat → Option (List Nat)
  | 0, _ => none
  | room + 1, n =>
    if n / b = 0 then some [n % b] else (lowDigits b room (n / b)).map (n % b :: ·)

variable {b : Nat}

theorem value_append_one (l : List Nat) (d : Nat) : value b (l ++ [d]) = b * value b l + d := by
  simp [value]

theorem value_foldl (l : List Nat) (v : Nat) :
    l.foldl (fun v d => b * v + d) v = v * b ^ l.length + value b l := by
  induction l generalizing v with
  | nil => simp [value]
  | cons d l ih =>
    have hvalue : value b (d :: l) = d * b ^ l.length + value b l := by
      rw [value, List.foldl_cons, ih, Nat.mul_zero, Nat.zero_add]
    rw [List.foldl_cons, ih, hvalue, List.length_cons, Nat.pow_succ]
    ring

theorem value_cons (d : Nat) (l : List Nat) :
    value b (d :: l) = d * b ^ l.length + value b l := by
  rw [value, List.foldl_cons, value_foldl, Nat.mul_zero, Nat.zero_add]

theorem numeral_of_lt {n : Nat} (h : n < b) : numeral b n = [n] := by
  by_cases h0 : n = 0
  · simp [numeral, h0]
  · simp [numeral, h0, Nat.digits_of_lt b n h0 h]

theorem numeral_of_le (hb : 2 ≤ b) {n : Nat} (h : b ≤ n) :
    numeral b n = numeral b (n / b) ++ [n % b] := by
  have hn : n ≠ 0 := by omega
  have hdiv : n / b ≠ 0 := Nat.pos_iff_ne_zero.mp (Nat.div_pos h (by omega))
  simp [numeral, hn, hdiv, Nat.digits_eq_cons_digits_div hb hn]

/-- Induction on the digits of a number. -/
theorem numeralInduction (hb : 2 ≤ b) {motive : Nat → Prop} (single : ∀ n, n < b → motive n)
    (more : ∀ n, b ≤ n → motive (n / b) → motive n) (n : Nat) : motive n := by
  induction n using Nat.strong_induction_on with
  | _ n ih =>
    rcases Nat.lt_or_ge n b with h | h
    · exact single n h
    · exact more n h (ih _ (Nat.div_lt_self (by omega) hb))

theorem value_numeral (hb : 2 ≤ b) (n : Nat) : value b (numeral b n) = n := by
  induction n using numeralInduction hb with
  | single n h => simp [numeral_of_lt h, value]
  | more n h ih => rw [numeral_of_le hb h, value_append_one, ih, Nat.div_add_mod]

theorem lt_of_mem_numeral (hb : 2 ≤ b) {n d : Nat} (hd : d ∈ numeral b n) : d < b := by
  induction n using numeralInduction hb with
  | single n h =>
    rw [numeral_of_lt h, List.mem_singleton] at hd
    omega
  | more n h ih =>
    rw [numeral_of_le hb h, List.mem_append, List.mem_singleton] at hd
    rcases hd with hd | rfl
    · exact ih hd
    · exact Nat.mod_lt _ (by omega)

theorem numeral_ne_nil (hb : 2 ≤ b) (n : Nat) : numeral b n ≠ [] := by
  induction n using numeralInduction hb with
  | single n h => simp [numeral_of_lt h]
  | more n h ih => simp [numeral_of_le hb h]

/-- A numeral is no longer than the power of the base above the number. -/
theorem length_numeral_le (hb : 2 ≤ b) {n k : Nat} (h : n < b ^ (k + 1)) :
    (numeral b n).length ≤ k + 1 := by
  induction n using numeralInduction hb generalizing k with
  | single n hn => simp [numeral_of_lt hn]
  | more n hn ih =>
    cases k with
    | zero =>
      rw [Nat.zero_add, Nat.pow_one] at h
      omega
    | succ k =>
      have hdiv : n / b < b ^ (k + 1) := by
        apply Nat.div_lt_of_lt_mul
        rwa [Nat.mul_comm, ← Nat.pow_succ]
      have hlen := ih hdiv
      rw [numeral_of_le hb hn, List.length_append, List.length_singleton]
      omega

/-- The loop finds the digits of the numeral, last one first. -/
theorem lowDigits_eq (hb : 2 ≤ b) {room n : Nat} (h : (numeral b n).length ≤ room) :
    lowDigits b room n = some (numeral b n).reverse := by
  induction room generalizing n with
  | zero => exact absurd (List.length_eq_zero_iff.mp (Nat.le_zero.mp h)) (numeral_ne_nil hb n)
  | succ room ih =>
    rcases Nat.lt_or_ge n b with hn | hn
    · simp [lowDigits, numeral_of_lt hn, Nat.div_eq_of_lt hn, Nat.mod_eq_of_lt hn]
    · have hdiv : ¬ n / b = 0 := (Nat.div_pos hn (by omega)).ne'
      rw [numeral_of_le hb hn, List.length_append, List.length_singleton] at h
      have hrest := ih (n := n / b) (by omega)
      simp [lowDigits, hdiv, hrest, numeral_of_le hb hn]

theorem lt_of_mem_fixed (hb : 0 < b) {k n d : Nat} (hd : d ∈ fixed b k n) : d < b := by
  induction k with
  | zero => cases hd
  | succ k ih =>
    rcases List.mem_cons.mp hd with rfl | hd
    · exact Nat.mod_lt _ hb
    · exact ih hd

@[simp] theorem length_fixed (k n : Nat) : (fixed b k n).length = k := by
  induction k with
  | zero => rfl
  | succ k ih => simp [fixed, ih]

/-- A fixed number of digits stands for the number up to a power of the base. -/
theorem value_fixed (k n : Nat) : value b (fixed b k n) = n % b ^ k := by
  induction k with
  | zero => simp [fixed, value, Nat.mod_one]
  | succ k ih =>
    rw [fixed, value_cons, ih, length_fixed, Nat.pow_succ, Nat.mod_mul, Nat.mul_comm, Nat.add_comm]

end Numeral
