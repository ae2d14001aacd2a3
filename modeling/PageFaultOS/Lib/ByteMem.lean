import Mathlib.Tactic

/-! Flat byte memory with little-endian words. Addresses are natural numbers;
`fill` and `move` are the effects of `memset` and `memmove`. -/

namespace ByteMem

abbrev Mem := Nat → UInt8

/-- The little-endian number in the `n` bytes from `a`. -/
def readLE (m : Mem) (a : Nat) : Nat → Nat
  | 0 => 0
  | n + 1 => (m a).toNat + 256 * readLE m (a + 1) n

def writeLE (m : Mem) (a n v : Nat) : Mem := fun b =>
  if a ≤ b ∧ b < a + n then UInt8.ofNat (v / 256 ^ (b - a)) else m b

def readWord (m : Mem) (a : Nat) : Nat := readLE m a 8

def writeWord (m : Mem) (a v : Nat) : Mem := writeLE m a 8 v

def fill (m : Mem) (a n : Nat) (c : UInt8) : Mem := fun b =>
  if a ≤ b ∧ b < a + n then c else m b

def move (m : Mem) (dst src n : Nat) : Mem := fun b =>
  if dst ≤ b ∧ b < dst + n then m (src + (b - dst)) else m b

/-- Store the bytes of a list from `a` on. -/
def store (m : Mem) (a : Nat) (bs : List UInt8) : Mem := fun b =>
  if a ≤ b then (bs[b - a]?).getD (m b) else m b

/-- The `n` bytes from `a`. -/
def load (m : Mem) (a n : Nat) : List UInt8 := (List.range n).map fun i => m (a + i)

theorem readLE_lt (m : Mem) (a n : Nat) : readLE m a n < 256 ^ n := by
  induction n generalizing a with
  | zero => simp [readLE]
  | succ n ih =>
    have h := ih (a + 1)
    have hb := (m a).toNat_lt
    rw [readLE, Nat.pow_succ]
    omega

theorem readLE_congr {m m' : Mem} {a n : Nat}
    (h : ∀ b, a ≤ b → b < a + n → m b = m' b) : readLE m a n = readLE m' a n := by
  induction n generalizing a with
  | zero => rfl
  | succ n ih =>
    have hrest := ih (a := a + 1) (fun b h1 h2 => h b (by omega) (by omega))
    rw [readLE, readLE, hrest, h a (by omega) (by omega)]

theorem readLE_shift {m m' : Mem} {a b n : Nat} (h : ∀ i < n, m (a + i) = m' (b + i)) :
    readLE m a n = readLE m' b n := by
  induction n generalizing a b with
  | zero => rfl
  | succ n ih =>
    have hrest : readLE m (a + 1) n = readLE m' (b + 1) n := ih fun i hi => by
      have hi' := h (i + 1) (by omega)
      rw [Nat.add_right_comm, Nat.add_right_comm b]
      exact hi'
    rw [readLE, readLE, hrest, show m a = m' b from h 0 (Nat.succ_pos n)]

theorem readWord_congr {m m' : Mem} {a : Nat}
    (h : ∀ b, a ≤ b → b < a + 8 → m b = m' b) : readWord m a = readWord m' a :=
  readLE_congr h

private theorem readLE_of_bytes (m : Mem) (a n v : Nat)
    (h : ∀ k, k < n → m (a + k) = UInt8.ofNat (v / 256 ^ k)) :
    readLE m a n = v % 256 ^ n := by
  induction n generalizing a v with
  | zero => simp [readLE, Nat.mod_one]
  | succ n ih =>
    have hhead : (m a).toNat = v % 256 := by
      have h0 := h 0 (by omega)
      simp only [Nat.add_zero, Nat.pow_zero, Nat.div_one] at h0
      rw [h0, UInt8.toNat_ofNat']
    have htail := ih (a + 1) (v / 256) (fun k hk => by
      rw [show a + 1 + k = a + (k + 1) by omega, h (k + 1) (by omega), Nat.pow_succ',
        Nat.div_div_eq_div_mul])
    rw [readLE, hhead, htail, Nat.pow_succ', Nat.mod_mul]

theorem readLE_writeLE (m : Mem) (a n v : Nat) :
    readLE (writeLE m a n v) a n = v % 256 ^ n := by
  apply readLE_of_bytes
  intro k hk
  rw [writeLE, if_pos (by omega), Nat.add_sub_cancel_left]

/-- The bytes of the number that is read are the bytes that are there. -/
theorem readLE_byte (m : Mem) (a n k : Nat) (hk : k < n) :
    UInt8.ofNat (readLE m a n / 256 ^ k) = m (a + k) := by
  induction n generalizing a k with
  | zero => omega
  | succ n ih =>
    have hb := (m a).toNat_lt
    cases k with
    | zero =>
      simp only [readLE, Nat.pow_zero, Nat.div_one, Nat.add_zero]
      apply UInt8.toNat_inj.mp
      rw [UInt8.toNat_ofNat']
      omega
    | succ k =>
      have hdiv : readLE m a (n + 1) / 256 = readLE m (a + 1) n := by
        rw [readLE]
        omega
      rw [Nat.pow_succ', ← Nat.div_div_eq_div_mul, hdiv, ih (a + 1) k (by omega)]
      congr 1
      omega

/-- Storing the number that is there changes nothing. -/
theorem writeLE_readLE (m : Mem) (a n : Nat) : writeLE m a n (readLE m a n) = m := by
  funext b
  unfold writeLE
  split
  · rw [readLE_byte m a n (b - a) (by omega)]
    congr 1
    omega
  · rfl

theorem writeWord_readWord (m : Mem) (a : Nat) : writeWord m a (readWord m a) = m :=
  writeLE_readLE m a 8

theorem readLE_writeLE_of_disjoint (m : Mem) (a n v b k : Nat) (h : b + k ≤ a ∨ a + n ≤ b) :
    readLE (writeLE m a n v) b k = readLE m b k := by
  apply readLE_congr
  intro c hc hc'
  rw [writeLE, if_neg (by omega)]

@[simp] theorem readWord_writeWord (m : Mem) (a v : Nat) :
    readWord (writeWord m a v) a = v % 2 ^ 64 := readLE_writeLE m a 8 v

/-- Bytes outside a store are unchanged. -/
theorem writeWord_apply_of_outside (m : Mem) (a v b : Nat) (h : b < a ∨ a + 8 ≤ b) :
    writeWord m a v b = m b := by
  rw [writeWord, writeLE, if_neg (by omega)]

theorem readWord_writeWord_of_disjoint (m : Mem) (a v b : Nat)
    (h : b + 8 ≤ a ∨ a + 8 ≤ b) : readWord (writeWord m a v) b = readWord m b :=
  readWord_congr fun c _ _ => writeWord_apply_of_outside m a v c (by omega)

theorem fill_apply_of_outside (m : Mem) (a n : Nat) (c : UInt8) (b : Nat)
    (h : b < a ∨ a + n ≤ b) : fill m a n c b = m b := by
  rw [fill, if_neg (by omega)]

theorem readWord_fill_of_disjoint (m : Mem) (a n : Nat) (c : UInt8) (b : Nat)
    (h : b + 8 ≤ a ∨ a + n ≤ b) : readWord (fill m a n c) b = readWord m b :=
  readWord_congr fun d _ _ => fill_apply_of_outside m a n c d (by omega)

private theorem readLE_zero (m : Mem) (a n : Nat) (h : ∀ b, a ≤ b → b < a + n → m b = 0) :
    readLE m a n = 0 := by
  induction n generalizing a with
  | zero => rfl
  | succ n ih =>
    rw [readLE, h a (by omega) (by omega), ih (a + 1) (fun b h1 h2 => h b (by omega) (by omega))]
    rfl

/-- A zero-filled range reads as zero words. -/
theorem readWord_fill_zero (m : Mem) (a n b : Nat) (h1 : a ≤ b) (h2 : b + 8 ≤ a + n) :
    readWord (fill m a n 0) b = 0 := by
  apply readLE_zero
  intro c hc hc'
  rw [fill, if_pos (by omega)]

theorem move_apply_of_outside (m : Mem) (dst src n b : Nat) (h : b < dst ∨ dst + n ≤ b) :
    move m dst src n b = m b := by
  rw [move, if_neg (by omega)]

theorem move_apply (m : Mem) (dst src n i : Nat) (h : i < n) :
    move m dst src n (dst + i) = m (src + i) := by
  rw [move, if_pos (by omega), Nat.add_sub_cancel_left]

theorem store_apply_of_outside (m : Mem) (a : Nat) (bs : List UInt8) (b : Nat)
    (h : b < a ∨ a + bs.length ≤ b) : store m a bs b = m b := by
  unfold store
  split
  · rw [List.getElem?_eq_none (by omega), Option.getD_none]
  · rfl

/-- Bytes stored behind others. -/
theorem store_append (m : Mem) (a : Nat) (xs ys : List UInt8) :
    store (store m a xs) (a + xs.length) ys = store m a (xs ++ ys) := by
  funext b
  simp only [store, List.getElem?_append]
  by_cases hlt : b < a
  · rw [if_neg (by omega), if_neg (by omega), if_neg (by omega)]
  · by_cases hin : b - a < xs.length
    · rw [if_neg (by omega), if_pos (by omega), if_pos (by omega), if_pos hin]
    · have hxs : xs[b - a]? = none := List.getElem?_eq_none (by omega)
      rw [if_pos (by omega), if_pos (by omega), if_pos (by omega), if_neg hin, hxs,
        Option.getD_none, Nat.sub_sub]

/-- Bytes stored in front of others. -/
theorem store_prepend (m : Mem) (a : Nat) (xs ys : List UInt8) :
    store (store m (a + xs.length) ys) a xs = store m a (xs ++ ys) := by
  funext b
  simp only [store, List.getElem?_append]
  by_cases hlt : a ≤ b
  · rw [if_pos hlt, if_pos hlt]
    by_cases hin : b - a < xs.length
    · rw [if_pos hin, List.getElem?_eq_getElem hin]
      rfl
    · have hxs : xs[b - a]? = none := List.getElem?_eq_none (by omega)
      have hbehind : a + xs.length ≤ b := by omega
      rw [if_neg hin, if_pos hbehind, hxs, Option.getD_none, Nat.sub_sub]
  · have hbefore : ¬ a + xs.length ≤ b := by omega
    rw [if_neg hlt, if_neg hlt, if_neg hbefore]

@[simp] theorem load_length (m : Mem) (a n : Nat) : (load m a n).length = n := by simp [load]

/-- Memory that holds the given words and zeros elsewhere. -/
def wordsAt : List (Nat × Nat) → Mem
  | [] => fun _ => 0
  | q :: l => writeWord (wordsAt l) q.1 q.2

theorem readWord_wordsAt {l : List (Nat × Nat)} (hl : ∀ q ∈ l, q.1 % 8 = 0 ∧ q.2 < 2 ^ 64)
    {a : Nat} (ha : a % 8 = 0) :
    readWord (wordsAt l) a = ((l.find? fun q => q.1 = a).map Prod.snd).getD 0 := by
  induction l with
  | nil =>
    have hfill := readWord_fill_zero (fun _ => 0) a 8 a (Nat.le_refl a) (Nat.le_refl _)
    rw [← hfill]
    exact readWord_congr fun b _ _ => (ite_self (0 : UInt8)).symm
  | cons q l ih =>
    have hq := hl q List.mem_cons_self
    rw [wordsAt]
    by_cases heq : q.1 = a
    · subst heq
      rw [readWord_writeWord, Nat.mod_eq_of_lt hq.2, List.find?_cons_of_pos (by simp)]
      rfl
    · rw [readWord_writeWord_of_disjoint _ _ _ _ (by omega),
        List.find?_cons_of_neg (by simpa using heq),
        ih fun q hq => hl q (List.mem_cons_of_mem _ hq)]

-- proofs go through the lemmas above: evaluating a word byte by byte is slow
attribute [irreducible] readWord writeWord

end ByteMem
