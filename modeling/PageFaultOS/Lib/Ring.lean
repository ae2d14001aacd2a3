import Mathlib.Tactic

/-! A circular buffer of `cap` cells with two counters that run modulo `m` and are never
brought back to the size of the buffer. It works across a wrap of the counters as long as
`cap` divides `m`, and is smaller or one cell is kept empty. -/

namespace Ring

structure Buffer (α : Type) where
  nread : Nat
  nwrite : Nat
  cell : Nat → α

/-- What the buffer relies on: the counters' range is a proper multiple of its size. -/
structure Fits (m cap : Nat) : Prop where
  dvd : cap ∣ m
  lt : cap < m
  pos : 0 < cap

variable {α : Type} (m cap : Nat)

/-- The number of items, from counters that may have wrapped. -/
def count (b : Buffer α) : Nat := (b.nwrite + m - b.nread) % m

/-- The items, oldest first. -/
def contents (b : Buffer α) : List α :=
  (List.range (count m b)).map fun k => b.cell ((b.nread + k) % m % cap)

def push (b : Buffer α) (a : α) : Buffer α :=
  { b with nwrite := (b.nwrite + 1) % m, cell := Function.update b.cell (b.nwrite % cap) a }

def pop (b : Buffer α) : Buffer α := { b with nread := (b.nread + 1) % m }

/-- The youngest item is taken back. -/
def unpush (b : Buffer α) : Buffer α := { b with nwrite := (b.nwrite + (m - 1)) % m }

structure Valid (b : Buffer α) : Prop where
  nread_lt : b.nread < m
  nwrite_lt : b.nwrite < m
  bounded : count m b ≤ cap

variable {m cap} {b : Buffer α}

@[simp] theorem contents_length : (contents m cap b).length = count m b := by
  simp [contents]

/-- How the write counter is ahead of the read counter, whether or not it has wrapped. -/
theorem Valid.nwrite_eq (h : Valid m cap b) : (b.nread + count m b) % m = b.nwrite := by
  have h1 := h.nread_lt
  have h2 := h.nwrite_lt
  unfold Ring.count
  by_cases hle : b.nread ≤ b.nwrite
  · have hsub : b.nwrite + m - b.nread = b.nwrite - b.nread + m := by omega
    rw [hsub, Nat.add_mod_right, Nat.mod_eq_of_lt (show b.nwrite - b.nread < m by omega),
      show b.nread + (b.nwrite - b.nread) = b.nwrite by omega, Nat.mod_eq_of_lt h2]
  · rw [Nat.mod_eq_of_lt (show b.nwrite + m - b.nread < m by omega),
      show b.nread + (b.nwrite + m - b.nread) = b.nwrite + m by omega, Nat.add_mod_right,
      Nat.mod_eq_of_lt h2]

theorem count_eq_of_add {k : Nat} (h1 : b.nread < m) (hk : k < m)
    (h : (b.nread + k) % m = b.nwrite) : count m b = k := by
  unfold count
  by_cases hlt : b.nread + k < m
  · rw [Nat.mod_eq_of_lt hlt] at h
    rw [show b.nwrite + m - b.nread = k + m by omega, Nat.add_mod_right, Nat.mod_eq_of_lt hk]
  · rw [Nat.mod_eq_sub_mod (by omega), Nat.mod_eq_of_lt (by omega)] at h
    rw [show b.nwrite + m - b.nread = k by omega, Nat.mod_eq_of_lt hk]

/-- The test for an empty buffer. -/
theorem Valid.empty_iff (h : Valid m cap b) : b.nread = b.nwrite ↔ count m b = 0 := by
  have h1 := h.nread_lt
  constructor
  · intro heq
    exact count_eq_of_add h1 (by omega) ((Nat.mod_eq_of_lt h1).trans heq)
  · intro h0
    have := h.nwrite_eq
    rwa [h0, Nat.add_zero, Nat.mod_eq_of_lt h1] at this

/-- The test for a full buffer, which adds its size to the read counter modulo `m`. -/
theorem Valid.full_iff (hf : Fits m cap) (h : Valid m cap b) :
    b.nwrite = (b.nread + cap) % m ↔ count m b = cap := by
  constructor
  · intro heq
    exact count_eq_of_add h.nread_lt hf.lt heq.symm
  · intro hc
    rw [← h.nwrite_eq, hc]

/-- The test for a buffer in which one more item would bring the counters together. -/
theorem Valid.last_iff (h : Valid m cap b) : (b.nwrite + 1) % m = b.nread ↔ count m b + 1 = m := by
  have h1 := h.nread_lt
  have hcm : count m b < m := Nat.mod_lt _ (by omega)
  rw [← h.nwrite_eq, Nat.mod_add_mod, Nat.add_assoc]
  by_cases hlt : b.nread + (count m b + 1) < m
  · rw [Nat.mod_eq_of_lt hlt]
    omega
  · rw [Nat.mod_eq_sub_mod (by omega), Nat.mod_eq_of_lt (by omega)]
    omega

/-- A push appends where there is a free cell and the counters do not come together. -/
theorem Valid.pushed_of_lt (hdvd : cap ∣ m) (h : Valid m cap b) (hroom : count m b < cap)
    (hnext : count m b + 1 < m) (a : α) : Valid m cap (push m cap b a) ∧
      contents m cap (Ring.push m cap b a) = contents m cap b ++ [a] := by
  have hnw := h.nwrite_eq
  have hcount : count m (Ring.push m cap b a) = count m b + 1 := by
    refine count_eq_of_add (b := Ring.push m cap b a) h.nread_lt (by omega) ?_
    show (b.nread + (count m b + 1)) % m = (b.nwrite + 1) % m
    rw [← hnw, Nat.mod_add_mod, Nat.add_assoc]
  refine ⟨⟨h.nread_lt, Nat.mod_lt _ (by omega), by omega⟩, ?_⟩
  unfold contents
  rw [hcount, List.range_succ, List.map_append]
  have hslot : ∀ k, (b.nread + k) % m % cap = (b.nread + k) % cap :=
    fun k => Nat.mod_mod_of_dvd _ hdvd
  have hlast : (b.nread + count m b) % cap = b.nwrite % cap := by
    rw [← hslot, hnw]
  congr 1
  · apply List.map_congr_left
    intro k hk
    have hk' := List.mem_range.mp hk
    -- the cell written is the one behind the last item, which no item occupies
    have hne : (b.nread + k) % m % cap ≠ b.nwrite % cap := by
      rw [hslot, ← hlast]
      intro heq
      have hmod : k ≡ count m b [MOD cap] := Nat.ModEq.add_left_cancel' b.nread heq
      have := Nat.ModEq.eq_of_lt_of_lt hmod (by omega) hroom
      omega
    exact Function.update_of_ne hne _ _
  · simp only [List.map_cons, List.map_nil, Ring.push]
    rw [hslot, hlast, Function.update_self]

/-- A push into a buffer that is not full appends. -/
theorem Valid.pushed (hf : Fits m cap) (h : Valid m cap b) (hroom : count m b < cap) (a : α) :
    Valid m cap (push m cap b a) ∧
      contents m cap (Ring.push m cap b a) = contents m cap b ++ [a] :=
  h.pushed_of_lt hf.dvd hroom (Nat.lt_of_le_of_lt hroom hf.lt) a

/-- A pop of a buffer that is not empty takes the oldest item. -/
theorem Valid.popped (h : Valid m cap b) (hsome : count m b ≠ 0) :
    Valid m cap (pop m b) ∧
      contents m cap b = b.cell (b.nread % cap) :: contents m cap (Ring.pop m b) := by
  have h1 := h.nread_lt
  have hcm : count m b < m := Nat.mod_lt _ (by omega)
  have hcap := h.bounded
  have hcount : count m (Ring.pop m b) = count m b - 1 := by
    refine count_eq_of_add (b := Ring.pop m b) (Nat.mod_lt _ (by omega)) (by omega) ?_
    show ((b.nread + 1) % m + (count m b - 1)) % m = b.nwrite
    rw [Nat.mod_add_mod, show b.nread + 1 + (count m b - 1) = b.nread + count m b by omega]
    exact h.nwrite_eq
  refine ⟨⟨Nat.mod_lt _ (by omega), h.nwrite_lt, by omega⟩, ?_⟩
  unfold contents
  rw [hcount, show count m b = (count m b - 1) + 1 by omega, List.range_succ_eq_map,
    List.map_cons, List.map_map]
  congr 1
  · rw [Nat.add_zero, Nat.mod_eq_of_lt h1]
  · simp only [Nat.add_sub_cancel]
    apply List.map_congr_left
    intro k hk
    show b.cell ((b.nread + (k + 1)) % m % cap) = b.cell (((b.nread + 1) % m + k) % m % cap)
    rw [Nat.mod_add_mod, show b.nread + (k + 1) = b.nread + 1 + k by omega]

theorem Valid.unpushed (h : Valid m cap b) (hsome : count m b ≠ 0) :
    Valid m cap (unpush m b) ∧ contents m cap (Ring.unpush m b) = (contents m cap b).dropLast := by
  have h1 := h.nread_lt
  have hcm : count m b < m := Nat.mod_lt _ (by omega)
  have hcap := h.bounded
  have hcount : count m (Ring.unpush m b) = count m b - 1 := by
    refine count_eq_of_add (b := Ring.unpush m b) h1 (by omega) ?_
    show (b.nread + (count m b - 1)) % m = (b.nwrite + (m - 1)) % m
    rw [← h.nwrite_eq, Nat.mod_add_mod,
      show b.nread + count m b + (m - 1) = b.nread + (count m b - 1) + m by omega,
      Nat.add_mod_right]
  refine ⟨⟨h1, Nat.mod_lt _ (by omega), by omega⟩, ?_⟩
  have hall : contents m cap b = contents m cap (Ring.unpush m b) ++
      [b.cell ((b.nread + (count m b - 1)) % m % cap)] := by
    unfold contents
    rw [hcount, show count m b = (count m b - 1) + 1 by omega, List.range_succ, List.map_append,
      Nat.add_sub_cancel]
    rfl
  rw [hall, List.dropLast_concat]

end Ring
