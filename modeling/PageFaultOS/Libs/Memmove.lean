import Mathlib.Tactic
import PageFaultOS.Lib.ByteMem
import PageFaultOS.Lib.CellCopy

/-! `memmove` of `libs/string.c`, over a memory of bytes with 64-bit addresses. -/

namespace PageFaultOS
open CellCopy

abbrev FlatMem := BitVec 64 → UInt8

namespace FlatMem

/-- `while(n-- > 0) *d++ = *s++;` -/
def copyUp (m : FlatMem) (d s : BitVec 64) : Nat → FlatMem
  | 0 => m
  | n + 1 => copyUp (Function.update m d (m s)) (d + 1) (s + 1) n

/-- `while(n-- > 0) *--d = *--s;` -/
def copyDown (m : FlatMem) (d s : BitVec 64) : Nat → FlatMem
  | 0 => m
  | n + 1 => copyDown (Function.update m (d - 1) (m (s - 1))) (d - 1) (s - 1) n

/-- The memory that the call leaves, and what it returns. -/
def memmove (m : FlatMem) (dst src : BitVec 64) (n : BitVec 32) : FlatMem × BitVec 64 :=
  let len := n.setWidth 64
  if src < dst ∧ dst < src + len then (copyDown m (dst + len) (src + len) n.toNat, dst)
  else (copyUp m dst src n.toNat, dst)

/-- The `i`-th address from `a` on. -/
def nth (a : BitVec 64) (i : Nat) : BitVec 64 := a + BitVec.ofNat 64 i

variable {m : FlatMem} {a dst src : BitVec 64} {i n : Nat} {len : BitVec 32}

theorem nth_zero (a : BitVec 64) : nth a 0 = a := BitVec.add_zero a

theorem nth_succ (a : BitVec 64) (i : Nat) : nth (a + 1) i = nth a (i + 1) := by
  unfold nth
  rw [BitVec.ofNat_add, BitVec.add_assoc]
  exact congrArg (a + ·) (BitVec.add_comm _ _)

theorem nth_sub_one (a : BitVec 64) (n : Nat) : nth a (n + 1) - 1 = nth a n := by
  unfold nth
  rw [BitVec.ofNat_add, ← BitVec.add_assoc]
  exact BitVec.add_sub_cancel _ 1

theorem nth_toNat (h : a.toNat + i < 2 ^ 64) : (nth a i).toNat = a.toNat + i := by
  unfold nth
  rw [BitVec.toNat_add, BitVec.toNat_ofNat]
  omega

theorem nth_setWidth (a : BitVec 64) (len : BitVec 32) :
    a + len.setWidth 64 = nth a len.toNat := by
  unfold nth
  congr 1
  apply BitVec.eq_of_toNat_eq
  rw [BitVec.toNat_setWidth, BitVec.toNat_ofNat]

/-- Upwards the bytes are copied from the first to the last. -/
theorem copyUp_eq (m : FlatMem) (d s : BitVec 64) (n : Nat) :
    copyUp m d s n = copy m (nth d) (nth s) (List.range n) := by
  induction n generalizing m d s with
  | zero => rfl
  | succ n ih =>
    have hnext : ∀ a : BitVec 64, nth (a + 1) = fun i => nth a i.succ :=
      fun a => funext (nth_succ a)
    rw [copyUp, ih, List.range_succ_eq_map, copy, copy_map, nth_zero, nth_zero, hnext, hnext]

/-- Downwards from behind both ranges they are copied from the last to the first. -/
theorem copyDown_eq (m : FlatMem) (d s : BitVec 64) (n : Nat) :
    copyDown m (nth d n) (nth s n) n = copy m (nth d) (nth s) (List.range n).reverse := by
  induction n generalizing m with
  | zero => rfl
  | succ n ih =>
    rw [copyDown, nth_sub_one, nth_sub_one, ih, List.range_succ, List.reverse_append]
    rfl

/-- A range that does not wrap has `n` different addresses. -/
theorem nth_ne {j : Nat} (h : a.toNat + n ≤ 2 ^ 64) (hi : i < n) (hj : j < n) (hij : i ≠ j) :
    nth a i ≠ nth a j := by
  intro heq
  have hnat := congrArg BitVec.toNat heq
  rw [nth_toNat (by omega), nth_toNat (by omega)] at hnat
  omega

/-- A copy that starts at the lower end is safe unless the destination begins inside of the
source. -/
theorem safe_up (hs : src.toNat + n ≤ 2 ^ 64) (hd : dst.toNat + n ≤ 2 ^ 64)
    (h : dst.toNat ≤ src.toNat ∨ src.toNat + n ≤ dst.toNat) :
    Safe (nth dst) (nth src) (List.range n) := by
  refine List.pairwise_lt_range.imp_of_mem fun {i j} hi hj hij => ⟨fun heq => ?_, ?_⟩
  · have hi' := List.mem_range.mp hi
    have hj' := List.mem_range.mp hj
    have hnat := congrArg BitVec.toNat heq
    rw [nth_toNat (by omega), nth_toNat (by omega)] at hnat
    omega
  · exact nth_ne hd (List.mem_range.mp hj) (List.mem_range.mp hi) (Nat.ne_of_gt hij)

/-- One that starts at the upper end is safe where the source begins below the destination. -/
theorem safe_down (hs : src.toNat + n ≤ 2 ^ 64) (hd : dst.toNat + n ≤ 2 ^ 64)
    (h : src.toNat < dst.toNat) : Safe (nth dst) (nth src) (List.range n).reverse := by
  unfold Safe
  rw [List.pairwise_reverse]
  refine List.pairwise_lt_range.imp_of_mem fun {i j} hi hj hij => ⟨fun heq => ?_, ?_⟩
  · have hi' := List.mem_range.mp hi
    have hj' := List.mem_range.mp hj
    have hnat := congrArg BitVec.toNat heq
    rw [nth_toNat (by omega), nth_toNat (by omega)] at hnat
    omega
  · exact nth_ne hd (List.mem_range.mp hi) (List.mem_range.mp hj) (Nat.ne_of_lt hij)

/-- Both loops copy the same bytes, in an order that is safe. -/
theorem memmove_order (hs : src.toNat + len.toNat ≤ 2 ^ 64) (hd : dst.toNat + len.toNat ≤ 2 ^ 64) :
    ∃ l, (∀ i, i ∈ l ↔ i < len.toNat) ∧ Safe (nth dst) (nth src) l ∧
      (memmove m dst src len).1 = copy m (nth dst) (nth src) l := by
  have hlen : len.toNat < 2 ^ 32 := len.isLt
  unfold memmove
  dsimp only
  rw [nth_setWidth, nth_setWidth]
  split
  case isTrue hdown =>
    refine ⟨_, fun i => ?_, safe_down hs hd hdown.1, copyDown_eq m dst src len.toNat⟩
    rw [List.mem_reverse, List.mem_range]
  case isFalse hup =>
    refine ⟨_, fun i => List.mem_range, safe_up hs hd ?_, copyUp_eq m dst src len.toNat⟩
    by_contra hin
    have hdst := dst.isLt
    rw [BitVec.lt_def, BitVec.lt_def, nth_toNat (by omega)] at hup
    omega

/-- An address from `dst` on. -/
theorem nth_sub (h : dst.toNat ≤ a.toNat) :
    nth dst (a.toNat - dst.toNat) = a := by
  have ha := a.isLt
  apply BitVec.eq_of_toNat_eq
  rw [nth_toNat (by omega)]
  omega

/-- Wherever the two ranges are, the destination gets what the source held, and nothing else
changes. -/
theorem memmove_moves (m : FlatMem) (dst src : BitVec 64) (n : BitVec 32)
    (hs : src.toNat + n.toNat ≤ 2 ^ 64) (hd : dst.toNat + n.toNat ≤ 2 ^ 64) :
    (∀ i < n.toNat, (memmove m dst src n).1 (nth dst i) = m (nth src i)) ∧
      ∀ a, a.toNat < dst.toNat ∨ dst.toNat + n.toNat ≤ a.toNat → (memmove m dst src n).1 a = m a := by
  obtain ⟨l, hl, hsafe, hcopy⟩ := memmove_order (m := m) hs hd
  rw [hcopy]
  refine ⟨fun i hi => hsafe.copied i ((hl i).mpr hi), fun a ha => copy_other fun i hi heq => ?_⟩
  have hi' := (hl i).mp hi
  rw [heq, nth_toNat (by omega)] at ha
  omega

/-- The source begins three bytes below the destination, inside of it. -/
theorem memmove_moves_overlapping :
    (∀ i < 5, (memmove (fun a => UInt8.ofNat a.toNat) 103 100 5).1 (nth 103 i) =
      UInt8.ofNat (nth 100 i).toNat) ∧
    ∀ a : BitVec 64, a.toNat < 103 ∨ 108 ≤ a.toNat →
      (memmove (fun a => UInt8.ofNat a.toNat) 103 100 5).1 a = UInt8.ofNat a.toNat :=
  memmove_moves (fun a => UInt8.ofNat a.toNat) 103 100 5 (by decide) (by decide)

/-- On the addresses of the machine the call has the effect that `ByteMem.move` gives it. -/
theorem memmove_eq_move (m : ByteMem.Mem) (hs : src.toNat + len.toNat ≤ 2 ^ 64)
    (hd : dst.toNat + len.toNat ≤ 2 ^ 64) (a : BitVec 64) :
    (memmove (fun a => m a.toNat) dst src len).1 a =
      ByteMem.move m dst.toNat src.toNat len.toNat a.toNat := by
  obtain ⟨l, hl, hsafe, hcopy⟩ := memmove_order (m := fun a => m a.toNat) hs hd
  rw [hcopy, ByteMem.move]
  split
  case isTrue hin =>
    have hi := (hl (a.toNat - dst.toNat)).mpr (by omega)
    have hcopied := hsafe.copied (m := fun a => m a.toNat) _ hi
    rw [nth_sub hin.1, nth_toNat (by omega)] at hcopied
    exact hcopied
  case isFalse hout =>
    refine copy_other fun i hi heq => hout ?_
    have hi' := (hl i).mp hi
    rw [heq, nth_toNat (by omega)]
    omega

end FlatMem

end PageFaultOS
