import Mathlib.Tactic

/-! Page and page-table-entry arithmetic of `libs/riscv.h`, and the address map of
`mm/memlayout.h`. A `uint64` is a natural number; sums that can wrap are reduced
by `u64`. -/

namespace PageFaultOS

/-- The value a `uint64` keeps of a natural number. -/
def u64 (n : Nat) : Nat := n % 2 ^ 64

abbrev pgsize : Nat := 4096

def pteV : Nat := 1
def pteR : Nat := 2
def pteW : Nat := 4
def pteX : Nat := 8
def pteU : Nat := 16

/-- `a & ~(PGSIZE-1)`, the mask sign-extended to 64 bits. -/
def pgrounddown (a : Nat) : Nat := a &&& (2 ^ 64 - pgsize)

def pgroundup (sz : Nat) : Nat := pgrounddown (u64 (sz + pgsize - 1))

def page2pte (pa : Nat) : Nat := (pa >>> 12) <<< 10

def pte2page (pte : Nat) : Nat := u64 ((pte >>> 10) <<< 12)

def pteFlags (pte : Nat) : Nat := pte &&& 0x3FF

/-- The 9-bit table index of `va` at `level`. -/
def px (level va : Nat) : Nat := (va >>> (12 + 9 * level)) &&& 0x1FF

def maxva : Nat := 1 <<< (9 + 9 + 9 + 12 - 1)

def kernbase : Nat := 0x80020000
def phystop : Nat := 0x80600000
def maxuva : Nat := 0x80000000
def trampoline : Nat := maxva - pgsize
def trapframe : Nat := trampoline - pgsize

theorem u64_lt (n : Nat) : u64 n < 2 ^ 64 := Nat.mod_lt n (by decide)

theorem maxva_eq : maxva = 2 ^ 38 := by decide

theorem pgrounddown_zero : pgrounddown 0 = 0 := by decide

theorem pgrounddown_eq {a : Nat} (h : a < 2 ^ 64) : pgrounddown a = a / 4096 * 4096 := by
  apply Nat.eq_of_testBit_eq
  intro i
  have hmask : (2 ^ 64 - pgsize : Nat) = (2 ^ 52 - 1) * 2 ^ 12 := by decide
  have hdiv : a / 4096 * 4096 = a / 2 ^ 12 * 2 ^ 12 := by norm_num
  rw [pgrounddown, hmask, hdiv, Nat.testBit_and, Nat.testBit_mul_two_pow,
    Nat.testBit_mul_two_pow, Nat.testBit_two_pow_sub_one, Nat.testBit_div_two_pow]
  by_cases hi : 12 ≤ i
  · rw [Nat.sub_add_cancel hi]
    by_cases h64 : i < 64
    · simp [hi, show i - 12 < 52 by omega]
    · have : a.testBit i = false := by
        apply Nat.testBit_lt_two_pow
        exact Nat.lt_of_lt_of_le h (Nat.pow_le_pow_right (by omega) (by omega))
      simp [this]
  · simp [hi]

theorem pgroundup_eq {sz : Nat} (h : sz + 4095 < 2 ^ 64) :
    pgroundup sz = (sz + 4095) / 4096 * 4096 := by
  have hu : u64 (sz + pgsize - 1) = sz + 4095 := Nat.mod_eq_of_lt h
  rw [pgroundup, hu, pgrounddown_eq h]

theorem pte2page_eq (pte : Nat) : pte2page pte = pte / 1024 * 4096 % 2 ^ 64 := by
  rw [pte2page, u64, Nat.shiftLeft_eq, Nat.shiftRight_eq_div_pow]

theorem page2pte_eq (pa : Nat) : page2pte pa = pa / 4096 * 1024 := by
  rw [page2pte, Nat.shiftLeft_eq, Nat.shiftRight_eq_div_pow]

theorem pteFlags_eq (pte : Nat) : pteFlags pte = pte % 1024 :=
  Nat.and_two_pow_sub_one_eq_mod pte 10

theorem px_eq (level va : Nat) : px level va = va / 2 ^ (12 + 9 * level) % 512 := by
  rw [px, Nat.shiftRight_eq_div_pow]
  exact Nat.and_two_pow_sub_one_eq_mod _ 9

theorem px_lt (level va : Nat) : px level va < 512 := by
  rw [px_eq]
  exact Nat.mod_lt _ (by decide)

theorem pte2page_aligned (pte : Nat) : pte2page pte % 4096 = 0 := by
  rw [pte2page_eq]
  omega

/-- The entry that `MapPages` stores: frame in the upper bits, flags in the lower ten. -/
theorem page2pte_or {pa flags : Nat} (hf : flags < 1024) :
    page2pte pa ||| flags = pa / 4096 * 1024 + flags := by
  rw [page2pte_eq, Nat.mul_comm]
  exact (Nat.two_pow_add_eq_or_of_lt (i := 10) hf _).symm

theorem pte2page_or {pa flags : Nat} (hpa : pa < 2 ^ 64) (hal : pa % 4096 = 0)
    (hf : flags < 1024) : pte2page (page2pte pa ||| flags) = pa := by
  rw [page2pte_or hf, pte2page_eq]
  omega

theorem pteFlags_or {pa flags : Nat} (hf : flags < 1024) :
    pteFlags (page2pte pa ||| flags) = flags := by
  rw [page2pte_or hf, pteFlags_eq]
  omega

theorem page2pte_or_lt {pa flags : Nat} (hpa : pa < 2 ^ 64) (hf : flags < 1024) :
    page2pte pa ||| flags < 2 ^ 64 := by
  rw [page2pte_or hf]
  omega

theorem or_lt_1024 {a b : Nat} (ha : a < 1024) (hb : b < 1024) : a ||| b < 1024 :=
  Nat.or_lt_two_pow (n := 10) ha hb

/-- A flag bit of an entry is a flag bit of its low ten bits. -/
theorem and_flag (pte : Nat) {b : Nat} (hb : b < 1024) : pte &&& b = pteFlags pte &&& b := by
  have hmask : b = 0x3FF &&& b := by
    rw [Nat.and_comm, Nat.and_two_pow_sub_one_eq_mod b 10, Nat.mod_eq_of_lt hb]
  rw [pteFlags, Nat.and_assoc, ← hmask]

theorem page_mul {a : Nat} (h : a % 4096 = 0) : a / 4096 * 4096 = a := by omega

/-- Within the 39 bits of Sv39 the three indices determine the page. -/
theorem page_eq_of_px {va vb : Nat} (ha : va < 2 ^ 39) (hb : vb < 2 ^ 39)
    (h2 : px 2 va = px 2 vb) (h1 : px 1 va = px 1 vb) (h0 : px 0 va = px 0 vb) :
    va / 4096 = vb / 4096 := by
  simp only [px_eq] at h2 h1 h0
  norm_num at h2 h1 h0
  omega

theorem px_page (level va : Nat) : px level (va / 4096 * 4096) = px level va := by
  rw [px_eq, px_eq, Nat.pow_add, ← Nat.div_div_eq_div_mul, ← Nat.div_div_eq_div_mul]
  congr 2
  norm_num

end PageFaultOS
