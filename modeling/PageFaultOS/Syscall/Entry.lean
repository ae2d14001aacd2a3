import Mathlib.Tactic
import PageFaultOS.Lib.ByteMem
import PageFaultOS.Lib.Exec

/-! The entry layer of `syscall/syscall.cpp`: how a system call finds its handler and fetches
its arguments, with `copyin2` and `copyinstr2` of `mm/vm.cpp`, which read the user's memory
directly. What `printf` prints is left out. -/

namespace PageFaultOS
open Exec Exec.Comp ByteMem

/-- The argument registers of `struct trapframe`. -/
structure ArgRegs where
  a0 : BitVec 64
  a1 : BitVec 64
  a2 : BitVec 64
  a3 : BitVec 64
  a4 : BitVec 64
  a5 : BitVec 64
  a6 : BitVec 64
  a7 : BitVec 64

/-- The trapframe and the size of the current process, the bytes of its memory, which are
mapped below `sz`, and the memory of the kernel. -/
structure EntryState where
  trapframe : ArgRegs
  sz : BitVec 64
  user : Mem
  mem : Mem

abbrev EntryComp := Comp EntryState

/-- The kernel's memory with the `n` bytes from the user address `src` copied to `dst`. -/
def EntryState.copied (s : EntryState) (dst src n : Nat) : Mem := fun b =>
  if dst ≤ b ∧ b < dst + n then s.user (src + (b - dst)) else s.mem b

def EntryState.withCopied (s : EntryState) (dst src n : Nat) : EntryState :=
  { s with mem := s.copied dst src n }

/-! ## `copyin2`, `copyinstr2` -/

/-- `memmove` from user memory, where only the bytes below `sz` are mapped. -/
def memmoveUser (dst : Nat) (srcvaddr len : BitVec 64) : EntryComp Unit := do
  let s ← read
  if srcvaddr.toNat + len.toNat ≤ s.sz.toNat then
    modify fun s => s.withCopied dst srcvaddr.toNat len.toNat
  else fault (.undefined "page fault")

def copyin2 (dst : Nat) (srcvaddr len : BitVec 64) : EntryComp Int := do
  let s ← read
  if srcvaddr + len > s.sz ∨ srcvaddr > s.sz then pure (-1)
  else do
    memmoveUser dst srcvaddr len
    pure 0

/-- The loop of `copyinstr2`, with `max` bytes to go. -/
def copyinstr2Loop (dst : Nat) (srcvaddr : BitVec 64) : Nat → EntryComp Int
  | 0 => pure (-1)
  | max + 1 => do
    let s ← read
    if srcvaddr < s.sz then do
      modify fun s => s.withCopied dst srcvaddr.toNat 1
      if s.user srcvaddr.toNat = 0 then pure 0
      else copyinstr2Loop (dst + 1) (srcvaddr + 1) max
    else pure (-1)

def copyinstr2 (dst : Nat) (srcvaddr max : BitVec 64) : EntryComp Int :=
  copyinstr2Loop dst srcvaddr max.toNat

/-! ## `syscall/syscall.cpp` -/

def argraw (n : Nat) : EntryComp (BitVec 64) := do
  let s ← read
  let tf := s.trapframe
  match n with
  | 0 => pure tf.a0
  | 1 => pure tf.a1
  | 2 => pure tf.a2
  | 3 => pure tf.a3
  | 4 => pure tf.a4
  | 5 => pure tf.a5
  | 6 => pure tf.a6
  | 7 => pure tf.a7
  | _ => Comp.panic "argraw: invalid register"

def fetchaddr (addr : BitVec 64) (ip : Nat) : EntryComp Int := do
  let p ← read
  if addr ≥ p.sz ∨ addr + 8 ≥ p.sz then Comp.panic "fetchaddr: invalid addr"
  else do
    let r ← copyin2 ip addr 8
    if r ≠ 0 then Comp.panic "fetchaddr: cannot fetch" else pure 0

/-- `max` is an `int`, which `copyinstr2` takes as a `uint64`. -/
def fetchstr (addr : BitVec 64) (buf : Nat) (max : BitVec 32) : EntryComp Int := do
  let p ← read
  if addr ≥ p.sz ∨ addr + 8 ≥ p.sz then Comp.panic "fetchstr: invalid addr"
  else do
    let r ← copyinstr2 buf addr (max.signExtend 64)
    if r ≠ 0 then Comp.panic "fetchstr: cannot fetch" else pure 0

def argstr (n : Nat) (buf : Nat) (max : BitVec 32) : EntryComp Int := do
  let addr ← argraw n
  fetchstr addr buf max

def NELEM_syscalls : Nat := 400

/-- `syscalls`, from the number to the handler; `none` is a null pointer. -/
abbrev SyscallTable := Nat → Option (EntryComp (BitVec 64))

/-- `num`: the lower half of `a7`, as an `int`. -/
def EntryState.num (s : EntryState) : Int := (s.trapframe.a7.truncate 32).toInt

/-- `num > 0 && num < NELEM(syscalls) && syscalls[num]`. -/
def handler (syscalls : SyscallTable) (num : Int) : Option (EntryComp (BitVec 64)) :=
  if 0 < num ∧ num < NELEM_syscalls then syscalls num.toNat else none

def EntryState.setA0 (s : EntryState) (v : BitVec 64) : EntryState :=
  { s with trapframe := { s.trapframe with a0 := v } }

def syscall (syscalls : SyscallTable) : EntryComp Unit := do
  let p ← read
  match handler syscalls p.num with
  | some f => do
    let r ← f
    modify fun p => p.setA0 r
  | none => do
    modify fun p => p.setA0 (-1)
    Comp.panic "syscall error"

/-! ## What the layer is for -/

/-- A number without a handler gives `-1`, and a handler is run without a further panic. -/
def SyscallMeets (syscalls : SyscallTable) (s : EntryState) : Prop :=
  match handler syscalls s.num with
  | none => syscall syscalls s = .ok () (s.setA0 (-1))
  | some f => ∀ e t, syscall syscalls s = .fault e t → f s = .fault e t

/-- `0` and the word where all of it is in user memory, otherwise `-1`. -/
def FetchaddrMeets (s : EntryState) (addr : BitVec 64) (ip : Nat) : Prop :=
  (addr.toNat + 8 ≤ s.sz.toNat →
    fetchaddr addr ip s = .ok 0 (s.withCopied ip addr.toNat 8)) ∧
  (¬ addr.toNat + 8 ≤ s.sz.toNat → ∃ t, fetchaddr addr ip s = .ok (-1) t)

/-- The string at `addr` has `n` characters, and its `NUL` is below `sz`. -/
structure StringAt (s : EntryState) (addr n : Nat) : Prop where
  chars : ∀ i < n, s.user (addr + i) ≠ 0
  nul : s.user (addr + n) = 0
  below : addr + n < s.sz.toNat

/-- `0` and the string in the buffer where it ends among the first `max` bytes, otherwise
`-1`. -/
def FetchesString (x : EntryComp Int) (s : EntryState) (addr buf : Nat) (max : Int) : Prop :=
  (∀ n : Nat, StringAt s addr n → (n : Int) < max →
    x s = .ok 0 (s.withCopied buf addr (n + 1))) ∧
  ((¬ ∃ n : Nat, StringAt s addr n ∧ (n : Int) < max) → ∃ t, x s = .ok (-1) t)

/-- `argstr` on the register that `argraw` finds. -/
def ArgstrMeets (s : EntryState) (n buf : Nat) (max : BitVec 32) : Prop :=
  ∃ addr, argraw n s = .ok addr s ∧ FetchesString (argstr n buf max) s addr.toNat buf max.toInt

/-! ## The copies -/

@[simp] theorem withCopied_user (s : EntryState) (dst src n : Nat) :
    (s.withCopied dst src n).user = s.user := rfl

@[simp] theorem withCopied_sz (s : EntryState) (dst src n : Nat) :
    (s.withCopied dst src n).sz = s.sz := rfl

/-- One byte and the `n` behind it. -/
theorem withCopied_succ (s : EntryState) (dst src n : Nat) :
    (s.withCopied dst src 1).withCopied (dst + 1) (src + 1) n = s.withCopied dst src (n + 1) := by
  have hmem : (s.withCopied dst src 1).copied (dst + 1) (src + 1) n = s.copied dst src (n + 1) := by
    funext b
    simp only [EntryState.copied, EntryState.withCopied]
    by_cases hrest : dst + 1 ≤ b ∧ b < dst + 1 + n
    · rw [if_pos hrest, if_pos (by omega)]
      congr 1
      omega
    · rw [if_neg hrest]
      by_cases hb : dst ≤ b ∧ b < dst + 1
      · rw [if_pos hb, if_pos (by omega)]
      · rw [if_neg hb, if_neg (by omega)]
  show ({ s.withCopied dst src 1 with mem := _ } : EntryState) = _
  rw [hmem]
  rfl

theorem StringAt.unique {s : EntryState} {addr n n' : Nat} (h : StringAt s addr n)
    (h' : StringAt s addr n') : n = n' := by
  rcases lt_trichotomy n n' with hlt | heq | hgt
  · exact absurd h.nul (h'.chars n hlt)
  · exact heq
  · exact absurd h'.nul (h.chars n' hgt)

/-- A string is empty or goes on behind its first character. -/
theorem stringAt_succ {s : EntryState} {addr n : Nat} (hc : s.user addr ≠ 0) :
    StringAt s addr (n + 1) ↔ StringAt s (addr + 1) n := by
  constructor
  · intro h
    refine ⟨fun i hi => ?_, ?_, ?_⟩
    · rw [Nat.add_right_comm]
      exact h.chars (i + 1) (by omega)
    · rw [Nat.add_right_comm]
      exact h.nul
    · have := h.below
      omega
  · intro h
    refine ⟨fun i hi => ?_, ?_, ?_⟩
    · cases i with
      | zero => exact hc
      | succ i =>
        have := h.chars i (by omega)
        rwa [Nat.add_right_comm] at this
    · have := h.nul
      rwa [Nat.add_right_comm] at this
    · have := h.below
      omega

theorem StringAt.not_zero {s : EntryState} {addr n : Nat} (h : StringAt s addr n)
    (hc : s.user addr ≠ 0) : ∃ m, n = m + 1 ∧ StringAt s (addr + 1) m := by
  cases n with
  | zero => exact absurd h.nul hc
  | succ m => exact ⟨m, rfl, (stringAt_succ hc).mp h⟩

/-- `copyinstr2` finds the strings that end among its `max` bytes. -/
theorem copyinstr2Loop_run (max : Nat) (s : EntryState) (dst : Nat) (src : BitVec 64) :
    (∀ n, StringAt s src.toNat n → n < max →
      copyinstr2Loop dst src max s = .ok 0 (s.withCopied dst src.toNat (n + 1))) ∧
    ((¬ ∃ n, StringAt s src.toNat n ∧ n < max) →
      ∃ t, copyinstr2Loop dst src max s = .ok (-1) t) := by
  induction max generalizing s dst src with
  | zero => exact ⟨fun n _ hn => by omega, fun _ => ⟨s, rfl⟩⟩
  | succ max ih =>
    simp only [copyinstr2Loop, read_bind]
    by_cases hlt : src < s.sz
    · have hnat : src.toNat < s.sz.toNat := hlt
      have hnext : (src + 1).toNat = src.toNat + 1 := by bv_omega
      rw [if_pos hlt]
      simp only [modify_bind]
      by_cases hc : s.user src.toNat = 0
      · rw [if_pos hc]
        have hempty : StringAt s src.toNat 0 := ⟨fun i hi => by omega, hc, hnat⟩
        refine ⟨fun n hn _ => ?_, fun hnone => absurd ⟨0, hempty, Nat.succ_pos max⟩ hnone⟩
        rw [hn.unique hempty]
        rfl
      · rw [if_neg hc]
        obtain ⟨hfound, hmissing⟩ := ih (s.withCopied dst src.toNat 1) (dst + 1) (src + 1)
        rw [hnext] at hfound hmissing
        refine ⟨fun n hn hmax => ?_, fun hnone => hmissing ?_⟩
        · obtain ⟨m, rfl, hm⟩ := hn.not_zero hc
          rw [hfound m ⟨hm.chars, hm.nul, hm.below⟩ (by omega), withCopied_succ]
        · rintro ⟨m, hm, hmax⟩
          exact hnone ⟨m + 1, (stringAt_succ hc).mpr ⟨hm.chars, hm.nul, hm.below⟩, by omega⟩
    · rw [if_neg hlt]
      refine ⟨fun n hn _ => ?_, fun _ => ⟨s, rfl⟩⟩
      have hbelow := hn.below
      have hge : ¬ src.toNat < s.sz.toNat := hlt
      omega

theorem fetchaddr_panics {s : EntryState} {addr : BitVec 64} (h : addr ≥ s.sz ∨ addr + 8 ≥ s.sz)
    (ip : Nat) : fetchaddr addr ip s = .fault (.panic "fetchaddr: invalid addr") s := by
  simp only [fetchaddr, read_bind, if_pos h]
  rfl

theorem fetchstr_panics {s : EntryState} {addr : BitVec 64} (h : addr ≥ s.sz ∨ addr + 8 ≥ s.sz)
    (buf : Nat) (max : BitVec 32) :
    fetchstr addr buf max s = .fault (.panic "fetchstr: invalid addr") s := by
  simp only [fetchstr, read_bind, if_pos h]
  rfl

/-! ## `fetchaddr` -/

theorem fetchaddr_run {s : EntryState} {addr : BitVec 64} (h : addr.toNat + 8 < s.sz.toNat)
    (ip : Nat) : fetchaddr addr ip s = .ok 0 (s.withCopied ip addr.toNat 8) := by
  have hpass : ¬ (addr ≥ s.sz ∨ addr + 8 ≥ s.sz) := by
    have hlt := s.sz.isLt
    bv_omega
  have hrange : ¬ (addr + 8 > s.sz ∨ addr > s.sz) := by
    have hlt := s.sz.isLt
    bv_omega
  have hmapped : addr.toNat + (8 : BitVec 64).toNat ≤ s.sz.toNat := by
    show addr.toNat + 8 ≤ s.sz.toNat
    omega
  have hcopy : copyin2 ip addr 8 s = .ok 0 (s.withCopied ip addr.toNat 8) := by
    simp only [copyin2, memmoveUser, read_bind, bind_assoc_apply, if_neg hrange, if_pos hmapped]
    rfl
  simp only [fetchaddr, read_bind, if_neg hpass]
  rw [bind_ok hcopy]
  rfl

/-- Where `addr + 8` wraps round, the check lets it pass and the copy leaves user memory. -/
theorem fetchaddr_wraps {s : EntryState} {addr : BitVec 64} (hlt : addr < s.sz)
    (hpass : addr + 8 < s.sz) (h : ¬ addr.toNat + 8 < s.sz.toNat) (ip : Nat) :
    ∃ e t, fetchaddr addr ip s = .fault e t := by
  have hfar : ¬ addr.toNat + (8 : BitVec 64).toNat ≤ s.sz.toNat := by
    have hsz := s.sz.isLt
    bv_omega
  refine ⟨.undefined "page fault", s, ?_⟩
  have hcheck : ¬ (addr ≥ s.sz ∨ addr + 8 ≥ s.sz) := by bv_omega
  have hrange : ¬ (addr + 8 > s.sz ∨ addr > s.sz) := by bv_omega
  have hcopy : copyin2 ip addr 8 s = .fault (.undefined "page fault") s := by
    simp only [copyin2, memmoveUser, read_bind, bind_assoc_apply, if_neg hrange, if_neg hfar]
    rfl
  simp only [fetchaddr, read_bind, if_neg hcheck]
  rw [bind_fault hcopy]

theorem fetchaddr_meets_iff (s : EntryState) (addr : BitVec 64) (ip : Nat) :
    FetchaddrMeets s addr ip ↔ addr.toNat + 8 < s.sz.toNat := by
  constructor
  · rintro ⟨hin, hout⟩
    by_contra h
    have hfault : ∃ e t, fetchaddr addr ip s = .fault e t := by
      by_cases hbad : addr ≥ s.sz ∨ addr + 8 ≥ s.sz
      · exact ⟨_, s, fetchaddr_panics hbad ip⟩
      · exact fetchaddr_wraps (by bv_omega) (by bv_omega) h ip
    obtain ⟨e, t, hfault⟩ := hfault
    by_cases hword : addr.toNat + 8 ≤ s.sz.toNat
    · rw [hin hword] at hfault
      cases hfault
    · obtain ⟨u, hu⟩ := hout hword
      rw [hu] at hfault
      cases hfault
  · intro h
    exact ⟨fun _ => fetchaddr_run h ip, fun hnot => absurd h.le hnot⟩

/-! ## `fetchstr` and `argstr` -/

theorem signExtend_toNat {max : BitVec 32} (h : 0 < max.toInt) :
    ((max.signExtend 64).toNat : Int) = max.toInt := by
  have hmsb : max.msb = false := by
    rw [BitVec.msb_eq_toInt]
    simp [h.le]
  rw [BitVec.signExtend_eq_setWidth_of_msb_false hmsb, BitVec.toInt_eq_msb_cond, hmsb]
  simp [BitVec.toNat_setWidth]
  omega

/-- Where the string is there and its address passes the check. -/
theorem fetchstr_run {s : EntryState} {addr : BitVec 64} {n buf : Nat} {max : BitVec 32}
    (hstr : StringAt s addr.toNat n) (hn : (n : Int) < max.toInt) (hpass : addr + 8 < s.sz) :
    fetchstr addr buf max s = .ok 0 (s.withCopied buf addr.toNat (n + 1)) := by
  have hbelow := hstr.below
  have hcheck : ¬ (addr ≥ s.sz ∨ addr + 8 ≥ s.sz) := by bv_omega
  have hmax : n < (max.signExtend 64).toNat := by
    have hnat := signExtend_toNat (show 0 < max.toInt by omega)
    omega
  have hcopy : copyinstr2 buf addr (max.signExtend 64) s =
      .ok 0 (s.withCopied buf addr.toNat (n + 1)) :=
    (copyinstr2Loop_run _ s buf addr).1 n hstr hmax
  simp only [fetchstr, read_bind, if_neg hcheck]
  rw [bind_ok hcopy]
  rfl

/-- `fetchstr` never answers `-1`. -/
theorem fetchstr_ne_neg {s t : EntryState} {addr : BitVec 64} {buf : Nat} {max : BitVec 32}
    {r : Int} (h : fetchstr addr buf max s = .ok r t) :
    r = 0 ∧ addr + 8 < s.sz := by
  simp only [fetchstr, read_bind] at h
  by_cases hcheck : addr ≥ s.sz ∨ addr + 8 ≥ s.sz
  · rw [if_pos hcheck] at h
    cases h
  · rw [if_neg hcheck] at h
    obtain ⟨c, u, -, hrest⟩ := bind_eq_ok.mp h
    refine ⟨?_, by bv_omega⟩
    by_cases hc : c ≠ 0
    · rw [if_pos hc] at hrest
      cases hrest
    · rw [if_neg hc] at hrest
      cases hrest
      rfl

theorem fetchstr_meets_iff (s : EntryState) (addr : BitVec 64) (buf : Nat) (max : BitVec 32) :
    FetchesString (fetchstr addr buf max) s addr.toNat buf max.toInt ↔
      addr + 8 < s.sz ∧ ∃ n : Nat, StringAt s addr.toNat n ∧ (n : Int) < max.toInt := by
  constructor
  · rintro ⟨hin, hout⟩
    by_cases hstr : ∃ n : Nat, StringAt s addr.toNat n ∧ (n : Int) < max.toInt
    · obtain ⟨n, hn, hmax⟩ := hstr
      exact ⟨(fetchstr_ne_neg (hin n hn hmax)).2, n, hn, hmax⟩
    · obtain ⟨t, ht⟩ := hout hstr
      exact absurd (fetchstr_ne_neg ht).1 (by decide)
  · rintro ⟨hpass, hstr⟩
    exact ⟨fun n hn hmax => fetchstr_run hn hmax hpass, fun hnone => absurd hstr hnone⟩

/-- There are eight registers. -/
theorem argraw_run (s : EntryState) (n : Nat) :
    (n < 8 ∧ ∃ addr, argraw n s = .ok addr s) ∨
      (8 ≤ n ∧ argraw n s = .fault (.panic "argraw: invalid register") s) := by
  match n with
  | 0 | 1 | 2 | 3 | 4 | 5 | 6 | 7 => exact Or.inl ⟨by omega, _, rfl⟩
  | n + 8 => exact Or.inr ⟨by omega, rfl⟩

theorem argstr_run {s : EntryState} {n : Nat} {addr : BitVec 64} (h : argraw n s = .ok addr s)
    (buf : Nat) (max : BitVec 32) : argstr n buf max s = fetchstr addr buf max s :=
  bind_ok h _

theorem argstr_meets_iff (s : EntryState) (n buf : Nat) (max : BitVec 32) :
    ArgstrMeets s n buf max ↔ ∃ addr, argraw n s = .ok addr s ∧ addr + 8 < s.sz ∧
      ∃ len : Nat, StringAt s addr.toNat len ∧ (len : Int) < max.toInt := by
  refine exists_congr fun addr => and_congr_right fun haddr => ?_
  rw [← fetchstr_meets_iff s addr buf max, FetchesString, FetchesString, argstr_run haddr]

/-! ## `syscall` -/

theorem syscall_meets_iff (syscalls : SyscallTable) (s : EntryState) :
    SyscallMeets syscalls s ↔ (handler syscalls s.num).isSome := by
  unfold SyscallMeets
  cases hf : handler syscalls s.num with
  | none =>
    simp only [syscall, read_bind, hf, modify_bind, panic_apply, Option.isSome_none]
    constructor
    · intro h
      cases h
    · intro h
      cases h
  | some f =>
    refine ⟨fun _ => rfl, fun _ e t hfault => ?_⟩
    simp only [syscall, read_bind, hf] at hfault
    cases hrun : f s with
    | ok r u =>
      rw [bind_ok hrun] at hfault
      cases hfault
    | fault e' u =>
      rw [bind_fault hrun] at hfault
      cases hfault
      rfl

/-- When the entry layer does what it is for: the number has a handler; the word ends before
the last byte of memory; the string ends in memory, after an address that passes the check. -/
theorem entry_layer_iff (s : EntryState) :
    (∀ syscalls, SyscallMeets syscalls s ↔ (handler syscalls s.num).isSome) ∧
    (∀ addr ip, FetchaddrMeets s addr ip ↔ addr.toNat + 8 < s.sz.toNat) ∧
    (∀ (addr : BitVec 64) (buf : Nat) (max : BitVec 32),
      FetchesString (fetchstr addr buf max) s addr.toNat buf max.toInt ↔
        addr + 8 < s.sz ∧ ∃ n : Nat, StringAt s addr.toNat n ∧ (n : Int) < max.toInt) ∧
    (∀ n buf max, ArgstrMeets s n buf max ↔
      ∃ addr, argraw n s = .ok addr s ∧ addr + 8 < s.sz ∧
        ∃ len : Nat, StringAt s addr.toNat len ∧ (len : Int) < max.toInt) :=
  ⟨fun syscalls => syscall_meets_iff syscalls s, fetchaddr_meets_iff s, fetchstr_meets_iff s,
    argstr_meets_iff s⟩

/-- One page of zeros, the system call number `0`, and the address of its last word in `a0`. -/
def lastWord : EntryState := ⟨⟨4088, 0, 0, 0, 0, 0, 0, 0⟩, 4096, fun _ => 0, fun _ => 0⟩

/-- At the last word, and for a number without a handler, the entry layer panics. -/
theorem entry_layer_panics :
    fetchaddr 4088 0 lastWord = .fault (.panic "fetchaddr: invalid addr") lastWord ∧
    ¬ FetchaddrMeets lastWord 4088 0 ∧
    fetchstr 4088 0 64 lastWord = .fault (.panic "fetchstr: invalid addr") lastWord ∧
    StringAt lastWord 4088 0 ∧ ¬ FetchesString (fetchstr 4088 0 64) lastWord 4088 0 64 ∧
    ¬ ArgstrMeets lastWord 0 0 64 ∧
    syscall (fun _ => none) lastWord =
      .fault (.panic "syscall error") (lastWord.setA0 (-1)) ∧
    ¬ SyscallMeets (fun _ => none) lastWord := by
  have hcheck : ¬ (4088 : BitVec 64) + 8 < lastWord.sz := by decide
  refine ⟨rfl, fun h => absurd ((fetchaddr_meets_iff lastWord 4088 0).mp h) (by decide), rfl,
    ⟨fun i hi => by omega, rfl, by decide⟩,
    fun h => hcheck ((fetchstr_meets_iff lastWord 4088 0 64).mp h).1, fun h => ?_, rfl,
    fun h => absurd ((syscall_meets_iff _ lastWord).mp h) (by decide)⟩
  obtain ⟨addr, haddr, hpass, -⟩ := (argstr_meets_iff lastWord 0 0 64).mp h
  cases haddr
  exact hcheck hpass

end PageFaultOS
