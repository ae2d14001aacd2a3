import Mathlib.Tactic
import PageFaultOS.Lib.Rv64
import PageFaultOS.Trap.Trampoline

/-! The machine-mode firmware that the K210 kernel runs on: `_start_trap` and `start_trap_rust` of
`rustsbi-k210/src/main.rs`. The `rustsbi` crate, which answers the other SBI calls, is a parameter. -/

namespace PageFaultOS
open Rv64

/-! ### Instruction words -/

structure Fields where
  funct7 : BitVec 7
  rs2 : BitVec 5
  rs1 : BitVec 5
  funct3 : BitVec 3
  rd : BitVec 5
  opcode : BitVec 7
  deriving DecidableEq

abbrev insnBits : Nat := 7 + (5 + (5 + (3 + (5 + 7))))

def Fields.word (f : Fields) : BitVec insnBits :=
  f.funct7 ++ (f.rs2 ++ (f.rs1 ++ (f.funct3 ++ (f.rd ++ f.opcode))))

def fields (x : BitVec 32) : Fields where
  funct7 := x.extractLsb' 25 7
  rs2 := x.extractLsb' 20 5
  rs1 := x.extractLsb' 15 5
  funct3 := x.extractLsb' 12 3
  rd := x.extractLsb' 7 5
  opcode := x.extractLsb' 0 7

/-- `csrrs rd, time, x0`. -/
def rdtimeWord (rd : BitVec 5) : BitVec 32 := Fields.word ⟨0x60, 1, 0, 2, rd, 0x73⟩

def sfenceVmaWord (rs1 rs2 : BitVec 5) : BitVec 32 := Fields.word ⟨9, rs2, rs1, 0, 0, 0x73⟩

/-! ### The firmware -/

namespace Firmware

structure Mie where
  msoft : Bool
  mtimer : Bool
  mext : Bool
  deriving DecidableEq, Repr

/-- The supervisor's bits are the firmware's to set, the machine's are lines of the devices. -/
structure Mip where
  ssoft : Bool
  stimer : Bool
  msoft : Bool
  mtimer : Bool
  mext : Bool
  deriving DecidableEq, Repr

/-- A hart and what the firmware keeps. -/
structure Hart where
  mie : Mie
  mip : Mip
  mepc : Word
  stval : Word
  /-- Control register `0x180`: `satp`, or `sptbr` before version 1.10. -/
  satp : Word
  mstatus : Word
  mtime : Word
  devintrentry : Word
  serialIn : List UInt8
  serialOut : List UInt8

structure TrapFrame where
  ra : Word
  t0 : Word
  t1 : Word
  t2 : Word
  t3 : Word
  t4 : Word
  t5 : Word
  t6 : Word
  a0 : Word
  a1 : Word
  a2 : Word
  a3 : Word
  a4 : Word
  a5 : Word
  a6 : Word
  a7 : Word

inductive Cause where
  | supervisorEnvCall
  | machineSoft
  | machineTimer
  | machineExternal
  | illegalInstruction
  | other
  deriving DecidableEq, Repr

/-- What the firmware is built on: the call `rustsbi::ecall` of the crate, with `SbiRet::error` and
`SbiRet::value`, and the halfword that a load through the supervisor's mapping finds. -/
structure Env where
  ecall : Word → Word → List Word → Hart → Hart × Word × Word
  halfword : Hart → Word → BitVec 16

def setMext (b : Bool) (s : Hart) : Hart := { s with mie := { s.mie with mext := b } }

def setMtimer (b : Bool) (s : Hart) : Hart := { s with mie := { s.mie with mtimer := b } }

def setMsoft (b : Bool) (s : Hart) : Hart := { s with mie := { s.mie with msoft := b } }

def setSsoft (s : Hart) : Hart := { s with mip := { s.mip with ssoft := true } }

def setStimer (s : Hart) : Hart := { s with mip := { s.mip with stimer := true } }

def skip (s : Hart) : Hart := { s with mepc := s.mepc + 4 }

def getVaddrU32 (env : Env) (s : Hart) (vaddr : Word) : BitVec 32 :=
  (env.halfword s vaddr).setWidth 32 ||| ((env.halfword s (vaddr + 2)).setWidth 32 <<< 16)

/-- `none` is the panic. -/
def setRd (f : TrapFrame) (rd : Nat) (value : Word) : Option TrapFrame :=
  match rd with
  | 10 => some { f with a0 := value }
  | 11 => some { f with a1 := value }
  | 12 => some { f with a2 := value }
  | 13 => some { f with a3 := value }
  | 14 => some { f with a4 := value }
  | 15 => some { f with a5 := value }
  | 16 => some { f with a6 := value }
  | 17 => some { f with a7 := value }
  | 5 => some { f with t0 := value }
  | 6 => some { f with t1 := value }
  | 7 => some { f with t2 := value }
  | 28 => some { f with t3 := value }
  | 29 => some { f with t4 := value }
  | 30 => some { f with t5 := value }
  | 31 => some { f with t6 := value }
  | _ => none

/-- The branch for an SBI call. -/
def supervisorEnvCall (env : Env) (f : TrapFrame) (s : Hart) : TrapFrame × Hart :=
  if f.a7 = 0x0A000004 ∧ f.a6 = 0x210 then
    ({ f with a0 := 0, a1 := 0 }, skip (setMext true { s with devintrentry := f.a0 }))
  else if f.a7 = 0x0A000005 then
    ({ f with a0 := 0, a1 := 0 }, skip (setMtimer true (setMext true s)))
  else if f.a7 = 1 then
    (f, skip { s with serialOut := s.serialOut ++ [UInt8.ofBitVec (f.a0.setWidth 8)] })
  else if f.a7 = 2 then
    match s.serialIn with
    | c :: rest =>
      ({ f with a0 := c.toBitVec.setWidth 64 }, skip { s with serialIn := rest })
    | [] => ({ f with a0 := -1 }, skip s)
  else
    let s := if f.a7 = 0 ∧ s.mip.mtimer then setMext true s else s
    let (s, error, value) := env.ecall f.a7 f.a6 [f.a0, f.a1, f.a2, f.a3] s
    ({ f with a0 := error, a1 := value }, skip s)

/-- The branch for an instruction that the hart does not have. -/
def illegalInstruction (env : Env) (f : TrapFrame) (s : Hart) : Option (TrapFrame × Hart) :=
  let ins := getVaddrU32 env s s.mepc
  if ins &&& 0xFFFFF07F = 0xC0102073 then
    (setRd f ((ins >>> 7) &&& 31).toNat s.mtime).map fun f => (f, skip s)
  else if ins &&& 0xFE007FFF = 0x12000073 then
    let ppn := s.satp &&& 0xFFFFFFFFFFF
    let sptbrBits := ppn &&& 0x3FFFFFFFFF
    let mstatusBits := (s.mstatus &&& ~~~(0x1F000000 : Word)) ||| ((9 : Word) <<< 24)
    some (f, skip { s with satp := sptbrBits, mstatus := mstatusBits })
  else
    none

def startTrapRust (env : Env) (cause : Cause) (f : TrapFrame) (s : Hart) :
    Option (TrapFrame × Hart) :=
  match cause with
  | .supervisorEnvCall => some (supervisorEnvCall env f s)
  | .machineSoft => some (f, setMsoft false (setSsoft s))
  | .machineTimer => some (f, setMtimer false (setMext false (setStimer s)))
  | .machineExternal => some (f, setMtimer false (setMext false (setSsoft { s with stval := 9 })))
  | .illegalInstruction => illegalInstruction env f s
  | .other => none

/-- What `_start_trap` stores. -/
def save (regs : Reg → Word) : TrapFrame where
  ra := regs .ra
  t0 := regs .t0
  t1 := regs .t1
  t2 := regs .t2
  t3 := regs .t3
  t4 := regs .t4
  t5 := regs .t5
  t6 := regs .t6
  a0 := regs .a0
  a1 := regs .a1
  a2 := regs .a2
  a3 := regs .a3
  a4 := regs .a4
  a5 := regs .a5
  a6 := regs .a6
  a7 := regs .a7

/-- What it loads; the compiled handler keeps the other registers. -/
def load (f : TrapFrame) (regs : Reg → Word) : Reg → Word
  | .ra => f.ra
  | .t0 => f.t0
  | .t1 => f.t1
  | .t2 => f.t2
  | .t3 => f.t3
  | .t4 => f.t4
  | .t5 => f.t5
  | .t6 => f.t6
  | .a0 => f.a0
  | .a1 => f.a1
  | .a2 => f.a2
  | .a3 => f.a3
  | .a4 => f.a4
  | .a5 => f.a5
  | .a6 => f.a6
  | .a7 => f.a7
  | r => regs r

/-- A trap from supervisor or user mode, up to `mret`. -/
def startTrap (env : Env) (cause : Cause) (regs : Reg → Word) (s : Hart) :
    Option ((Reg → Word) × Hart) :=
  (startTrapRust env cause (save regs) s).map fun p => (load p.1 regs, p.2)

/-- The register that an instruction names and `set_rd` has a place for. -/
def rdtimeReg (rd : BitVec 5) : Option Reg :=
  match rd.toNat with
  | 5 => some .t0
  | 6 => some .t1
  | 7 => some .t2
  | 10 => some .a0
  | 11 => some .a1
  | 12 => some .a2
  | 13 => some .a3
  | 14 => some .a4
  | 15 => some .a5
  | 16 => some .a6
  | 17 => some .a7
  | 28 => some .t3
  | 29 => some .t4
  | 30 => some .t5
  | 31 => some .t6
  | _ => none

end Firmware

/-! ### Decoding -/

theorem append_inj {v w : Nat} {a c : BitVec v} {b d : BitVec w} :
    a ++ b = c ++ d ↔ a = c ∧ b = d := by
  constructor
  · intro h
    have hlow := congrArg (BitVec.setWidth w) h
    rw [BitVec.setWidth_append_eq_right, BitVec.setWidth_append_eq_right] at hlow
    rw [hlow, BitVec.append_left_inj] at h
    exact ⟨h, hlow⟩
  · rintro ⟨rfl, rfl⟩
    rfl

theorem word_inj {f g : Fields} : f.word = g.word ↔ f = g := by
  constructor
  · intro h
    simp only [Fields.word, append_inj] at h
    obtain ⟨h7, h2, h1, h3, hrd, hop⟩ := h
    cases f
    cases g
    simp_all
  · rintro rfl
    rfl

theorem word_fields (x : BitVec 32) : (fields x).word = x := by
  simp only [fields, Fields.word]
  rw [BitVec.extractLsb'_append_extractLsb'_eq_extractLsb' (by decide : 7 = 0 + 7),
    BitVec.extractLsb'_append_extractLsb'_eq_extractLsb' (by decide : 12 = 0 + (5 + 7)),
    BitVec.extractLsb'_append_extractLsb'_eq_extractLsb' (by decide : 15 = 0 + (3 + (5 + 7))),
    BitVec.extractLsb'_append_extractLsb'_eq_extractLsb' (by decide : 20 = 0 + (5 + (3 + (5 + 7)))),
    BitVec.extractLsb'_append_extractLsb'_eq_extractLsb'
      (by decide : 25 = 0 + (5 + (5 + (3 + (5 + 7)))))]
  exact BitVec.extractLsb'_eq_self

theorem fields_word (f : Fields) : fields f.word = f := word_inj.mp (word_fields f.word)

theorem and_all7 (x : BitVec 7) : x &&& 127 = x := BitVec.and_allOnes

theorem and_all5 (x : BitVec 5) : x &&& 31 = x := BitVec.and_allOnes

theorem and_all3 (x : BitVec 3) : x &&& 7 = x := BitVec.and_allOnes

theorem word_and (f g : Fields) : f.word &&& g.word =
    Fields.word ⟨f.funct7 &&& g.funct7, f.rs2 &&& g.rs2, f.rs1 &&& g.rs1, f.funct3 &&& g.funct3,
      f.rd &&& g.rd, f.opcode &&& g.opcode⟩ := by
  simp only [Fields.word, BitVec.and_append]

/-- A mask and a pattern are compared field by field. -/
theorem and_word_eq (x : BitVec 32) (mask pat : Fields) : x &&& mask.word = pat.word ↔
    Fields.mk ((fields x).funct7 &&& mask.funct7) ((fields x).rs2 &&& mask.rs2)
      ((fields x).rs1 &&& mask.rs1) ((fields x).funct3 &&& mask.funct3) ((fields x).rd &&& mask.rd)
      ((fields x).opcode &&& mask.opcode) = pat := by
  rw [← word_inj, ← word_and, word_fields]

/-- The test for `rdtime` is exact. -/
theorem rdtime_iff (x : BitVec 32) :
    x &&& 0xFFFFF07F = 0xC0102073 ↔ ∃ rd, x = rdtimeWord rd := by
  have hmask : (0xFFFFF07F : BitVec 32) = Fields.word ⟨127, 31, 31, 7, 0, 127⟩ := by decide
  have hpat : (0xC0102073 : BitVec 32) = Fields.word ⟨0x60, 1, 0, 2, 0, 0x73⟩ := by decide
  rw [hmask, hpat, and_word_eq]
  simp only [Fields.mk.injEq, and_all7, and_all5, and_all3]
  constructor
  · rintro ⟨h7, h2, h1, h3, -, hop⟩
    refine ⟨(fields x).rd, ?_⟩
    rw [rdtimeWord, ← h7, ← h2, ← h1, ← h3, ← hop]
    exact (word_fields x).symm
  · rintro ⟨rd, rfl⟩
    rw [rdtimeWord, fields_word]
    exact ⟨rfl, rfl, rfl, rfl, BitVec.and_zero, rfl⟩

/-- So is the one for `sfence.vma`. -/
theorem sfenceVma_iff (x : BitVec 32) :
    x &&& 0xFE007FFF = 0x12000073 ↔ ∃ rs1 rs2, x = sfenceVmaWord rs1 rs2 := by
  have hmask : (0xFE007FFF : BitVec 32) = Fields.word ⟨127, 0, 0, 7, 31, 127⟩ := by decide
  have hpat : (0x12000073 : BitVec 32) = Fields.word ⟨9, 0, 0, 0, 0, 0x73⟩ := by decide
  rw [hmask, hpat, and_word_eq]
  simp only [Fields.mk.injEq, and_all7, and_all5, and_all3]
  constructor
  · rintro ⟨h7, -, -, h3, hrd, hop⟩
    refine ⟨(fields x).rs1, (fields x).rs2, ?_⟩
    rw [sfenceVmaWord, ← h7, ← hop, ← h3, ← hrd]
    exact (word_fields x).symm
  · rintro ⟨rs1, rs2, rfl⟩
    rw [sfenceVmaWord, fields_word]
    exact ⟨rfl, BitVec.and_zero, BitVec.and_zero, rfl, rfl, rfl⟩

theorem rdtimeWord_rd (rd : BitVec 5) : ((rdtimeWord rd >>> 7) &&& 31).toNat = rd.toNat := by
  revert rd
  decide

theorem rdtimeWord_ne_sfenceVmaWord (rd rs1 rs2 : BitVec 5) : rdtimeWord rd ≠ sfenceVmaWord rs1 rs2 := by
  intro h
  rw [rdtimeWord, sfenceVmaWord, word_inj, Fields.mk.injEq] at h
  exact absurd h.1 (by decide)

/-! ### What the kernel sees of a trap -/

namespace Firmware
variable {env : Env} {regs : Reg → Word} {s : Hart}

/-- The instruction at `mepc`. -/
def insn (env : Env) (s : Hart) : BitVec 32 := getVaddrU32 env s s.mepc

theorem load_save : load (save regs) regs = regs := by
  funext r
  cases r <;> rfl

/-- `set_rd` changes the register that the instruction names. -/
theorem setRd_save (rd : BitVec 5) (value : Word) :
    (setRd (save regs) rd.toNat value).map (fun f => load f regs) =
      (rdtimeReg rd).map fun r => Function.update regs r value := by
  have hlt := rd.isLt
  unfold rdtimeReg
  generalize rd.toNat = n at hlt ⊢
  interval_cases n
  all_goals first
    | rfl
    | refine congrArg some (funext fun r => ?_)
      cases r <;> rfl

theorem satp_mask (x : Word) :
    (x &&& 0xFFFFFFFFFFF) &&& 0x3FFFFFFFFF = BitVec.ofNat 64 (x.toNat % 2 ^ 38) := by
  have hmask : (0xFFFFFFFFFFF : Word) &&& 0x3FFFFFFFFF = 0x3FFFFFFFFF := by decide
  rw [BitVec.and_assoc, hmask]
  apply BitVec.eq_of_toNat_eq
  have hand : x.toNat &&& 0x3FFFFFFFFF = x.toNat % 2 ^ 38 := Nat.and_two_pow_sub_one_eq_mod _ 38
  have hlt := Nat.mod_lt x.toNat (by decide : 0 < 2 ^ 38)
  rw [BitVec.toNat_and, BitVec.toNat_ofNat, Nat.mod_eq_of_lt (by omega)]
  exact hand

/-- An instruction that the hart does not have: `rdtime` into a register that `set_rd` knows and
`sfence.vma` are emulated, and whatever else it is, the firmware halts. -/
theorem emulated (env : Env) (regs : Reg → Word) (s : Hart) :
    (∃ rd, insn env s = rdtimeWord rd ∧ startTrap env .illegalInstruction regs s =
      (rdtimeReg rd).map fun r => (Function.update regs r s.mtime, skip s)) ∨
    (∃ rs1 rs2, insn env s = sfenceVmaWord rs1 rs2 ∧ startTrap env .illegalInstruction regs s =
      some (regs, skip { s with
        satp := BitVec.ofNat 64 (s.satp.toNat % 2 ^ 38)
        mstatus := (s.mstatus &&& ~~~(0x1F000000 : Word)) ||| ((9 : Word) <<< 24) })) ∨
    ((∀ rd, insn env s ≠ rdtimeWord rd) ∧ (∀ rs1 rs2, insn env s ≠ sfenceVmaWord rs1 rs2) ∧
      startTrap env .illegalInstruction regs s = none) := by
  by_cases hrdtime : ∃ rd, insn env s = rdtimeWord rd
  · left
    obtain ⟨rd, hrd⟩ := hrdtime
    refine ⟨rd, hrd, ?_⟩
    have hset := @setRd_save regs rd s.mtime
    have htest : insn env s &&& 0xFFFFF07F = 0xC0102073 := (rdtime_iff _).mpr ⟨rd, hrd⟩
    unfold startTrap startTrapRust illegalInstruction
    rw [insn] at htest hrd
    rw [if_pos htest, hrd, rdtimeWord_rd, Option.map_map]
    cases hsave : setRd (save regs) rd.toNat s.mtime with
    | none =>
      rw [hsave, Option.map_none] at hset
      rw [Option.map_eq_none_iff.mp hset.symm]
      rfl
    | some f =>
      rw [hsave, Option.map_some] at hset
      obtain ⟨r, hr, hupdate⟩ := Option.map_eq_some_iff.mp hset.symm
      rw [hr, Option.map_some, Option.map_some, Function.comp_apply, hupdate]
  · right
    have htest : ¬ insn env s &&& 0xFFFFF07F = 0xC0102073 := fun h => hrdtime ((rdtime_iff _).mp h)
    rw [not_exists] at hrdtime
    by_cases hsfence : ∃ rs1 rs2, insn env s = sfenceVmaWord rs1 rs2
    · left
      obtain ⟨rs1, rs2, hins⟩ := hsfence
      refine ⟨rs1, rs2, hins, ?_⟩
      have htest2 : insn env s &&& 0xFE007FFF = 0x12000073 := (sfenceVma_iff _).mpr ⟨rs1, rs2, hins⟩
      unfold startTrap startTrapRust illegalInstruction
      rw [insn] at htest htest2
      rw [if_neg htest, if_pos htest2, Option.map_some, load_save, satp_mask]
    · right
      have htest2 : ¬ insn env s &&& 0xFE007FFF = 0x12000073 := fun h => hsfence ((sfenceVma_iff _).mp h)
      refine ⟨hrdtime, fun rs1 rs2 h => hsfence ⟨rs1, rs2, h⟩, ?_⟩
      unfold startTrap startTrapRust illegalInstruction
      rw [insn] at htest htest2
      rw [if_neg htest, if_neg htest2, Option.map_none]

end Firmware

end PageFaultOS
