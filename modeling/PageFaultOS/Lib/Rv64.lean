import Mathlib.Tactic
import PageFaultOS.Lib.ByteMem

/-! The supervisor side of an RV64 hart: registers, control registers, traps, `sret` and the
few instructions that trap and context-switch code is made of. How addresses are mapped and
instructions fetched is a parameter. The rules at the end run a block of register stores or
loads in one step. -/

namespace Rv64
open ByteMem

abbrev Word := BitVec 64

/-- The registers `x1` to `x31`. -/
inductive Reg where
  | ra | sp | gp | tp | t0 | t1 | t2 | s0 | s1 | a0 | a1 | a2 | a3 | a4 | a5 | a6 | a7
  | s2 | s3 | s4 | s5 | s6 | s7 | s8 | s9 | s10 | s11 | t3 | t4 | t5 | t6
  deriving DecidableEq, Repr

inductive Csr where
  | sstatus | sie | stvec | sscratch | sepc | scause | stval | satp
  deriving DecidableEq, Repr

inductive Mode where
  | user | supervisor
  deriving DecidableEq, Repr

inductive Access where
  | read | write
  deriving DecidableEq, Repr

inductive Instr where
  | addi (dst src : Reg) (imm : Int)
  | ld (dst base : Reg) (off : Nat)
  | sd (src base : Reg) (off : Nat)
  | csrr (dst : Reg) (c : Csr)
  | csrw (c : Csr) (src : Reg)
  | csrrw (dst : Reg) (c : Csr) (src : Reg)
  | sfenceVma
  | jr (target : Reg)
  | call (target : Word)
  | sret
  deriving DecidableEq, Repr

structure Machine where
  mode : Mode
  pc : Word
  regs : Reg → Word
  csrs : Csr → Word
  mem : Mem

/-- How an address is mapped for a load or a store, which instruction is fetched at one, and
how long an instruction is. -/
structure Platform where
  fetch : Mode → (Csr → Word) → Mem → Word → Option Instr
  data : Access → Mode → (Csr → Word) → Mem → Word → Option Nat
  size : Instr → Nat

def sstatusSIE : Word := 2
def sstatusSPIE : Word := 32
def sstatusSPP : Word := 256

/-- `sstatus` after a trap from `mode`: the interrupt enable moves to `SPIE`. -/
def trapStatus (mode : Mode) (x : Word) : Word :=
  let x := if x &&& sstatusSIE = 0 then x &&& ~~~sstatusSPIE else x ||| sstatusSPIE
  let x := x &&& ~~~sstatusSIE
  match mode with
  | .user => x &&& ~~~sstatusSPP
  | .supervisor => x ||| sstatusSPP

/-- `sstatus` after `sret`: the interrupt enable comes back from `SPIE`. -/
def retStatus (x : Word) : Word :=
  let x := if x &&& sstatusSPIE = 0 then x &&& ~~~sstatusSIE else x ||| sstatusSIE
  (x ||| sstatusSPIE) &&& ~~~sstatusSPP

/-- Where a trap goes: `stvec` without its two mode bits, in vectored mode an interrupt
adds four times its number. -/
def trapTarget (stvec cause : Word) : Word :=
  if stvec &&& 3 = 1 ∧ cause.msb then (stvec &&& ~~~3) + 4 * cause else stvec &&& ~~~3

/-- The hart takes a trap. -/
def Machine.trap (s : Machine) (cause val : Word) : Machine :=
  { s with
    mode := .supervisor
    pc := trapTarget (s.csrs .stvec) cause
    csrs := fun c => match c with
      | .sepc => s.pc
      | .scause => cause
      | .stval => val
      | .sstatus => trapStatus s.mode (s.csrs .sstatus)
      | c => s.csrs c }

/-- Jumps and `sret` go to even addresses. -/
def evenPc (target : Word) : Word := target &&& ~~~1

def Machine.ret (s : Machine) : Machine :=
  { s with
    mode := if s.csrs .sstatus &&& sstatusSPP = 0 then .user else .supervisor
    pc := evenPc (s.csrs .sepc)
    csrs := Function.update s.csrs .sstatus (retStatus (s.csrs .sstatus)) }

def Machine.setReg (s : Machine) (r : Reg) (v : Word) : Machine :=
  { s with regs := Function.update s.regs r v }

def Machine.setCsr (s : Machine) (c : Csr) (v : Word) : Machine :=
  { s with csrs := Function.update s.csrs c v }

def Machine.advance (s : Machine) (n : Nat) : Machine :=
  { s with pc := s.pc + BitVec.ofNat 64 n }

variable (P : Platform)

/-- The effect of one instruction, in supervisor mode; `none` where it faults. -/
def exec (s : Machine) (i : Instr) : Option Machine :=
  match i with
  | .addi dst src imm =>
    some ((s.setReg dst (s.regs src + BitVec.ofInt 64 imm)).advance (P.size i))
  | .ld dst base off =>
    (P.data .read s.mode s.csrs s.mem (s.regs base + BitVec.ofNat 64 off)).map fun pa =>
      (s.setReg dst (BitVec.ofNat 64 (readWord s.mem pa))).advance (P.size i)
  | .sd src base off =>
    (P.data .write s.mode s.csrs s.mem (s.regs base + BitVec.ofNat 64 off)).map fun pa =>
      { s with mem := writeWord s.mem pa (s.regs src).toNat }.advance (P.size i)
  | .csrr dst c => some ((s.setReg dst (s.csrs c)).advance (P.size i))
  | .csrw c src => some ((s.setCsr c (s.regs src)).advance (P.size i))
  | .csrrw dst c src =>
    some (((s.setCsr c (s.regs src)).setReg dst (s.csrs c)).advance (P.size i))
  | .sfenceVma => some (s.advance (P.size i))
  | .jr target => some { s with pc := evenPc (s.regs target) }
  | .call target => some { s.setReg .ra (s.pc + BitVec.ofNat 64 (P.size i)) with pc := target }
  | .sret => some s.ret

def step (s : Machine) : Option Machine :=
  (P.fetch s.mode s.csrs s.mem s.pc).bind (exec P s)

/-- The machine after `n` steps. -/
def run : Nat → Machine → Option Machine
  | 0, s => some s
  | n + 1, s => (step P s).bind (run n)

/-- The instructions `l` are fetched one behind the other from `pc` on, wherever `I` holds of the
mode, the control registers and the memory. -/
def CodeAt (I : Mode → (Csr → Word) → Mem → Prop) (pc : Word) : List Instr → Prop
  | [] => True
  | i :: l => (∀ mode csrs m, I mode csrs m → P.fetch mode csrs m pc = some i) ∧
    CodeAt I (pc + BitVec.ofNat 64 (P.size i)) l

def codeSize (l : List Instr) : Nat := (l.map P.size).sum

/-- Words at offsets below `n` are mapped from `va` to `pa`, and no store between `pa` and `pa + n`
changes that. -/
def Area (mode : Mode) (csrs : Csr → Word) (m : Mem) (va : Word) (pa n : Nat) : Prop :=
  ∀ m', (∀ b, b < pa ∨ pa + n ≤ b → m' b = m b) → ∀ off, off % 8 = 0 → off + 8 ≤ n →
    ∀ acc, P.data acc mode csrs m' (va + BitVec.ofNat 64 off) = some (pa + off)

/-- Each register of the list has an aligned word of its own among the first `n` bytes. -/
structure Layout (l : List (Reg × Nat)) (n : Nat) : Prop where
  regs : (l.map Prod.fst).Nodup
  offs : (l.map Prod.snd).Nodup
  fits : ∀ p ∈ l, p.2 % 8 = 0 ∧ p.2 + 8 ≤ n

def saves (base : Reg) (l : List (Reg × Nat)) : List Instr := l.map fun p => .sd p.1 base p.2

def restores (base : Reg) (l : List (Reg × Nat)) : List Instr := l.map fun p => .ld p.1 base p.2

/-- The memory after the registers of the list are stored from `pa` on. -/
def saved (m : Mem) (pa : Nat) (regs : Reg → Word) : List (Reg × Nat) → Mem
  | [] => m
  | p :: l => saved (writeWord m (pa + p.2) (regs p.1).toNat) pa regs l

/-- The registers after those of the list are loaded. -/
def loaded (m : Mem) (pa : Nat) (regs : Reg → Word) (l : List (Reg × Nat)) : Reg → Word := fun r =>
  match l.find? fun p => p.1 = r with
  | some p => BitVec.ofNat 64 (readWord m (pa + p.2))
  | none => regs r

section Basic
variable {P} {s t u : Machine} {I : Mode → (Csr → Word) → Mem → Prop}

@[simp] theorem run_zero : run P 0 s = some s := rfl

theorem run_succ {n : Nat} (h : step P s = some t) : run P (n + 1) s = run P n t := by
  rw [run, h, Option.bind_some]

theorem run_add {m n : Nat} (h : run P m s = some t) : run P (m + n) s = run P n t := by
  induction m generalizing s with
  | zero =>
    cases h
    rw [Nat.zero_add]
  | succ m ih =>
    obtain ⟨u, hu, hrest⟩ := Option.bind_eq_some_iff.mp h
    rw [Nat.add_right_comm, run_succ hu]
    exact ih hrest

@[simp] theorem advance_mode (n : Nat) : (s.advance n).mode = s.mode := rfl
@[simp] theorem advance_pc (n : Nat) : (s.advance n).pc = s.pc + BitVec.ofNat 64 n := rfl
@[simp] theorem advance_regs (n : Nat) : (s.advance n).regs = s.regs := rfl
@[simp] theorem advance_csrs (n : Nat) : (s.advance n).csrs = s.csrs := rfl
@[simp] theorem advance_mem (n : Nat) : (s.advance n).mem = s.mem := rfl
@[simp] theorem setReg_mode (r : Reg) (v : Word) : (s.setReg r v).mode = s.mode := rfl
@[simp] theorem setReg_pc (r : Reg) (v : Word) : (s.setReg r v).pc = s.pc := rfl
@[simp] theorem setReg_regs (r : Reg) (v : Word) :
    (s.setReg r v).regs = Function.update s.regs r v := rfl
@[simp] theorem setReg_csrs (r : Reg) (v : Word) : (s.setReg r v).csrs = s.csrs := rfl
@[simp] theorem setReg_mem (r : Reg) (v : Word) : (s.setReg r v).mem = s.mem := rfl
@[simp] theorem setCsr_mode (c : Csr) (v : Word) : (s.setCsr c v).mode = s.mode := rfl
@[simp] theorem setCsr_pc (c : Csr) (v : Word) : (s.setCsr c v).pc = s.pc := rfl
@[simp] theorem setCsr_regs (c : Csr) (v : Word) : (s.setCsr c v).regs = s.regs := rfl
@[simp] theorem setCsr_csrs (c : Csr) (v : Word) :
    (s.setCsr c v).csrs = Function.update s.csrs c v := rfl
@[simp] theorem setCsr_mem (c : Csr) (v : Word) : (s.setCsr c v).mem = s.mem := rfl

theorem advance_advance (m n : Nat) : (s.advance m).advance n = s.advance (m + n) := by
  simp only [Machine.advance, BitVec.ofNat_add, BitVec.add_assoc]

@[simp] theorem codeSize_nil : codeSize P [] = 0 := rfl

@[simp] theorem codeSize_cons (i : Instr) (l : List Instr) :
    codeSize P (i :: l) = P.size i + codeSize P l := rfl

theorem codeSize_append (l l' : List Instr) :
    codeSize P (l ++ l') = codeSize P l + codeSize P l' := by
  simp [codeSize]

theorem codeAt_append {pc : Word} {l l' : List Instr} :
    CodeAt P I pc (l ++ l') ↔ CodeAt P I pc l ∧ CodeAt P I (pc + BitVec.ofNat 64 (codeSize P l)) l' := by
  induction l generalizing pc with
  | nil => simp [CodeAt, codeSize]
  | cons i l ih =>
    have hpc : pc + BitVec.ofNat 64 (P.size i) + BitVec.ofNat 64 (codeSize P l) =
        pc + BitVec.ofNat 64 (codeSize P (i :: l)) := by
      rw [codeSize_cons, BitVec.ofNat_add, ← BitVec.add_assoc]
    rw [List.cons_append, CodeAt, CodeAt, ih, and_assoc, hpc]

/-- The instruction at hand is executed. -/
theorem run_fetched {i : Instr} {n : Nat}
    (hfetch : ∀ mode csrs m, I mode csrs m → P.fetch mode csrs m s.pc = some i)
    (hI : I s.mode s.csrs s.mem) (h : exec P s i = some t) :
    run P (n + 1) s = run P n t := by
  apply run_succ
  rw [step, hfetch _ _ _ hI, Option.bind_some]
  exact h

end Basic

section Blocks
variable {P} {mode : Mode} {csrs : Csr → Word} {m : Mem} {va : Word} {pa n : Nat}
  {l : List (Reg × Nat)} {I : Mode → (Csr → Word) → Mem → Prop}

theorem Area.congr (h : Area P mode csrs m va pa n) {m' : Mem}
    (hm : ∀ b, b < pa ∨ pa + n ≤ b → m' b = m b) : Area P mode csrs m' va pa n := by
  intro m'' hm''
  apply h m''
  intro b hb
  rw [hm'' b hb, hm b hb]

theorem Area.exec_ld (h : Area P mode csrs m va pa n) {s : Machine} {base : Reg}
    (hs : s.mode = mode ∧ s.csrs = csrs ∧ s.mem = m ∧ s.regs base = va) (dst : Reg) (off : Nat)
    (hoff : off % 8 = 0) (hfit : off + 8 ≤ n) :
    exec P s (.ld dst base off) =
      some ((s.setReg dst (BitVec.ofNat 64 (readWord s.mem (pa + off)))).advance
        (P.size (.ld dst base off))) := by
  obtain ⟨rfl, rfl, rfl, rfl⟩ := hs
  rw [exec, h s.mem (fun _ _ => rfl) off hoff hfit, Option.map_some]

theorem Area.exec_sd (h : Area P mode csrs m va pa n) {s : Machine} {base : Reg}
    (hs : s.mode = mode ∧ s.csrs = csrs ∧ s.mem = m ∧ s.regs base = va) (src : Reg) (off : Nat)
    (hoff : off % 8 = 0) (hfit : off + 8 ≤ n) :
    exec P s (.sd src base off) =
      some ({ s with mem := writeWord s.mem (pa + off) (s.regs src).toNat }.advance
        (P.size (.sd src base off))) := by
  obtain ⟨rfl, rfl, rfl, rfl⟩ := hs
  rw [exec, h s.mem (fun _ _ => rfl) off hoff hfit, Option.map_some]

theorem Layout.tail {p : Reg × Nat} (h : Layout (p :: l) n) : Layout l n :=
  ⟨h.regs.of_cons, h.offs.of_cons, fun q hq => h.fits q (List.mem_cons_of_mem _ hq)⟩

theorem Layout.head {p : Reg × Nat} (h : Layout (p :: l) n) : p.2 % 8 = 0 ∧ p.2 + 8 ≤ n :=
  h.fits p List.mem_cons_self

theorem saved_outside (hfits : Layout l n) (regs : Reg → Word) {b : Nat}
    (hb : ∀ p ∈ l, b < pa + p.2 ∨ pa + p.2 + 8 ≤ b) : saved m pa regs l b = m b := by
  induction l generalizing m with
  | nil => rfl
  | cons p l ih =>
    rw [saved, ih hfits.tail (fun q hq => hb q (List.mem_cons_of_mem _ hq))]
    exact writeWord_apply_of_outside _ _ _ _ (hb p List.mem_cons_self)

/-- Bytes outside the area are unchanged. -/
theorem saved_outside_area (hfits : Layout l n) (regs : Reg → Word) {b : Nat}
    (hb : b < pa ∨ pa + n ≤ b) : saved m pa regs l b = m b := by
  apply saved_outside hfits
  intro p hp
  have := hfits.fits p hp
  omega

theorem saved_word_outside (hfits : Layout l n) (regs : Reg → Word) {b : Nat}
    (hb : ∀ p ∈ l, b + 8 ≤ pa + p.2 ∨ pa + p.2 + 8 ≤ b) :
    readWord (saved m pa regs l) b = readWord m b := by
  apply readWord_congr
  intro c hc hc'
  apply saved_outside hfits
  intro p hp
  have := hb p hp
  omega

/-- Two words of a layout are the same or apart. -/
theorem Layout.apart {p q : Reg × Nat} (h : Layout (p :: l) n) (hq : q ∈ l) :
    p.2 + 8 ≤ q.2 ∨ q.2 + 8 ≤ p.2 := by
  have hne : p.2 ≠ q.2 := fun he => (List.nodup_cons.mp h.offs).1 (he ▸ List.mem_map_of_mem hq)
  have h1 := h.head
  have h2 := h.fits q (List.mem_cons_of_mem _ hq)
  omega

/-- Each register is where it was stored. -/
theorem readWord_saved (hfits : Layout l n) (regs : Reg → Word) {p : Reg × Nat} (hp : p ∈ l) :
    readWord (saved m pa regs l) (pa + p.2) = (regs p.1).toNat := by
  induction l generalizing m with
  | nil => cases hp
  | cons q l ih =>
    rw [saved]
    rcases List.mem_cons.mp hp with rfl | hp
    · rw [saved_word_outside hfits.tail regs, readWord_writeWord,
        Nat.mod_eq_of_lt (regs p.1).isLt]
      intro q hq
      have := hfits.apart hq
      omega
    · exact ih hfits.tail hp

theorem loaded_of_mem (hfits : Layout l n) (regs : Reg → Word) {p : Reg × Nat} (hp : p ∈ l) :
    loaded m pa regs l p.1 = BitVec.ofNat 64 (readWord m (pa + p.2)) := by
  have hfind : l.find? (fun q => q.1 = p.1) = some p := by
    induction l with
    | nil => cases hp
    | cons q l ih =>
      rcases List.mem_cons.mp hp with rfl | hp
      · simp
      · have hne : q.1 ≠ p.1 := fun he =>
          (List.nodup_cons.mp hfits.regs).1 (he ▸ List.mem_map_of_mem hp)
        rw [List.find?_cons_of_neg (by simpa using hne)]
        exact ih hfits.tail hp
  rw [loaded, hfind]

theorem loaded_other (regs : Reg → Word) {r : Reg} (hr : r ∉ l.map Prod.fst) :
    loaded m pa regs l r = regs r := by
  have hfind : l.find? (fun q => q.1 = r) = none := by
    rw [List.find?_eq_none]
    intro q hq
    simp only [decide_eq_true_eq]
    exact fun he => hr (he ▸ List.mem_map_of_mem hq)
  rw [loaded, hfind]

/-- Registers that are loaded from where they were stored. -/
theorem loaded_saved (hfits : Layout l n) (regs regs' : Reg → Word) {r : Reg}
    (hr : r ∈ l.map Prod.fst) {m' : Mem}
    (hm : ∀ p ∈ l, readWord m' (pa + p.2) = readWord (saved m pa regs l) (pa + p.2)) :
    loaded m' pa regs' l r = regs r := by
  obtain ⟨p, hp, rfl⟩ := List.mem_map.mp hr
  rw [loaded_of_mem hfits regs' hp, hm p hp, readWord_saved hfits regs hp, BitVec.ofNat_toNat,
    BitVec.setWidth_eq]

private theorem loaded_cons (regs : Reg → Word) {p : Reg × Nat} (hfits : Layout (p :: l) n) :
    loaded m pa (Function.update regs p.1 (BitVec.ofNat 64 (readWord m (pa + p.2)))) l =
      loaded m pa regs (p :: l) := by
  funext r
  by_cases hr : r ∈ l.map Prod.fst
  · obtain ⟨q, hq, rfl⟩ := List.mem_map.mp hr
    rw [loaded_of_mem hfits.tail _ hq, loaded_of_mem hfits _ (List.mem_cons_of_mem _ hq)]
  · rw [loaded_other _ hr]
    by_cases hrp : r = p.1
    · subst hrp
      rw [Function.update_self, loaded_of_mem hfits _ List.mem_cons_self]
    · rw [Function.update_of_ne hrp, loaded_other _ (by simp [hrp]; simpa using hr)]

private theorem run_saves_eq {s : Machine} {base : Reg} (hfits : Layout l n)
    (hcode : CodeAt P I s.pc (saves base l)) (harea : Area P s.mode s.csrs s.mem (s.regs base) pa n)
    (hI : ∀ m', (∀ b, b < pa ∨ pa + n ≤ b → m' b = s.mem b) → I s.mode s.csrs m') :
    run P l.length s =
      some ({ s with mem := saved s.mem pa s.regs l }.advance (codeSize P (saves base l))) := by
  induction l generalizing s with
  | nil =>
    simp only [saves, saved, codeSize, List.map_nil, List.sum_nil, Machine.advance,
      BitVec.add_zero]
    rfl
  | cons p l ih =>
    have hp := hfits.head
    have hmem : ∀ b, b < pa ∨ pa + n ≤ b →
        writeWord s.mem (pa + p.2) (s.regs p.1).toNat b = s.mem b := by
      intro b hb
      exact writeWord_apply_of_outside _ _ _ _ (by omega)
    have hfirst := fun n => run_fetched (n := n) hcode.1 (hI s.mem fun _ _ => rfl)
      (harea.exec_sd (by simp) p.1 p.2 hp.1 hp.2)
    have hrest := ih (s := { s with mem := writeWord s.mem (pa + p.2) (s.regs p.1).toNat }.advance
      (P.size (.sd p.1 base p.2))) hfits.tail hcode.2 (harea.congr hmem) (by
        intro m' hm'
        apply hI m'
        intro b hb
        rw [hm' b hb]
        exact hmem b hb)
    rw [List.length_cons, hfirst l.length, show codeSize P (saves base (p :: l)) =
      P.size (.sd p.1 base p.2) + codeSize P (saves base l) from rfl, ← advance_advance]
    exact hrest

private theorem run_restores_eq {s : Machine} {base : Reg} (hfits : Layout l n)
    (hcode : CodeAt P I s.pc (restores base l))
    (harea : Area P s.mode s.csrs s.mem (s.regs base) pa n) (hI : I s.mode s.csrs s.mem)
    (hbase : ∀ p ∈ l, p.1 = base → BitVec.ofNat 64 (readWord s.mem (pa + p.2)) = s.regs base) :
    run P l.length s =
      some ({ s with regs := loaded s.mem pa s.regs l }.advance (codeSize P (restores base l))) := by
  induction l generalizing s with
  | nil =>
    simp only [restores, codeSize, List.map_nil, List.sum_nil, Machine.advance,
      BitVec.add_zero]
    rfl
  | cons p l ih =>
    have hp := hfits.head
    have hkeep : Function.update s.regs p.1 (BitVec.ofNat 64 (readWord s.mem (pa + p.2))) base =
        s.regs base := by
      by_cases hpb : base = p.1
      · subst hpb
        rw [Function.update_self]
        exact hbase p List.mem_cons_self rfl
      · rw [Function.update_of_ne hpb]
    have hfirst := fun n => run_fetched (n := n) hcode.1 hI (harea.exec_ld (by simp) p.1 p.2 hp.1 hp.2)
    have hrest := ih (s := (s.setReg p.1 (BitVec.ofNat 64 (readWord s.mem (pa + p.2)))).advance
      (P.size (.ld p.1 base p.2))) hfits.tail hcode.2 (by
        simp only [advance_mode, advance_csrs, advance_mem, advance_regs, setReg_mode, setReg_csrs,
          setReg_mem, setReg_regs, hkeep]
        exact harea) hI (by
        intro q hq hqb
        simp only [advance_mem, advance_regs, setReg_mem, setReg_regs, hkeep]
        exact hbase q (List.mem_cons_of_mem _ hq) hqb)
    rw [List.length_cons, hfirst l.length, show codeSize P (restores base (p :: l)) =
      P.size (.ld p.1 base p.2) + codeSize P (restores base l) from rfl, ← advance_advance,
      ← loaded_cons s.regs hfits]
    exact hrest

/-- A block of stores runs to its end. -/
theorem run_saves {s : Machine} {base : Reg} (hfits : Layout l n)
    (hcode : CodeAt P I s.pc (saves base l)) (harea : Area P s.mode s.csrs s.mem (s.regs base) pa n)
    (hI : ∀ m', (∀ b, b < pa ∨ pa + n ≤ b → m' b = s.mem b) → I s.mode s.csrs m') :
    ∃ t, run P l.length s = some t ∧ t.mode = s.mode ∧ t.csrs = s.csrs ∧ t.regs = s.regs ∧
      t.mem = saved s.mem pa s.regs l ∧
      t.pc = s.pc + BitVec.ofNat 64 (codeSize P (saves base l)) :=
  ⟨_, run_saves_eq hfits hcode harea hI, by rw [advance_mode], by rw [advance_csrs],
    by rw [advance_regs], by rw [advance_mem], by rw [advance_pc]⟩

/-- A block of loads runs to its end; where it loads its base, the word that is there has to be
the base itself. -/
theorem run_restores {s : Machine} {base : Reg} (hfits : Layout l n)
    (hcode : CodeAt P I s.pc (restores base l))
    (harea : Area P s.mode s.csrs s.mem (s.regs base) pa n) (hI : I s.mode s.csrs s.mem)
    (hbase : ∀ p ∈ l, p.1 = base → BitVec.ofNat 64 (readWord s.mem (pa + p.2)) = s.regs base) :
    ∃ t, run P l.length s = some t ∧ t.mode = s.mode ∧ t.csrs = s.csrs ∧
      t.regs = loaded s.mem pa s.regs l ∧ t.mem = s.mem ∧
      t.pc = s.pc + BitVec.ofNat 64 (codeSize P (restores base l)) :=
  ⟨_, run_restores_eq hfits hcode harea hI hbase, by rw [advance_mode], by rw [advance_csrs],
    by rw [advance_regs], by rw [advance_mem], by rw [advance_pc]⟩

/-- A hart without an address map, that runs the code `l` from `base` on. -/
def flat (base : Nat) (l : List Instr) : Platform where
  fetch _ _ _ pc := l[(pc.toNat - base) / 4]?
  data _ _ _ _ va := some va.toNat
  size _ := 4

private theorem flat_codeAt_drop {base : Nat} {code : List Instr}
    (hlt : base + 4 * code.length < 2 ^ 64) (k : Nat) :
    CodeAt (flat base code) I (BitVec.ofNat 64 (base + 4 * k)) (code.drop k) := by
  induction h : code.drop k generalizing k with
  | nil => trivial
  | cons i rest ih =>
    have hget : code[k]? = some i := by
      rw [← List.head?_drop, h]
      rfl
    have hk : k < code.length := (List.getElem?_eq_some_iff.mp hget).1
    constructor
    · intro mode csrs m _
      have hdiv : ((BitVec.ofNat 64 (base + 4 * k)).toNat - base) / 4 = k := by
        rw [BitVec.toNat_ofNat]
        omega
      show code[((BitVec.ofNat 64 (base + 4 * k)).toNat - base) / 4]? = _
      rw [hdiv, hget]
    · have hnext := ih (k + 1) (by rw [← List.tail_drop, h]; rfl)
      rw [Nat.mul_add, ← Nat.add_assoc, BitVec.ofNat_add] at hnext
      exact hnext

theorem flat_codeAt {base : Nat} {code : List Instr} (hlt : base + 4 * code.length < 2 ^ 64) :
    CodeAt (flat base code) I (BitVec.ofNat 64 base) code :=
  flat_codeAt_drop hlt 0

-- proofs go through the lemmas above: evaluating a block register by register is slow
attribute [irreducible] saved loaded

end Blocks

end Rv64
