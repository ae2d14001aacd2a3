import Mathlib.Tactic
import PageFaultOS.Lib.Run
import PageFaultOS.Lib.Rv64
import PageFaultOS.Mm.PageTable
import PageFaultOS.Proc.Exec

/-! `uservec` and `userret` of `proc/trampoline.S`, with the start of `UserTrap` and
`UserTrapRet` of `trap/trap.cpp`: a process that is trapped, any number of times, goes on with the
registers that the kernel finds and leaves in its trapframe. -/

namespace PageFaultOS
open ByteMem Rv64

/-- The offsets of the user registers in `struct trapframe`. -/
def frameOff : Reg → Nat
  | .ra => 40 | .sp => 48 | .gp => 56 | .tp => 64 | .t0 => 72 | .t1 => 80 | .t2 => 88
  | .s0 => 96 | .s1 => 104 | .a0 => 112 | .a1 => 120 | .a2 => 128 | .a3 => 136 | .a4 => 144
  | .a5 => 152 | .a6 => 160 | .a7 => 168 | .s2 => 176 | .s3 => 184 | .s4 => 192 | .s5 => 200
  | .s6 => 208 | .s7 => 216 | .s8 => 224 | .s9 => 232 | .s10 => 240 | .s11 => 248
  | .t3 => 256 | .t4 => 264 | .t5 => 272 | .t6 => 280

/-- What the assembly saves and restores in one block: all but `a0`. -/
def userRegs : List (Reg × Nat) :=
  [(.ra, 40), (.sp, 48), (.gp, 56), (.tp, 64), (.t0, 72), (.t1, 80), (.t2, 88), (.s0, 96),
   (.s1, 104), (.a1, 120), (.a2, 128), (.a3, 136), (.a4, 144), (.a5, 152), (.a6, 160),
   (.a7, 168), (.s2, 176), (.s3, 184), (.s4, 192), (.s5, 200), (.s6, 208), (.s7, 216),
   (.s8, 224), (.s9, 232), (.s10, 240), (.s11, 248), (.t3, 256), (.t4, 264), (.t5, 272),
   (.t6, 280)]

def uservecEnd : List Instr :=
  [.csrr .t0 .sscratch, .sd .t0 .a0 112, .ld .sp .a0 8, .ld .tp .a0 32, .ld .t0 .a0 16,
   .ld .t1 .a0 0, .csrw .satp .t1, .sfenceVma, .jr .t0]

def uservec : List Instr := .csrrw .a0 .sscratch .a0 :: (saves .a0 userRegs ++ uservecEnd)

def userret : List Instr :=
  [.csrw .satp .a1, .sfenceVma, .ld .t0 .a0 112, .csrw .sscratch .t0] ++
    (restores .a0 userRegs ++ [.csrrw .a0 .sscratch .a0, .sret])

def trampolineCode : List Instr := uservec ++ userret

def satpOf (pagetable : Nat) : Word := BitVec.ofNat 64 (makeSatp pagetable)

/-- The place and the flags of a virtual address under the table that `satp` selects. -/
def sv39 (m : Mem) (satp va : Word) : Option (Nat × Nat) :=
  if satp.toNat / 2 ^ 60 = 8 ∧ (va.toNat < 2 ^ 38 ∨ 2 ^ 64 - 2 ^ 38 ≤ va.toNat) then
    (translate m (satp.toNat % 2 ^ 44 * 4096) va.toNat).map fun p => (p.1 + va.toNat % 4096, p.2)
  else
    none

/-- The flag that the access needs is set, and the page is the user's just in user mode (`SUM` and
`MXR` are clear). -/
def allowed (bit : Nat) (mode : Rv64.Mode) (flags : Nat) : Prop :=
  flags &&& bit ≠ 0 ∧ (mode = .user ↔ flags &&& pteU ≠ 0)

instance (bit : Nat) (mode : Rv64.Mode) (flags : Nat) : Decidable (allowed bit mode flags) :=
  inferInstanceAs (Decidable (_ ∧ _))

def accessBit : Access → Nat
  | .read => pteR
  | .write => pteW

/-- A hart with Sv39 tables. -/
def paged (decode : Mem → Nat → Option Instr) (size : Instr → Nat) : Platform where
  fetch mode csrs m va := (sv39 m (csrs .satp) va).bind fun p =>
    if allowed pteX mode p.2 then decode m p.1 else none
  data acc mode csrs m va :=
    if va.toNat % 8 = 0 then
      (sv39 m (csrs .satp) va).bind fun p =>
        if allowed (accessBit acc) mode p.2 then some p.1 else none
    else
      none
  size := size

/-- The instructions `l` stand in memory from `pa` on. -/
def CodeIn (decode : Mem → Nat → Option Instr) (size : Instr → Nat) (m : Mem) :
    Nat → List Instr → Prop
  | _, [] => True
  | pa, i :: l => decode m pa = some i ∧ CodeIn decode size m (pa + size i) l

/-- A process and what the kernel gave it: the trampoline's page, the trapframe, the two page
tables and the kernel stack, with the addresses of `UserTrap` and `kernvec`. -/
structure TrapProc where
  decode : Mem → Nat → Option Instr
  size : Instr → Nat
  code : Nat
  trapframe : Nat
  pagetable : Nat
  kpagetable : Nat
  kstack : Nat
  userTrap : Word
  kernvec : Word
  size_pos : ∀ i, 0 < size i
  code_fits : (trampolineCode.map size).sum ≤ 4096
  code_aligned : code % 4096 = 0
  frame_aligned : trapframe % 4096 = 0
  tables_aligned : pagetable % 4096 = 0 ∧ kpagetable % 4096 = 0
  tables_lt : pagetable < 2 ^ 56 ∧ kpagetable < 2 ^ 56
  kstack_lt : kstack + pgsize < 2 ^ 64
  userTrap_even : evenPc userTrap = userTrap

def TrapProc.platform (p : TrapProc) : Platform := paged p.decode p.size

/-- The trampoline is mapped at one address in both tables, the trapframe below it in the user's,
and no page that the user can write is one of these or of the tables. -/
structure TrapProc.Mapped (p : TrapProc) (m : Mem) : Prop where
  code : ∀ m', (∀ b, b / 4096 = p.code / 4096 → m' b = m b) →
    CodeIn p.decode p.size m' p.code trampolineCode
  userCode : translate m p.pagetable trampoline = some (p.code, pteV ||| pteR ||| pteX)
  kernelCode : translate m p.kpagetable trampoline = some (p.code, pteV ||| pteR ||| pteX)
  userFrame : translate m p.pagetable PageFaultOS.trapframe = some (p.trapframe, pteV ||| pteR ||| pteW)
  frameApart : p.trapframe ≠ p.code ∧ NotInTable m p.pagetable p.trapframe ∧
    NotInTable m p.kpagetable p.trapframe
  isolated : ∀ va f flags, translate m p.pagetable va = some (f, flags) → allowed pteW .user flags →
    f ≠ p.trapframe ∧ f ≠ p.code ∧ NotInTable m p.pagetable f ∧ NotInTable m p.kpagetable f

/-- The registers that a trapframe holds. -/
def frameRegs (m : Mem) (frame : Nat) : Reg → Word := fun r =>
  BitVec.ofNat 64 (readWord m (frame + frameOff r))

def frameEpc (m : Mem) (frame : Nat) : Word := BitVec.ofNat 64 (readWord m (frame + 24))

def setFrame (p : TrapProc) (off : Nat) (v : Word) (m : Mem) : Mem :=
  writeWord m (p.trapframe + off) v.toNat

/-- The start of `UserTrap`; `none` is its panic. -/
def userTrap (p : TrapProc) (s : Machine) : Option Machine :=
  if s.csrs .sstatus &&& sstatusSPP ≠ 0 then
    none
  else
    let s := s.setCsr .stvec p.kernvec
    some { s with mem := setFrame p 24 (s.csrs .sepc) s.mem }

/-- `UserTrapRet` up to the jump to `userret`. -/
def userTrapRet (p : TrapProc) (s : Machine) : Machine :=
  let s := s.setCsr .sstatus (s.csrs .sstatus &&& ~~~sstatusSIE)
  let s := s.setCsr .stvec (BitVec.ofNat 64 trampoline)
  let s := { s with mem := setFrame p 0 (s.csrs .satp) s.mem }
  let s := { s with mem := setFrame p 8 (BitVec.ofNat 64 (p.kstack + pgsize)) s.mem }
  let s := { s with mem := setFrame p 16 p.userTrap s.mem }
  let s := { s with mem := setFrame p 32 (s.regs .tp) s.mem }
  let s := s.setCsr .sstatus ((s.csrs .sstatus &&& ~~~sstatusSPP) ||| sstatusSPIE)
  let s := s.setCsr .sepc (frameEpc s.mem p.trapframe)
  let s := s.setReg .a0 (BitVec.ofNat 64 trapframe)
  let s := s.setReg .a1 (satpOf p.pagetable)
  { s with pc := BitVec.ofNat 64 (trampoline + codeSize p.platform uservec) }

/-- A trap from user mode, up to where `UserTrap` has saved the program counter. -/
def trapEnter (p : TrapProc) (cause val : Word) (s : Machine) : Option Machine :=
  (run p.platform uservec.length (s.trap cause val)).bind (userTrap p)

/-- The way back, up to the first user instruction. -/
def trapLeave (p : TrapProc) (s : Machine) : Option Machine :=
  run p.platform userret.length (userTrapRet p s)

inductive TrapAct where
  | user
  | trap (cause val : Word)
  | kernel
  | ret

/-- What the hart does with a process: the user changes its registers and the pages that it can
write, the kernel whatever leaves the mappings and its own table in place. -/
inductive TrapStep (p : TrapProc) : Machine → TrapAct → Machine → Prop where
  | user {s t : Machine} (hs : s.mode = .user) (ht : t.mode = .user) (hcsrs : t.csrs = s.csrs)
      (hmem : ∀ b, t.mem b ≠ s.mem b → ∃ va f flags, translate s.mem p.pagetable va =
        some (f, flags) ∧ allowed pteW .user flags ∧ f / 4096 = b / 4096) :
      TrapStep p s .user t
  | trap {s t : Machine} {cause val : Word} (hs : s.mode = .user) (h : trapEnter p cause val s = some t) :
      TrapStep p s (.trap cause val) t
  | kernel {s t : Machine} (hs : s.mode = .supervisor) (ht : t.mode = .supervisor)
      (hsatp : t.csrs .satp = s.csrs .satp) (hmap : p.Mapped t.mem) : TrapStep p s .kernel t
  | ret {s t : Machine} (hs : s.mode = .supervisor) (h : trapLeave p s = some t) : TrapStep p s .ret t

/-- The kernel is about to start the process. -/
def TrapStart (p : TrapProc) (s : Machine) : Prop :=
  s.mode = .supervisor ∧ s.csrs .satp = satpOf p.kpagetable ∧ p.Mapped s.mem

theorem userRegs_layout : Rv64.Layout userRegs 4096 := by
  refine ⟨by decide, by decide, ?_⟩
  decide

theorem userRegs_off : ∀ q ∈ userRegs, q.2 = frameOff q.1 := by decide

theorem mem_userRegs (r : Reg) (hr : r ≠ .a0) : (r, frameOff r) ∈ userRegs := by
  cases r <;> first | exact absurd rfl hr | decide

theorem frameOff_bounds (r : Reg) : frameOff r % 8 = 0 ∧ 40 ≤ frameOff r ∧ frameOff r + 8 ≤ 288 := by
  cases r <;> decide

section Tables
variable {m m' : Mem} {root va : Nat}

theorem translate_page : translate m root (va / 4096 * 4096) = translate m root va := by
  rw [translate, translate, pteOf_page]

/-- A table is read the same after changes outside its pages. -/
theorem tableSame_of_changes (h : ∀ b, m' b ≠ m b → NotInTable m root (b / 4096 * 4096)) :
    TableSame m m' root := by
  intro is pn his hr i
  have hi := i.isLt
  apply readWord_congr
  intro b hb hb'
  by_contra hne
  apply h b hne is his
  rw [hr]
  congr 1
  omega

theorem TableSame.translate (h : TableSame m m' root) (va : Nat) :
    translate m' root va = translate m root va := translate_congr (h.pteOf va)

theorem satpOf_toNat (hlt : root < 2 ^ 56) :
    (satpOf root).toNat = 8 * 2 ^ 60 + root / 4096 := by
  have hor := Nat.shiftLeft_add_eq_or_of_lt (show root / 2 ^ 12 < 2 ^ 60 by omega) 8
  rw [satpOf, BitVec.toNat_ofNat, makeSatp, Nat.shiftRight_eq_div_pow, ← hor, Nat.shiftLeft_eq]
  omega

theorem sv39_satpOf (hal : root % 4096 = 0) (hlt : root < 2 ^ 56) {v : Word} {f flags : Nat}
    (hv : v.toNat < 2 ^ 38) (h : translate m root v.toNat = some (f, flags)) :
    sv39 m (satpOf root) v = some (f + v.toNat % 4096, flags) := by
  have hsatp := satpOf_toNat hlt
  have hroot : (satpOf root).toNat % 2 ^ 44 * 4096 = root := by
    rw [hsatp]
    omega
  rw [sv39, if_pos ⟨by omega, .inl hv⟩, hroot, h, Option.map_some]

end Tables

section Setting
variable {p : TrapProc} {m : Mem}

/-- Memory as `m` but for the trapframe, in supervisor mode under one of the two tables. -/
def TrapProc.Inside (p : TrapProc) (m : Mem) (mode : Rv64.Mode) (csrs : Csr → Word) (m' : Mem) : Prop :=
  mode = .supervisor ∧ (csrs .satp = satpOf p.pagetable ∨ csrs .satp = satpOf p.kpagetable) ∧
    ∀ b, b < p.trapframe ∨ p.trapframe + 4096 ≤ b → m' b = m b

theorem TrapProc.Mapped.same (h : p.Mapped m) {m' : Mem}
    (hm : ∀ b, b < p.trapframe ∨ p.trapframe + 4096 ≤ b → m' b = m b) :
    TableSame m m' p.pagetable ∧ TableSame m m' p.kpagetable :=
  ⟨TableSame.change (fun _ _ _ _ _ => rfl) p.frame_aligned h.frameApart.2.1 hm,
   TableSame.change (fun _ _ _ _ _ => rfl) p.frame_aligned h.frameApart.2.2 hm⟩

theorem TrapProc.Mapped.ofSame (h : p.Mapped m) {m' : Mem} (hu : TableSame m m' p.pagetable)
    (hk : TableSame m m' p.kpagetable) (hcode : ∀ b, b / 4096 = p.code / 4096 → m' b = m b) :
    p.Mapped m' where
  code m'' hm'' := h.code m'' fun b hb => (hm'' b hb).trans (hcode b hb)
  userCode := (hu.translate _).trans h.userCode
  kernelCode := (hk.translate _).trans h.kernelCode
  userFrame := (hu.translate _).trans h.userFrame
  frameApart := ⟨h.frameApart.1, hu.notIn_iff.mpr h.frameApart.2.1, hk.notIn_iff.mpr h.frameApart.2.2⟩
  isolated va f flags hva hw := by
    rw [hu.translate] at hva
    have hiso := h.isolated va f flags hva hw
    exact ⟨hiso.1, hiso.2.1, hu.notIn_iff.mpr hiso.2.2.1, hk.notIn_iff.mpr hiso.2.2.2⟩

/-- Stores to the trapframe leave the mappings alone. -/
theorem TrapProc.Mapped.frame (h : p.Mapped m) {m' : Mem}
    (hm : ∀ b, b < p.trapframe ∨ p.trapframe + 4096 ≤ b → m' b = m b) : p.Mapped m' := by
  have hsame := h.same hm
  apply h.ofSame hsame.1 hsame.2
  intro b hb
  apply hm
  have hne := h.frameApart.1
  have hf := p.frame_aligned
  have hc := p.code_aligned
  omega

theorem translate_frame {root va f flags : Nat} (h : translate m root va = some (f, flags)) :
    f % 4096 = 0 := by
  unfold translate at h
  split at h
  · rw [← (Prod.mk.inj (Option.some.inj h)).1]
    exact pte2page_aligned _
  · cases h

/-- So do the user's stores. -/
theorem TrapProc.Mapped.user (h : p.Mapped m) {m' : Mem}
    (hm : ∀ b, m' b ≠ m b → ∃ va f flags, translate m p.pagetable va = some (f, flags) ∧
      allowed pteW .user flags ∧ f / 4096 = b / 4096) : p.Mapped m' := by
  have hpage : ∀ f : Nat, NotInTable m p.pagetable f → NotInTable m p.kpagetable f → ∀ b,
      f / 4096 = b / 4096 → NotInTable m p.pagetable (b / 4096 * 4096) ∧
        NotInTable m p.kpagetable (b / 4096 * 4096) := by
    intro f hu hk b hb
    have hdiv : b / 4096 * 4096 / 4096 = f / 4096 := by omega
    unfold NotInTable
    rw [hdiv]
    exact ⟨hu, hk⟩
  apply h.ofSame
  · apply tableSame_of_changes
    intro b hb
    obtain ⟨va, f, flags, hva, hw, hfb⟩ := hm b hb
    have hiso := h.isolated va f flags hva hw
    exact (hpage f hiso.2.2.1 hiso.2.2.2 b hfb).1
  · apply tableSame_of_changes
    intro b hb
    obtain ⟨va, f, flags, hva, hw, hfb⟩ := hm b hb
    have hiso := h.isolated va f flags hva hw
    exact (hpage f hiso.2.2.1 hiso.2.2.2 b hfb).2
  · intro b hb
    by_contra hne
    obtain ⟨va, f, flags, hva, hw, hfb⟩ := hm b hne
    have hiso := h.isolated va f flags hva hw
    apply hiso.2.1
    have hc := p.code_aligned
    have hf := translate_frame hva
    omega

private theorem fetch_code (h : p.Mapped m) {pa : Nat} {l : List Instr} (off : Nat)
    (hpa : pa = p.code + off) (hfits : off + (l.map p.size).sum ≤ 4096)
    (hcode : ∀ m', (∀ b, b / 4096 = p.code / 4096 → m' b = m b) → CodeIn p.decode p.size m' pa l) :
    CodeAt p.platform (p.Inside m) (BitVec.ofNat 64 (trampoline + off)) l := by
  induction l generalizing pa off with
  | nil => trivial
  | cons i l ih =>
    have hpos := p.size_pos i
    rw [List.map_cons, List.sum_cons] at hfits
    have htramp : trampoline = 2 ^ 38 - 4096 := by decide
    constructor
    · intro mode csrs m' hin
      obtain ⟨rfl, hsatp, hm'⟩ := hin
      have hsame := h.same hm'
      have hva : (BitVec.ofNat 64 (trampoline + off)).toNat = trampoline + off := by
        rw [BitVec.toNat_ofNat]
        omega
      have hpageEq : (trampoline + off) / 4096 * 4096 = trampoline := by omega
      have hflags : allowed pteX .supervisor (pteV ||| pteR ||| pteX) := by decide
      have hplace : sv39 m' (csrs .satp) (BitVec.ofNat 64 (trampoline + off)) =
          some (pa, pteV ||| pteR ||| pteX) := by
        have hoff : p.code + (trampoline + off) % 4096 = pa := by omega
        rcases hsatp with hs | hs
        · rw [hs, sv39_satpOf p.tables_aligned.1 p.tables_lt.1 (by omega), hva, hoff]
          rw [hva, ← translate_page, hpageEq, hsame.1.translate]
          exact h.userCode
        · rw [hs, sv39_satpOf p.tables_aligned.2 p.tables_lt.2 (by omega), hva, hoff]
          rw [hva, ← translate_page, hpageEq, hsame.2.translate]
          exact h.kernelCode
      have hdecode : p.decode m' pa = some i := by
        refine (hcode m' ?_).1
        intro b hb
        apply hm'
        have hne := h.frameApart.1
        have hf := p.frame_aligned
        have hc := p.code_aligned
        omega
      show (sv39 m' (csrs .satp) _).bind _ = _
      rw [hplace, Option.bind_some, if_pos hflags, hdecode]
    · have hstart : pa + p.size i = p.code + (off + p.size i) := by omega
      have hnext := ih (off + p.size i) hstart (by omega) fun m' hm' => (hcode m' hm').2
      rw [← Nat.add_assoc, BitVec.ofNat_add] at hnext
      exact hnext

theorem TrapProc.Mapped.codeAt (h : p.Mapped m) :
    CodeAt p.platform (p.Inside m) (BitVec.ofNat 64 trampoline) trampolineCode :=
  fetch_code h 0 rfl (by rw [Nat.zero_add]; exact p.code_fits) h.code

/-- The trapframe is where the user's table maps `TRAPFRAME`. -/
theorem TrapProc.Mapped.area (h : p.Mapped m) {csrs : Csr → Word}
    (hsatp : csrs .satp = satpOf p.pagetable) :
    Area p.platform .supervisor csrs m (BitVec.ofNat 64 PageFaultOS.trapframe) p.trapframe 4096 := by
  intro m' hm' off hoff hfit acc
  have hframe : PageFaultOS.trapframe = 2 ^ 38 - 8192 := by decide
  have hva : (BitVec.ofNat 64 PageFaultOS.trapframe + BitVec.ofNat 64 off).toNat = PageFaultOS.trapframe + off := by
    rw [← BitVec.ofNat_add, BitVec.toNat_ofNat]
    omega
  have hpageEq : (PageFaultOS.trapframe + off) / 4096 * 4096 = PageFaultOS.trapframe := by omega
  have hplace : sv39 m' (csrs .satp) (BitVec.ofNat 64 PageFaultOS.trapframe + BitVec.ofNat 64 off) =
      some (p.trapframe + off, pteV ||| pteR ||| pteW) := by
    have hmod : (PageFaultOS.trapframe + off) % 4096 = off := by omega
    rw [hsatp, sv39_satpOf p.tables_aligned.1 p.tables_lt.1 (by omega), hva, hmod]
    rw [hva, ← translate_page, hpageEq, (h.same hm').1.translate]
    exact h.userFrame
  have hflags : allowed (accessBit acc) .supervisor (pteV ||| pteR ||| pteW) := by
    cases acc <;> decide
  show (if _ then (sv39 m' (csrs .satp) _).bind _ else none) = _
  rw [if_pos (by omega), hplace, Option.bind_some, if_pos hflags]

theorem trapTarget_trampoline (cause : Word) :
    trapTarget (BitVec.ofNat 64 trampoline) cause = BitVec.ofNat 64 trampoline := by
  have hmode : ¬ (BitVec.ofNat 64 trampoline &&& 3 = 1 ∧ cause.msb = true) := by
    rintro ⟨h, -⟩
    revert h
    decide
  rw [trapTarget, if_neg hmode]
  decide

/-- What holds of the hart whenever the process runs in user mode. -/
structure TrapProc.UserState (p : TrapProc) (s : Machine) : Prop where
  mapped : p.Mapped s.mem
  satp : s.csrs .satp = satpOf p.pagetable
  sscratch : s.csrs .sscratch = BitVec.ofNat 64 PageFaultOS.trapframe
  stvec : s.csrs .stvec = BitVec.ofNat 64 trampoline
  kernelSatp : readWord s.mem p.trapframe = (satpOf p.kpagetable).toNat
  kernelSp : readWord s.mem (p.trapframe + 8) = p.kstack + pgsize
  kernelTrap : readWord s.mem (p.trapframe + 16) = p.userTrap.toNat

/-- What `uservec` does after the block of stores, up to the change of tables: the user's `a0` goes
to the trapframe and the kernel's registers come from it. -/
private theorem run_uservecLoads {s : Machine} (hmap : p.Mapped m)
    (hin : p.Inside m s.mode s.csrs s.mem) (hcode : CodeAt p.platform (p.Inside m) s.pc uservecEnd)
    (hsatp : s.csrs .satp = satpOf p.pagetable) (ha0 : s.regs .a0 = BitVec.ofNat 64 trapframe) :
    ∃ t, run p.platform 6 s = some t ∧ t.mode = s.mode ∧ t.csrs = s.csrs ∧
      t.regs .t0 = BitVec.ofNat 64 (readWord s.mem (p.trapframe + 16)) ∧
      t.regs .t1 = BitVec.ofNat 64 (readWord s.mem p.trapframe) ∧
      t.regs .sp = BitVec.ofNat 64 (readWord s.mem (p.trapframe + 8)) ∧
      t.regs .tp = BitVec.ofNat 64 (readWord s.mem (p.trapframe + 32)) ∧
      t.mem = writeWord s.mem (p.trapframe + 112) (s.csrs .sscratch).toNat ∧
      CodeAt p.platform (p.Inside m) t.pc [.csrw .satp .t1, .sfenceVma, .jr .t0] := by
  obtain ⟨hmode, -, hmem⟩ := hin
  have hwrite : ∀ b, b < p.trapframe ∨ p.trapframe + 4096 ≤ b →
      writeWord s.mem (p.trapframe + 112) (s.csrs .sscratch).toNat b = s.mem b :=
    fun b hb => writeWord_apply_of_outside _ _ _ _ (by omega)
  have harea : Area p.platform s.mode s.csrs s.mem (s.regs .a0) p.trapframe 4096 := by
    rw [hmode, ha0]
    exact (hmap.frame hmem).area hsatp
  have harea' := harea.congr hwrite
  have hword : ∀ off, off + 8 ≤ 112 →
      readWord (writeWord s.mem (p.trapframe + 112) (s.csrs .sscratch).toNat) (p.trapframe + off) =
        readWord s.mem (p.trapframe + off) :=
    fun off hoff => readWord_writeWord_of_disjoint _ _ _ _ (by omega)
  have hin : p.Inside m s.mode s.csrs s.mem := ⟨hmode, .inl hsatp, hmem⟩
  have hin' : p.Inside m s.mode s.csrs
      (writeWord s.mem (p.trapframe + 112) (s.csrs .sscratch).toNat) :=
    ⟨hmode, .inl hsatp, fun b hb => (hwrite b hb).trans (hmem b hb)⟩
  -- `a0` is the base of every access, and none of the loads changes it
  obtain ⟨h₁, h₂, h₃, h₄, h₅, h₆, hrest⟩ := hcode
  apply Exists.intro
  refine ⟨?_, ?_, ?_, ?_, ?_, ?_, ?_, ?_, ?_⟩
  · refine Eq.trans (run_fetched h₁ hin rfl) ?_
    refine Eq.trans (run_fetched h₂ hin (harea.exec_sd (by simp) .t0 112 rfl (by decide))) ?_
    refine Eq.trans (run_fetched h₃ hin' (harea'.exec_ld (by simp) .sp 8 rfl (by decide))) ?_
    refine Eq.trans (run_fetched h₄ hin' (harea'.exec_ld (by simp) .tp 32 rfl (by decide))) ?_
    refine Eq.trans (run_fetched h₅ hin' (harea'.exec_ld (by simp) .t0 16 rfl (by decide))) ?_
    exact run_fetched h₆ hin' (harea'.exec_ld (by simp) .t1 0 rfl (by decide))
  · rfl
  · rfl
  · exact congrArg (BitVec.ofNat 64) (hword 16 (by decide))
  · exact congrArg (BitVec.ofNat 64) (hword 0 (by decide))
  · exact congrArg (BitVec.ofNat 64) (hword 8 (by decide))
  · exact congrArg (BitVec.ofNat 64) (hword 32 (by decide))
  · rfl
  · exact hrest

/-- The code goes on under the kernel's table. -/
private theorem run_uservecSwitch {s : Machine}
    (hin : p.Inside m s.mode s.csrs s.mem)
    (hcode : CodeAt p.platform (p.Inside m) s.pc [.csrw .satp .t1, .sfenceVma, .jr .t0])
    (ht1 : s.regs .t1 = satpOf p.kpagetable) :
    run p.platform 3 s =
      some { s with
        pc := evenPc (s.regs .t0), csrs := Function.update s.csrs .satp (satpOf p.kpagetable) } := by
  obtain ⟨hmode, hsatp, hmem⟩ := hin
  have hkern : p.Inside m s.mode (Function.update s.csrs .satp (s.regs .t1)) s.mem := by
    refine ⟨hmode, .inr ?_, hmem⟩
    rw [Function.update_self, ht1]
  obtain ⟨h₁, h₂, h₃, -⟩ := hcode
  rw [← ht1]
  refine Eq.trans (run_fetched h₁ ⟨hmode, hsatp, hmem⟩ rfl) ?_
  refine Eq.trans (run_fetched h₂ hkern rfl) ?_
  exact run_fetched h₃ hkern rfl

/-- `uservec` up to the end of its block of stores. -/
private theorem run_uservecSaves {s : Machine} (h : p.UserState s) (cause val : Word) :
    ∃ t, run p.platform (userRegs.length + 1) (s.trap cause val) = some t ∧
      p.Inside s.mem t.mode t.csrs t.mem ∧ CodeAt p.platform (p.Inside s.mem) t.pc uservecEnd ∧
      t.regs .a0 = BitVec.ofNat 64 trapframe ∧
      t.csrs = Function.update (s.trap cause val).csrs .sscratch (s.regs .a0) ∧
      (∀ r, r ≠ .a0 → readWord t.mem (p.trapframe + frameOff r) = (s.regs r).toNat) ∧
      ∀ b, b < p.trapframe + 40 ∨ p.trapframe + 288 ≤ b → t.mem b = s.mem b := by
  have hcode := h.mapped.codeAt
  rw [trampolineCode, codeAt_append] at hcode
  obtain ⟨hcode, -⟩ := hcode
  have hpc : (s.trap cause val).pc = BitVec.ofNat 64 trampoline := by
    show trapTarget (s.csrs .stvec) cause = _
    rw [h.stvec, trapTarget_trampoline]
  rw [← hpc, uservec] at hcode
  obtain ⟨hfirst, hcode⟩ := hcode
  obtain ⟨hsaves, hend⟩ := codeAt_append.mp hcode
  have hin : ∀ m', (∀ b, b < p.trapframe ∨ p.trapframe + 4096 ≤ b → m' b = s.mem b) →
      ∀ csrs : Csr → Word, csrs .satp = satpOf p.pagetable → p.Inside s.mem .supervisor csrs m' :=
    fun m' hm' csrs hc => ⟨rfl, .inl hc, hm'⟩
  have hrun₁ := run_fetched (n := userRegs.length) hfirst (hin s.mem (fun _ _ => rfl) _ h.satp)
    (by rw [Rv64.exec])
  set s₁ := (((s.trap cause val).setCsr .sscratch ((s.trap cause val).regs .a0)).setReg .a0
    ((s.trap cause val).csrs .sscratch)).advance
      (p.platform.size (.csrrw .a0 .sscratch .a0)) with hs₁
  have ha0 : s₁.regs .a0 = BitVec.ofNat 64 trapframe := by
    simp [hs₁, ← h.sscratch, Machine.trap]
  have hregs : ∀ r, r ≠ .a0 → s₁.regs r = s.regs r := by
    intro r hr
    simp [hs₁, Machine.trap, Function.update_of_ne hr]
  have hsatp : s₁.csrs .satp = satpOf p.pagetable := h.satp
  have harea : Area p.platform s₁.mode s₁.csrs s₁.mem (s₁.regs .a0) p.trapframe 4096 := by
    rw [ha0]
    exact h.mapped.area hsatp
  obtain ⟨t, hrun₂, hmode₂, hcsrs₂, hregs₂, hmem₂, hpc₂⟩ :=
    run_saves userRegs_layout hsaves harea fun m' hm' => hin m' hm' _ hsatp
  have hout : ∀ b, b < p.trapframe + 40 ∨ p.trapframe + 288 ≤ b →
      saved s₁.mem p.trapframe s₁.regs userRegs b = s.mem b := by
    intro b hb
    rw [saved_outside userRegs_layout]
    · rfl
    · intro q hq
      have hoff := userRegs_off q hq
      have hbounds := frameOff_bounds q.1
      omega
  refine ⟨t, hrun₁.trans hrun₂, ?_, ?_, ?_, ?_, ?_, ?_⟩
  · rw [hmode₂, hcsrs₂, hmem₂]
    exact hin _ (fun b hb => hout b (by omega)) _ hsatp
  · rw [hpc₂]
    exact hend
  · rw [hregs₂, ha0]
  · rw [hcsrs₂]
    rfl
  · intro r hr
    rw [hmem₂, ← hregs r hr]
    exact readWord_saved userRegs_layout s₁.regs (mem_userRegs r hr)
  · intro b hb
    rw [hmem₂]
    exact hout b hb

/-- Every register is saved, in the state in which `uservec` jumps to `UserTrap`. -/
theorem uservec_saves {s : Machine} (h : p.UserState s) (cause val : Word) :
    ∃ t, run p.platform uservec.length (s.trap cause val) = some t ∧ t.mode = .supervisor ∧
      t.pc = p.userTrap ∧ t.regs .sp = BitVec.ofNat 64 (p.kstack + pgsize) ∧
      t.regs .tp = BitVec.ofNat 64 (readWord s.mem (p.trapframe + 32)) ∧
      t.csrs .satp = satpOf p.kpagetable ∧ t.csrs .sepc = s.pc ∧
      t.csrs .sstatus = trapStatus s.mode (s.csrs .sstatus) ∧
      (∀ r, readWord t.mem (p.trapframe + frameOff r) = (s.regs r).toNat) ∧
      ∀ b, b < p.trapframe + 40 ∨ p.trapframe + 288 ≤ b → t.mem b = s.mem b := by
  obtain ⟨s₁, hrun₁, hin₁, hcode₁, ha0, hcsrs₁, hregs, hout⟩ := run_uservecSaves h cause val
  have hsatp₁ : s₁.csrs .satp = satpOf p.pagetable := by
    rw [hcsrs₁]
    exact h.satp
  obtain ⟨s₂, hrun₂, hmode₂, hcsrs₂, ht0, ht1, hsp, htp, hmem₂, hcode₂⟩ :=
    run_uservecLoads h.mapped hin₁ hcode₁ hsatp₁ ha0
  have hlow : ∀ off, off + 8 ≤ 40 →
      readWord s₁.mem (p.trapframe + off) = readWord s.mem (p.trapframe + off) :=
    fun off hoff => readWord_congr fun b _ _ => hout b (by omega)
  have hin₂ : p.Inside s.mem s₂.mode s₂.csrs s₂.mem := by
    rw [hmode₂, hcsrs₂, hmem₂]
    refine ⟨hin₁.1, hin₁.2.1, fun b hb => ?_⟩
    rw [writeWord_apply_of_outside _ _ _ _ (by omega)]
    exact hin₁.2.2 b hb
  have hkern : s₂.regs .t1 = satpOf p.kpagetable := by
    have hword := (hlow 0 (by decide)).trans h.kernelSatp
    rw [Nat.add_zero] at hword
    rw [ht1, hword, BitVec.ofNat_toNat, BitVec.setWidth_eq]
  have hrun₃ := run_uservecSwitch hin₂ hcode₂ hkern
  have hlen : uservec.length = userRegs.length + 1 + (6 + 3) := by decide
  refine ⟨_, by rw [hlen, run_add hrun₁, run_add hrun₂, hrun₃], ?_, ?_, ?_, ?_, ?_, ?_, ?_, ?_, ?_⟩
  · exact hin₂.1
  · show evenPc (s₂.regs .t0) = p.userTrap
    rw [ht0, hlow 16 (by decide), h.kernelTrap, BitVec.ofNat_toNat, BitVec.setWidth_eq,
      p.userTrap_even]
  · show s₂.regs .sp = _
    rw [hsp, hlow 8 (by decide), h.kernelSp]
  · show s₂.regs .tp = _
    rw [htp, hlow 32 (by decide)]
  · simp
  · show Function.update s₂.csrs .satp (satpOf p.kpagetable) .sepc = s.pc
    rw [hcsrs₂, hcsrs₁]
    rfl
  · show Function.update s₂.csrs .satp (satpOf p.kpagetable) .sstatus = _
    rw [hcsrs₂, hcsrs₁]
    rfl
  · intro r
    show readWord s₂.mem _ = _
    rw [hmem₂]
    by_cases hr : r = .a0
    · subst hr
      rw [show frameOff .a0 = 112 from rfl, readWord_writeWord, hcsrs₁, Function.update_self,
        Nat.mod_eq_of_lt (s.regs .a0).isLt]
    · have hoff := frameOff_bounds r
      have hne : frameOff r ≠ 112 := by
        revert hr
        cases r <;> decide
      rw [readWord_writeWord_of_disjoint _ _ _ _ (by omega)]
      exact hregs r hr
  · intro b hb
    show s₂.mem b = _
    rw [hmem₂, writeWord_apply_of_outside _ _ _ _ (by omega)]
    exact hout b hb

/-- `userret` up to its block of loads: the user's table, and the user's `a0` in `sscratch`. -/
private theorem run_userretStart {s : Machine} (hmap : p.Mapped s.mem) (hmode : s.mode = .supervisor)
    (hsatp : s.csrs .satp = satpOf p.kpagetable)
    (hpc : s.pc = BitVec.ofNat 64 trampoline + BitVec.ofNat 64 (codeSize p.platform uservec))
    (ha0 : s.regs .a0 = BitVec.ofNat 64 trapframe) (ha1 : s.regs .a1 = satpOf p.pagetable) :
    ∃ t, run p.platform 4 s = some t ∧ t.mode = s.mode ∧
      t.csrs = Function.update (Function.update s.csrs .satp (satpOf p.pagetable)) .sscratch
        (frameRegs s.mem p.trapframe .a0) ∧
      t.regs .a0 = BitVec.ofNat 64 trapframe ∧ t.mem = s.mem ∧
      CodeAt p.platform (p.Inside s.mem) t.pc
        (restores .a0 userRegs ++ [.csrrw .a0 .sscratch .a0, .sret]) := by
  have hcode := (codeAt_append.mp hmap.codeAt).2
  rw [← hpc, userret] at hcode
  obtain ⟨h₁, h₂, h₃, h₄, hcode⟩ := hcode
  have hin : p.Inside s.mem s.mode s.csrs s.mem := ⟨hmode, .inr hsatp, fun _ _ => rfl⟩
  have hnew : Function.update s.csrs .satp (s.regs .a1) .satp = satpOf p.pagetable := by
    rw [Function.update_self, ha1]
  have hin' : p.Inside s.mem s.mode (Function.update s.csrs .satp (s.regs .a1)) s.mem :=
    ⟨hmode, .inl hnew, fun _ _ => rfl⟩
  have harea : Area p.platform s.mode (Function.update s.csrs .satp (s.regs .a1)) s.mem
      (s.regs .a0) p.trapframe 4096 := by
    rw [hmode, ha0]
    exact hmap.area hnew
  rw [← ha1]
  apply Exists.intro
  refine ⟨?_, ?_, ?_, ?_, ?_, ?_⟩
  · refine Eq.trans (run_fetched h₁ hin rfl) ?_
    refine Eq.trans (run_fetched h₂ hin' rfl) ?_
    refine Eq.trans (run_fetched h₃ hin' (harea.exec_ld (by simp) .t0 112 rfl (by decide))) ?_
    exact run_fetched h₄ hin' rfl
  · rfl
  · rfl
  · exact ha0
  · rfl
  · exact hcode

/-- The last two instructions of `userret`. -/
private theorem run_userretEnd {s : Machine}
    (hin : p.Inside m s.mode s.csrs s.mem) (hsatp : s.csrs .satp = satpOf p.pagetable)
    (hcode : CodeAt p.platform (p.Inside m) s.pc [.csrrw .a0 .sscratch .a0, .sret])
    (hspp : s.csrs .sstatus &&& sstatusSPP = 0) :
    ∃ t, run p.platform 2 s = some t ∧ t.mode = .user ∧ t.pc = evenPc (s.csrs .sepc) ∧
      t.regs = Function.update s.regs .a0 (s.csrs .sscratch) ∧
      t.csrs .satp = satpOf p.pagetable ∧ t.csrs .sscratch = s.regs .a0 ∧
      t.csrs .stvec = s.csrs .stvec ∧ t.mem = s.mem := by
  obtain ⟨h₁, h₂, -⟩ := hcode
  have hin' : p.Inside m s.mode (Function.update s.csrs .sscratch (s.regs .a0)) s.mem :=
    ⟨hin.1, .inl hsatp, hin.2.2⟩
  apply Exists.intro
  refine ⟨?_, ?_, ?_, ?_, ?_, ?_, ?_, ?_⟩
  · refine Eq.trans (run_fetched h₁ hin rfl) ?_
    exact run_fetched h₂ hin' rfl
  · exact if_pos hspp
  · rfl
  · rfl
  · exact hsatp
  · rfl
  · rfl
  · rfl

/-- The block of loads of `userret`. -/
private theorem run_userretLoads {s : Machine} (hmap : p.Mapped m)
    (hin : p.Inside m s.mode s.csrs s.mem) (hsatp : s.csrs .satp = satpOf p.pagetable)
    (hcode : CodeAt p.platform (p.Inside m) s.pc
      (restores .a0 userRegs ++ [.csrrw .a0 .sscratch .a0, .sret]))
    (ha0 : s.regs .a0 = BitVec.ofNat 64 trapframe) :
    ∃ t, run p.platform userRegs.length s = some t ∧ t.mode = s.mode ∧ t.csrs = s.csrs ∧
      t.mem = s.mem ∧ t.regs .a0 = BitVec.ofNat 64 trapframe ∧
      (∀ r, r ≠ .a0 → t.regs r = frameRegs s.mem p.trapframe r) ∧
      CodeAt p.platform (p.Inside m) t.pc [.csrrw .a0 .sscratch .a0, .sret] := by
  obtain ⟨hrest, hend⟩ := codeAt_append.mp hcode
  have harea : Area p.platform s.mode s.csrs s.mem (s.regs .a0) p.trapframe 4096 := by
    rw [hin.1, ha0]
    exact (hmap.frame hin.2.2).area hsatp
  have hother : Reg.a0 ∉ userRegs.map Prod.fst := by decide
  obtain ⟨t, hrun, hmode, hcsrs, hregs, hmem, hpc⟩ :=
    run_restores userRegs_layout hrest harea hin fun q hq he =>
      absurd (he ▸ List.mem_map_of_mem hq) hother
  refine ⟨t, hrun, hmode, hcsrs, hmem, ?_, ?_, ?_⟩
  · rw [hregs, loaded_other s.regs hother, ha0]
  · intro r hr
    rw [hregs]
    exact loaded_of_mem userRegs_layout s.regs (mem_userRegs r hr)
  · rw [hpc]
    exact hend

/-- The way back: every register but `a0` is loaded, then `a0` is exchanged for `sscratch`. -/
theorem userret_restores {s : Machine} (hmap : p.Mapped s.mem) (hmode : s.mode = .supervisor)
    (hsatp : s.csrs .satp = satpOf p.kpagetable)
    (hpc : s.pc = BitVec.ofNat 64 trampoline + BitVec.ofNat 64 (codeSize p.platform uservec))
    (ha0 : s.regs .a0 = BitVec.ofNat 64 trapframe) (ha1 : s.regs .a1 = satpOf p.pagetable)
    (hspp : s.csrs .sstatus &&& sstatusSPP = 0) :
    ∃ t, run p.platform userret.length s = some t ∧ t.mode = .user ∧
      t.pc = evenPc (s.csrs .sepc) ∧ t.regs = frameRegs s.mem p.trapframe ∧
      t.csrs .satp = satpOf p.pagetable ∧ t.csrs .sscratch = BitVec.ofNat 64 trapframe ∧
      t.csrs .stvec = s.csrs .stvec ∧ t.mem = s.mem := by
  obtain ⟨s₁, hrun₁, hmode₁, hcsrs₁, ha0₁, hmem₁, hcode₁⟩ :=
    run_userretStart hmap hmode hsatp hpc ha0 ha1
  have hsatp₁ : s₁.csrs .satp = satpOf p.pagetable := by
    rw [hcsrs₁]
    rfl
  have hin₁ : p.Inside s.mem s₁.mode s₁.csrs s₁.mem :=
    ⟨hmode₁.trans hmode, .inl hsatp₁, fun b _ => congrFun hmem₁ b⟩
  obtain ⟨s₂, hrun₂, hmode₂, hcsrs₂, hmem₂, ha0₂, hregs₂, hcode₂⟩ :=
    run_userretLoads hmap hin₁ hsatp₁ hcode₁ ha0₁
  have hin₂ : p.Inside s.mem s₂.mode s₂.csrs s₂.mem := by
    rw [hmode₂, hcsrs₂, hmem₂]
    exact hin₁
  have hsstatus : s₂.csrs .sstatus = s.csrs .sstatus := by
    rw [hcsrs₂, hcsrs₁]
    rfl
  obtain ⟨t, hrun₃, htmode, htpc, htregs, htsatp, htscratch, htvec, htmem⟩ :=
    run_userretEnd hin₂ (by rw [hcsrs₂, hsatp₁]) hcode₂ (by rw [hsstatus, hspp])
  have hlen : userret.length = 4 + (userRegs.length + 2) := by decide
  refine ⟨t, by rw [hlen, run_add hrun₁, run_add hrun₂, hrun₃], htmode, ?_, ?_, htsatp, ?_, ?_, ?_⟩
  · rw [htpc, hcsrs₂, hcsrs₁]
    rfl
  · funext r
    rw [htregs]
    by_cases hr : r = .a0
    · subst hr
      rw [Function.update_self, hcsrs₂, hcsrs₁, Function.update_self]
    · rw [Function.update_of_ne hr, hregs₂ r hr, hmem₁]
  · rw [htscratch, ha0₂]
  · rw [htvec, hcsrs₂, hcsrs₁]
    rfl
  · rw [htmem, hmem₂, hmem₁]

private theorem trapStatus_user (x : Word) : trapStatus .user x &&& sstatusSPP = 0 := by
  have hclear : ~~~sstatusSPP &&& sstatusSPP = 0#64 := by decide
  simp only [trapStatus]
  rw [BitVec.and_assoc, hclear, BitVec.and_zero]
  rfl

/-- A trap from user mode reaches `UserTrap` on the process's kernel stack and under its kernel
table, with everything that the user had in the trapframe. -/
theorem enter_saves {s : Machine} (h : p.UserState s) (hmode : s.mode = .user) (cause val : Word) :
    ∃ t, trapEnter p cause val s = some t ∧ t.mode = .supervisor ∧ t.pc = p.userTrap ∧
      t.regs .sp = BitVec.ofNat 64 (p.kstack + pgsize) ∧
      t.regs .tp = BitVec.ofNat 64 (readWord s.mem (p.trapframe + 32)) ∧
      t.csrs .satp = satpOf p.kpagetable ∧ frameRegs t.mem p.trapframe = s.regs ∧
      frameEpc t.mem p.trapframe = s.pc ∧
      ∀ b, b < p.trapframe ∨ p.trapframe + 4096 ≤ b → t.mem b = s.mem b := by
  obtain ⟨u, hrun, hmode', hpc, hsp, htp, hsatp, hsepc, hstatus, hregs, hout⟩ :=
    uservec_saves h cause val
  have hspp : ¬ u.csrs .sstatus &&& sstatusSPP ≠ 0 := by
    rw [hstatus, hmode, trapStatus_user, ne_eq, not_not]
  have huser : userTrap p u = some
      { u.setCsr .stvec p.kernvec with mem := setFrame p 24 (u.csrs .sepc) u.mem } := if_neg hspp
  have hmem : ∀ b, b < p.trapframe + 24 ∨ p.trapframe + 32 ≤ b →
      setFrame p 24 (u.csrs .sepc) u.mem b = u.mem b :=
    fun b hb => writeWord_apply_of_outside _ _ _ _ (by omega)
  refine ⟨{ u.setCsr .stvec p.kernvec with mem := setFrame p 24 (u.csrs .sepc) u.mem },
    by rw [trapEnter, hrun, Option.bind_some, huser], hmode', hpc, hsp, htp, hsatp, ?_, ?_, ?_⟩
  · funext r
    have hoff := frameOff_bounds r
    have hword := readWord_congr (a := p.trapframe + frameOff r) fun b _ _ => hmem b (by omega)
    rw [frameRegs, hword, hregs r, BitVec.ofNat_toNat, BitVec.setWidth_eq]
  · rw [frameEpc, setFrame, readWord_writeWord, Nat.mod_eq_of_lt (u.csrs .sepc).isLt,
      BitVec.ofNat_toNat, BitVec.setWidth_eq, hsepc]
  · intro b hb
    exact (hmem b (by omega)).trans (hout b (by omega))

private theorem userTrapRet_status (x : Word) :
    ((x &&& ~~~sstatusSPP) ||| sstatusSPIE) &&& sstatusSPP = 0 := by
  have hclear : ~~~sstatusSPP &&& sstatusSPP = 0#64 := by decide
  have hspie : sstatusSPIE &&& sstatusSPP = 0#64 := by decide
  rw [BitVec.and_or_distrib_right, BitVec.and_assoc, hclear, hspie, BitVec.and_zero,
    BitVec.or_zero]
  rfl

/-- What `UserTrapRet` writes into the trapframe. -/
private def kernelWords (p : TrapProc) (s : Machine) : Mem :=
  setFrame p 32 (s.regs .tp) (setFrame p 16 p.userTrap
    (setFrame p 8 (BitVec.ofNat 64 (p.kstack + pgsize)) (setFrame p 0 (s.csrs .satp) s.mem)))

private theorem kernelWords_other (s : Machine) {b : Nat}
    (hb : b < p.trapframe ∨ p.trapframe + 40 ≤ b ∨ p.trapframe + 24 ≤ b ∧ b < p.trapframe + 32) :
    kernelWords p s b = s.mem b := by
  unfold kernelWords setFrame
  rw [writeWord_apply_of_outside _ _ _ _ (by omega), writeWord_apply_of_outside _ _ _ _ (by omega),
    writeWord_apply_of_outside _ _ _ _ (by omega), writeWord_apply_of_outside _ _ _ _ (by omega)]

private theorem readWord_setFrame_other {off o : Nat} (v : Word) (m : Mem)
    (h : o + 8 ≤ off ∨ off + 8 ≤ o) :
    readWord (setFrame p off v m) (p.trapframe + o) = readWord m (p.trapframe + o) :=
  readWord_writeWord_of_disjoint _ _ _ _ (by omega)

private theorem readWord_setFrame {off : Nat} (v : Word) (m : Mem) :
    readWord (setFrame p off v m) (p.trapframe + off) = v.toNat := by
  rw [setFrame, readWord_writeWord, Nat.mod_eq_of_lt v.isLt]

private theorem readWord_kernelWords (s : Machine) :
    readWord (kernelWords p s) p.trapframe = (s.csrs .satp).toNat ∧
      readWord (kernelWords p s) (p.trapframe + 8) = p.kstack + pgsize ∧
      readWord (kernelWords p s) (p.trapframe + 16) = p.userTrap.toNat := by
  have hsp : (BitVec.ofNat 64 (p.kstack + pgsize)).toNat = p.kstack + pgsize := by
    rw [BitVec.toNat_ofNat, Nat.mod_eq_of_lt p.kstack_lt]
  refine ⟨?_, ?_, ?_⟩
  · have hword : readWord (setFrame p 0 (s.csrs .satp) s.mem) (p.trapframe + 0) =
        (s.csrs .satp).toNat := readWord_setFrame _ _
    unfold kernelWords
    rw [← Nat.add_zero p.trapframe, readWord_setFrame_other _ _ (by decide),
      readWord_setFrame_other _ _ (by decide), readWord_setFrame_other _ _ (by decide)]
    exact hword
  · unfold kernelWords
    rw [readWord_setFrame_other _ _ (by decide), readWord_setFrame_other _ _ (by decide),
      readWord_setFrame, hsp]
  · unfold kernelWords
    rw [readWord_setFrame_other _ _ (by decide), readWord_setFrame]

private theorem userTrapRet_regs (s : Machine) :
    (userTrapRet p s).regs .a0 = BitVec.ofNat 64 trapframe ∧
      (userTrapRet p s).regs .a1 = satpOf p.pagetable := by
  simp [userTrapRet]

private theorem userTrapRet_csrs (s : Machine) :
    (userTrapRet p s).csrs .satp = s.csrs .satp ∧
      (userTrapRet p s).csrs .stvec = BitVec.ofNat 64 trampoline ∧
      (userTrapRet p s).csrs .sepc = frameEpc (kernelWords p s) p.trapframe ∧
      (userTrapRet p s).csrs .sstatus &&& sstatusSPP = 0 := by
  refine ⟨?_, ?_, ?_, ?_⟩
  · simp [userTrapRet]
  · simp [userTrapRet]
  · simp [userTrapRet, kernelWords]
  · simp only [userTrapRet]
    exact userTrapRet_status _

/-- `UserTrapRet` and `userret` start the user where the trapframe says, with its registers. -/
theorem leave_restores {s : Machine} (hmap : p.Mapped s.mem) (hmode : s.mode = .supervisor)
    (hsatp : s.csrs .satp = satpOf p.kpagetable) :
    ∃ t, trapLeave p s = some t ∧ t.mode = .user ∧ p.UserState t ∧
      t.regs = frameRegs s.mem p.trapframe ∧ t.pc = evenPc (frameEpc s.mem p.trapframe) ∧
      ∀ b, b < p.trapframe ∨ p.trapframe + 4096 ≤ b → t.mem b = s.mem b := by
  have hmem : (userTrapRet p s).mem = kernelWords p s := rfl
  have hpage : ∀ b, b < p.trapframe ∨ p.trapframe + 4096 ≤ b → kernelWords p s b = s.mem b :=
    fun b hb => kernelWords_other s (by omega)
  have hmap' : p.Mapped (userTrapRet p s).mem := hmap.frame hpage
  have hpc : (userTrapRet p s).pc =
      BitVec.ofNat 64 trampoline + BitVec.ofNat 64 (codeSize p.platform uservec) :=
    BitVec.ofNat_add _ _
  have hmode' : (userTrapRet p s).mode = .supervisor := by
    simp [userTrapRet, hmode]
  obtain ⟨ha0, ha1⟩ := userTrapRet_regs (p := p) s
  obtain ⟨hsatp', hstvec, hsepc, hspp⟩ := userTrapRet_csrs (p := p) s
  obtain ⟨t, hrun, htmode, htpc, htregs, htsatp, htscratch, htvec, htmem⟩ :=
    userret_restores hmap' hmode' (hsatp'.trans hsatp) hpc ha0 ha1 hspp
  rw [hmem] at htregs htmem
  rw [hstvec] at htvec
  have hepc : frameEpc (kernelWords p s) p.trapframe = frameEpc s.mem p.trapframe :=
    congrArg (BitVec.ofNat 64) (readWord_congr fun b _ _ => kernelWords_other s (by omega))
  have hregs : frameRegs (kernelWords p s) p.trapframe = frameRegs s.mem p.trapframe := by
    funext r
    have hoff := frameOff_bounds r
    exact congrArg (BitVec.ofNat 64) (readWord_congr fun b _ _ => kernelWords_other s (by omega))
  obtain ⟨hksatp, hksp, hktrap⟩ := readWord_kernelWords (p := p) s
  refine ⟨t, hrun, htmode, ⟨?_, htsatp, htscratch, htvec, ?_, ?_, ?_⟩, htregs.trans hregs, ?_, ?_⟩
  · rw [htmem]
    exact hmap.frame hpage
  · rw [htmem, hksatp, hsatp]
  · rw [htmem, hksp]
  · rw [htmem, hktrap]
  · rw [htpc, hsepc, hepc]
  · intro b hb
    rw [htmem]
    exact hpage b hb

/-- What holds of the hart at any time, by its mode. -/
def TrapProc.Inv (p : TrapProc) (s : Machine) : Prop :=
  match s.mode with
  | .user => p.UserState s
  | .supervisor => s.csrs .satp = satpOf p.kpagetable ∧ p.Mapped s.mem

theorem inv_user {s : Machine} (hmode : s.mode = .user) : p.Inv s ↔ p.UserState s := by
  rw [TrapProc.Inv, hmode]

theorem inv_supervisor {s : Machine} (hmode : s.mode = .supervisor) :
    p.Inv s ↔ s.csrs .satp = satpOf p.kpagetable ∧ p.Mapped s.mem := by
  rw [TrapProc.Inv, hmode]

theorem trapStep_inv {s t : Machine} {a : TrapAct} (h : p.Inv s) (hstep : TrapStep p s a t) :
    p.Inv t := by
  cases hstep with
  | user hs ht hcsrs hmem =>
    rw [inv_user hs] at h
    rw [inv_user ht]
    have hframe : ∀ b, p.trapframe ≤ b → b < p.trapframe + 4096 → t.mem b = s.mem b := by
      intro b hb hb'
      by_contra hne
      obtain ⟨va, f, flags, hva, hw, hfb⟩ := hmem b hne
      have hal := p.frame_aligned
      have hf := translate_frame hva
      exact (h.mapped.isolated va f flags hva hw).1 (by omega)
    have hword : ∀ off, off + 8 ≤ 4096 →
        readWord t.mem (p.trapframe + off) = readWord s.mem (p.trapframe + off) :=
      fun off hoff => readWord_congr fun b _ _ => hframe b (by omega) (by omega)
    refine ⟨h.mapped.user hmem, by rw [hcsrs, h.satp], by rw [hcsrs, h.sscratch],
      by rw [hcsrs, h.stvec], ?_, ?_, ?_⟩
    · exact (hword 0 (by decide)).trans h.kernelSatp
    · rw [hword 8 (by decide), h.kernelSp]
    · rw [hword 16 (by decide), h.kernelTrap]
  | @trap _ cause val hs henter =>
    rw [inv_user hs] at h
    obtain ⟨u, hu, hmode, -, -, -, hsatp, -, -, hout⟩ := enter_saves h hs cause val
    cases hu.symm.trans henter
    rw [inv_supervisor hmode]
    exact ⟨hsatp, h.mapped.frame hout⟩
  | kernel hs ht hsatp hmap =>
    rw [inv_supervisor hs] at h
    rw [inv_supervisor ht]
    exact ⟨hsatp.trans h.1, hmap⟩
  | ret hs hleave =>
    rw [inv_supervisor hs] at h
    obtain ⟨u, hu, hmode, huser, -⟩ := leave_restores h.2 hs h.1
    cases hu.symm.trans hleave
    rw [inv_user hmode]
    exact huser

/-- In every run, a trap from user mode can be taken at any time and lands in `UserTrap` with the
user's registers and program counter in the trapframe, and the way back can be taken from
the kernel at any time and starts the user with what the trapframe holds; neither touches memory
outside the trapframe. -/
theorem trapped_context {s : Machine}
    (h : Run.Reach (TrapStart p) (TrapStep p) Run.anyStep s) :
    (s.mode = .user → ∀ cause val, ∃ t, trapEnter p cause val s = some t ∧ t.mode = .supervisor ∧
      t.pc = p.userTrap ∧ t.regs .sp = BitVec.ofNat 64 (p.kstack + pgsize) ∧
      t.csrs .satp = satpOf p.kpagetable ∧ frameRegs t.mem p.trapframe = s.regs ∧
      frameEpc t.mem p.trapframe = s.pc ∧
      ∀ b, b < p.trapframe ∨ p.trapframe + 4096 ≤ b → t.mem b = s.mem b) ∧
    (s.mode = .supervisor → ∃ t, trapLeave p s = some t ∧ t.mode = .user ∧
      t.csrs .satp = satpOf p.pagetable ∧ t.regs = frameRegs s.mem p.trapframe ∧
      t.pc = evenPc (frameEpc s.mem p.trapframe) ∧
      ∀ b, b < p.trapframe ∨ p.trapframe + 4096 ≤ b → t.mem b = s.mem b) := by
  have hinv : p.Inv s := by
    apply h.invariant
    · intro u hu
      rw [inv_supervisor hu.1]
      exact hu.2
    · intro u a t hu _ hstep
      exact trapStep_inv hu hstep
  constructor
  · intro hmode cause val
    rw [inv_user hmode] at hinv
    obtain ⟨t, ht, htmode, hpc, hsp, -, hsatp, hregs, hepc, hout⟩ :=
      enter_saves hinv hmode cause val
    exact ⟨t, ht, htmode, hpc, hsp, hsatp, hregs, hepc, hout⟩
  · intro hmode
    rw [inv_supervisor hmode] at hinv
    obtain ⟨t, ht, htmode, huser, hregs, hpc, hout⟩ := leave_restores hinv.2 hmode hinv.1
    exact ⟨t, ht, htmode, huser.satp, hregs, hpc, hout⟩

end Setting

/-! ### A process with its tables -/

/-- The user's table at `0x80400`, the kernel's at `0x80403`, the trampoline's page at `0x80021`
and the trapframe at `0x80406`. -/
def trapWords : List (Nat × Nat) :=
  [(0x80400 * 4096 + 8 * 255, page2pte (0x80401 * 4096) ||| pteV),
   (0x80401 * 4096 + 8 * 511, page2pte (0x80402 * 4096) ||| pteV),
   (0x80402 * 4096 + 8 * 511, page2pte (0x80021 * 4096) ||| (pteV ||| pteR ||| pteX)),
   (0x80402 * 4096 + 8 * 510, page2pte (0x80406 * 4096) ||| (pteV ||| pteR ||| pteW)),
   (0x80403 * 4096 + 8 * 255, page2pte (0x80404 * 4096) ||| pteV),
   (0x80404 * 4096 + 8 * 511, page2pte (0x80405 * 4096) ||| pteV),
   (0x80405 * 4096 + 8 * 511, page2pte (0x80021 * 4096) ||| (pteV ||| pteR ||| pteX))]

def trapMem : Mem := wordsAt trapWords

def smallTrapProc : TrapProc where
  decode _ pa := if pa % 4 = 0 then trampolineCode[(pa - 0x80021000) / 4]? else none
  size _ := 4
  code := 0x80021000
  trapframe := 0x80406000
  pagetable := 0x80400000
  kpagetable := 0x80403000
  kstack := 0x3EC0000000
  userTrap := 0x80022000
  kernvec := 0x80022800
  size_pos _ := by decide
  code_fits := by decide
  code_aligned := by decide
  frame_aligned := by decide
  tables_aligned := by decide
  tables_lt := by decide
  kstack_lt := by decide
  userTrap_even := by decide

theorem slots_trapMem (pn : Nat) (i : Fin 512) :
    slots trapMem pn i =
      ((trapWords.find? fun q => q.1 = pn * 4096 + 8 * i.val).map Prod.snd).getD 0 :=
  readWord_wordsAt (by decide) (by omega)

theorem slots_trapMem_other {pn : Nat} {i : Fin 512}
    (h : ∀ q ∈ trapWords, q.1 ≠ pn * 4096 + 8 * i.val) : slots trapMem pn i = 0 := by
  have hfind : (trapWords.find? fun q => q.1 = pn * 4096 + 8 * i.val) = none := by
    rw [List.find?_eq_none]
    intro q hq
    simpa using h q hq
  rw [slots_trapMem, hfind]
  rfl

theorem trapMem_path {p2 p1 p0 : Nat}
    (hroot : p2 = 0x80400 ∧ p1 = 0x80401 ∧ p0 = 0x80402 ∨
      p2 = 0x80403 ∧ p1 = 0x80404 ∧ p0 = 0x80405) : OnePath trapMem p2 p1 p0 255 511 := by
  have hother : ∀ (pn : Nat) (k i : Fin 512), i ≠ k →
      (∀ q ∈ trapWords, q.1 / 4096 = pn → q.1 = pn * 4096 + 8 * k.val) → slots trapMem pn i = 0 := by
    intro pn k i hik hwords
    apply slots_trapMem_other
    intro q hq he
    have hi := i.isLt
    have hk := hwords q hq (by omega)
    exact hik (Fin.ext (by omega))
  rcases hroot with ⟨rfl, rfl, rfl⟩ | ⟨rfl, rfl, rfl⟩
  all_goals
    refine ⟨by decide, by decide, fun i => ?_, fun i => ?_⟩
    · split
      · subst i
        rw [slots_trapMem]
        decide
      · exact hother _ 255 i ‹_› (by decide)
    · split
      · subst i
        rw [slots_trapMem]
        decide
      · exact hother _ 511 i ‹_› (by decide)

theorem idx_trampoline : idx 2 trampoline = 255 ∧ idx 1 trampoline = 511 ∧ idx 0 trampoline = 511 ∧
    idx 2 trapframe = 255 ∧ idx 1 trapframe = 511 ∧ idx 0 trapframe = 510 := by
  decide

/-- What the tables map are the trampoline and the trapframe. -/
theorem translate_trapMem {va f flags : Nat}
    (h : translate trapMem 0x80400000 va = some (f, flags)) : flags &&& pteU = 0 := by
  have hslot : ∀ pn i, pteFlags (slots trapMem pn i) &&& pteU = 0 := by
    intro pn i
    rw [slots_trapMem]
    cases hfind : trapWords.find? fun q => q.1 = pn * 4096 + 8 * i.val with
    | none => decide
    | some q =>
      have hall : ∀ q ∈ trapWords, pteFlags q.2 &&& pteU = 0 := by decide
      exact hall q (List.mem_of_find?_eq_some hfind)
  unfold translate at h
  split at h
  · rw [← (Prod.mk.inj (Option.some.inj h)).2, pteOf]
    split
    · decide
    · exact hslot _ _
  · cases h

private theorem codeIn_drop (m : Mem) (k : Nat) :
    CodeIn smallTrapProc.decode smallTrapProc.size m (0x80021000 + 4 * k)
      (trampolineCode.drop k) := by
  induction h : trampolineCode.drop k generalizing k with
  | nil => trivial
  | cons i l ih =>
    have hget : trampolineCode[k]? = some i := by
      rw [← List.head?_drop, h]
      rfl
    have hdiv : (0x80021000 + 4 * k - 0x80021000) / 4 = k := by omega
    constructor
    · show (if _ then _ else _) = _
      rw [if_pos (by omega), hdiv, hget]
    · have hnext := ih (k + 1) (by rw [← List.tail_drop, h]; rfl)
      rw [Nat.mul_add, ← Nat.add_assoc] at hnext
      exact hnext

theorem smallTrapProc_mapped : smallTrapProc.Mapped trapMem where
  code m' _ := codeIn_drop m' 0
  userCode := by
    have hidx := idx_trampoline
    have hpte := (trapMem_path (.inl ⟨rfl, rfl, rfl⟩)).pteOf_path hidx.1 hidx.2.1
    rw [hidx.2.2.1, slots_trapMem] at hpte
    have hroot : smallTrapProc.pagetable = 0x80400 * 4096 := rfl
    rw [translate, hroot, hpte]
    decide
  kernelCode := by
    have hidx := idx_trampoline
    have hpte := (trapMem_path (.inr ⟨rfl, rfl, rfl⟩)).pteOf_path hidx.1 hidx.2.1
    rw [hidx.2.2.1, slots_trapMem] at hpte
    have hroot : smallTrapProc.kpagetable = 0x80403 * 4096 := rfl
    rw [translate, hroot, hpte]
    decide
  userFrame := by
    have hidx := idx_trampoline
    have hpte := (trapMem_path (.inl ⟨rfl, rfl, rfl⟩)).pteOf_path hidx.2.2.2.1 hidx.2.2.2.2.1
    rw [hidx.2.2.2.2.2, slots_trapMem] at hpte
    have hroot : smallTrapProc.pagetable = 0x80400 * 4096 := rfl
    rw [translate, hroot, hpte]
    decide
  frameApart := by
    refine ⟨by decide, fun is his hr => ?_, fun is his hr => ?_⟩
    · rcases ((trapMem_path (.inl ⟨rfl, rfl, rfl⟩)).reach_iff his _).mp hr with h | h | h <;>
        exact absurd h.2 (by decide)
    · rcases ((trapMem_path (.inr ⟨rfl, rfl, rfl⟩)).reach_iff his _).mp hr with h | h | h <;>
        exact absurd h.2 (by decide)
  isolated va f flags h hw := absurd (translate_trapMem h) (hw.2.mp rfl)

/-- The kernel before it starts the process. -/
def smallTrapStart : Machine where
  mode := .supervisor
  pc := 0x80022400
  regs _ := 0
  csrs c := if c = .satp then satpOf 0x80403000 else 0
  mem := trapMem

theorem smallTrapStart_start : TrapStart smallTrapProc smallTrapStart :=
  ⟨rfl, rfl, smallTrapProc_mapped⟩

theorem trapped_context_small :
    Run.Reach (TrapStart smallTrapProc) (TrapStep smallTrapProc) Run.anyStep smallTrapStart ∧
      ∃ t, trapLeave smallTrapProc smallTrapStart = some t ∧ t.mode = .user ∧
        t.regs = frameRegs trapMem smallTrapProc.trapframe ∧
        ∃ u, trapEnter smallTrapProc 8 0 t = some u ∧ u.pc = smallTrapProc.userTrap ∧
          frameRegs u.mem smallTrapProc.trapframe = t.regs := by
  have hstart : Run.Reach (TrapStart smallTrapProc) (TrapStep smallTrapProc) Run.anyStep
      smallTrapStart := .start smallTrapStart_start
  obtain ⟨t, ht, hmode, -, hregs, -⟩ := (trapped_context hstart).2 rfl
  have hnext := Run.Reach.next (a := TrapAct.ret) hstart trivial (.ret rfl ht)
  obtain ⟨u, hu, -, hpc, -, -, huregs, -⟩ := (trapped_context hnext).1 hmode 8 0
  exact ⟨hstart, t, ht, hmode, hregs, u, hu, hpc, huregs⟩

end PageFaultOS
