import Mathlib.Tactic
import PageFaultOS.Lib.Rv64

/-! `kernelvec` of `trap/kernelvec.S` and `KernelTrap` of `trap/trap.cpp`: kernel code that is
interrupted, any number of times and anywhere, computes what it computes without interrupts,
as long as it reads neither `tp` nor what the handlers write. -/

namespace PageFaultOS
open ByteMem Rv64

def kernelRegs : List (Reg × Nat) :=
  [(.ra, 0), (.sp, 8), (.gp, 16), (.tp, 24), (.t0, 32), (.t1, 40), (.t2, 48), (.s0, 56), (.s1, 64),
   (.a0, 72), (.a1, 80), (.a2, 88), (.a3, 96), (.a4, 104), (.a5, 112), (.a6, 120), (.a7, 128),
   (.s2, 136), (.s3, 144), (.s4, 152), (.s5, 160), (.s6, 168), (.s7, 176), (.s8, 184), (.s9, 192),
   (.s10, 200), (.s11, 208), (.t3, 216), (.t4, 224), (.t5, 232), (.t6, 240)]

/-- All of them but `tp`, in case the hart changed. -/
def restoredRegs : List (Reg × Nat) := kernelRegs.filter fun q => q.1 ≠ .tp

def kernelvecSave (kerneltrap : Word) : List Instr :=
  .addi .sp .sp (-256) :: (saves .sp kernelRegs ++ [.call kerneltrap])

def kernelvecRet : List Instr := restores .sp restoredRegs ++ [.addi .sp .sp 256, .sret]

/-- A kernel stack, mapped from `kstack` to `pstack`, and the code of `kernelvec` at `entry`.
`Kern` is what the kernel's mappings need of the control registers and the memory. -/
structure TrapStack (P : Platform) where
  kstack : Nat
  pstack : Nat
  entry : Word
  kerneltrap : Word
  Kern : Rv64.Mode → (Csr → Word) → Mem → Prop
  code : CodeAt P Kern entry (kernelvecSave kerneltrap ++ kernelvecRet)
  data : ∀ csrs m, Kern .supervisor csrs m → ∀ off, off % 8 = 0 → off + 8 ≤ 4096 → ∀ acc,
    P.data acc .supervisor csrs m (BitVec.ofNat 64 (kstack + off)) = some (pstack + off)
  keeps : ∀ csrs csrs' m m', Kern .supervisor csrs m → csrs' .satp = csrs .satp →
    (∀ b, b < pstack ∨ pstack + 4096 ≤ b → m' b = m b) → Kern .supervisor csrs' m'
  entry_direct : entry &&& 3 = 0
  kstack_aligned : kstack % 8 = 0
  kstack_lt : kstack + 4096 < 2 ^ 64

variable {P : Platform}

/-- How far the stack pointer is above the bottom of the stack. -/
def TrapStack.room (K : TrapStack P) (s : Machine) : Nat := (s.regs .sp).toNat - K.kstack

/-- Kernel code that may be interrupted: there is room for the registers on its stack. -/
structure TrapStack.Running (K : TrapStack P) (s : Machine) : Prop where
  mode : s.mode = .supervisor
  stvec : s.csrs .stvec = K.entry
  kern : K.Kern .supervisor s.csrs s.mem
  aligned : (s.regs .sp).toNat % 8 = 0
  room : 256 ≤ K.room s
  top : K.room s ≤ 4096
  pc : evenPc s.pc = s.pc

/-- What `DevIntr` and `yield` do: a C function returns with the stack pointer it was called with, and
what lies above that on the stack is not theirs. `F` is the memory they do write. -/
structure TrapStack.Called (K : TrapStack P) (F : Set Nat) (s t : Machine) : Prop where
  mode : t.mode = s.mode
  sp : t.regs .sp = s.regs .sp
  stvec : t.csrs .stvec = s.csrs .stvec
  satp : t.csrs .satp = s.csrs .satp
  kern : K.Kern .supervisor t.csrs t.mem
  mem : ∀ b, b ∉ F → ¬ (K.pstack ≤ b ∧ b < K.pstack + K.room s) → t.mem b = s.mem b

/-- The functions that `KernelTrap` calls; `none` is a panic, or a read through the null pointer that
`curproc` may return. -/
structure TrapCalls where
  devIntr : Machine → Option (Nat × Machine)
  running : Machine → Option Bool
  yield : Machine → Option Machine

def kernelTrap (c : TrapCalls) (s : Machine) : Option Machine :=
  let sepc := s.csrs .sepc
  let sstatus := s.csrs .sstatus
  if sstatus &&& sstatusSPP = 0 then
    none
  else if s.csrs .sstatus &&& sstatusSIE ≠ 0 then
    none
  else
    (c.devIntr s).bind fun (whichDev, u) =>
      if whichDev = 0 then
        none
      else
        (if whichDev = 2 then
          (c.running u).bind fun r => if r then c.yield u else some u
        else
          some u).map fun v => (v.setCsr .sepc sepc).setCsr .sstatus sstatus

/-- An interrupt from the first instruction of `kernelvec` to its `sret`. -/
def TrapStack.interrupt (K : TrapStack P) (c : TrapCalls) (cause val : Word) (s : Machine) :
    Option Machine :=
  (run P (kernelvecSave K.kerneltrap).length (s.trap cause val)).bind fun u =>
    (kernelTrap c u).bind fun v => run P kernelvecRet.length { v with pc := u.regs .ra }

structure TrapStack.Calls (K : TrapStack P) (F : Set Nat) (c : TrapCalls) : Prop where
  devIntr : ∀ s w t, K.Kern .supervisor s.csrs s.mem → c.devIntr s = some (w, t) → K.Called F s t
  yield : ∀ s t, K.Kern .supervisor s.csrs s.mem → c.yield s = some t → K.Called F s t

/-- What the interrupted code may rely on. -/
structure TrapStack.Undisturbed (K : TrapStack P) (F : Set Nat) (s t : Machine) : Prop where
  mode : t.mode = s.mode
  pc : t.pc = s.pc
  regs : ∀ r, r ≠ .tp → t.regs r = s.regs r
  stvec : t.csrs .stvec = s.csrs .stvec
  satp : t.csrs .satp = s.csrs .satp
  intr : t.csrs .sstatus &&& sstatusSIE = s.csrs .sstatus &&& sstatusSIE
  kern : K.Kern .supervisor t.csrs t.mem
  mem : ∀ b, b ∉ F → ¬ (K.pstack ≤ b ∧ b < K.pstack + K.room s) → t.mem b = s.mem b

theorem kernelRegs_layout : Rv64.Layout kernelRegs 256 := by
  refine ⟨by decide, by decide, ?_⟩
  decide

theorem restoredRegs_layout : Rv64.Layout restoredRegs 256 := by
  refine ⟨by decide, by decide, ?_⟩
  decide

theorem restoredRegs_sub : ∀ q ∈ restoredRegs, q ∈ kernelRegs :=
  fun _ hq => (List.mem_filter.mp hq).1

theorem mem_restoredRegs {r : Reg} (hr : r ≠ .tp) : r ∈ restoredRegs.map Prod.fst := by
  cases r <;> first | exact absurd rfl hr | decide

section Frame
variable {K : TrapStack P} {F : Set Nat} {s t : Machine} {c : TrapCalls}

/-- The stack pointer below the saved registers. -/
def frameSp (s : Machine) : Word := s.regs .sp + BitVec.ofInt 64 (-256)

theorem TrapStack.Running.sp_eq (h : K.Running s) : (s.regs .sp).toNat = K.kstack + K.room s := by
  have hroom := h.room
  unfold TrapStack.room at *
  omega

theorem TrapStack.Running.frameSp_eq (h : K.Running s) :
    frameSp s = BitVec.ofNat 64 (K.kstack + (K.room s - 256)) := by
  have hsp := h.sp_eq
  have hroom := h.room
  have htop := h.top
  have hlt := K.kstack_lt
  apply BitVec.eq_of_toNat_eq
  have hneg : (BitVec.ofInt 64 (-256)).toNat = 2 ^ 64 - 256 := by decide
  rw [frameSp, BitVec.toNat_add, hneg, hsp, BitVec.toNat_ofNat]
  omega

theorem frameSp_back (s : Machine) : frameSp s + BitVec.ofInt 64 256 = s.regs .sp := by
  have hcancel : BitVec.ofInt 64 (-256) + BitVec.ofInt 64 256 = 0#64 := by decide
  rw [frameSp, BitVec.add_assoc, hcancel, BitVec.add_zero]

/-- The words of the frame are mapped. -/
theorem TrapStack.area (h : K.Running s) {csrs : Csr → Word} {m : Mem}
    (hkern : K.Kern .supervisor csrs m) :
    Area P .supervisor csrs m (frameSp s) (K.pstack + (K.room s - 256)) 256 := by
  have hroom := h.room
  have htop := h.top
  have haligned := h.aligned
  have hsp := h.sp_eq
  have hk := K.kstack_aligned
  intro m' hm' off hoff hfit acc
  have hkern' : K.Kern .supervisor csrs m' :=
    K.keeps csrs csrs m m' hkern rfl fun b hb => hm' b (by omega)
  have hplace := K.data csrs m' hkern' (K.room s - 256 + off) (by omega) (by omega) acc
  rw [h.frameSp_eq, ← BitVec.ofNat_add, Nat.add_assoc, Nat.add_assoc]
  exact hplace

theorem direct_target {x : Word} (h : x &&& 3 = 0) (cause : Word) : trapTarget x cause = x := by
  have hsplit : x &&& ~~~3#64 = x := by
    calc x &&& ~~~3#64 = (x &&& 3#64) ||| (x &&& ~~~3#64) := by
          rw [show x &&& 3#64 = 0#64 from h, BitVec.zero_or]
      _ = x &&& (3#64 ||| ~~~3#64) := BitVec.and_or_distrib_left.symm
      _ = x := by rw [show 3#64 ||| ~~~3#64 = BitVec.allOnes 64 by decide, BitVec.and_allOnes]
  have hne : ¬ (x &&& 3 = 1 ∧ cause.msb = true) := by
    rintro ⟨h1, -⟩
    rw [h] at h1
    revert h1
    decide
  rw [trapTarget, if_neg hne]
  exact hsplit

/-- `kernelvec` up to the call: all registers are in the frame. -/
theorem kernelvec_saves (h : K.Running s) (cause val : Word) :
    ∃ u, run P (kernelvecSave K.kerneltrap).length (s.trap cause val) = some u ∧
      u.mode = .supervisor ∧ u.regs .sp = frameSp s ∧ u.csrs = (s.trap cause val).csrs ∧
      K.Kern .supervisor u.csrs u.mem ∧ CodeAt P K.Kern (u.regs .ra) kernelvecRet ∧
      (∀ q ∈ kernelRegs, readWord u.mem (K.pstack + (K.room s - 256) + q.2) =
        (Function.update s.regs .sp (frameSp s) q.1).toNat) ∧
      ∀ b, b < K.pstack + (K.room s - 256) ∨ K.pstack + K.room s ≤ b → u.mem b = s.mem b := by
  have hroom := h.room
  have htop := h.top
  obtain ⟨hsave, hret⟩ := codeAt_append.mp K.code
  have hpc : (s.trap cause val).pc = K.entry := by
    show trapTarget (s.csrs .stvec) cause = _
    rw [h.stvec, direct_target K.entry_direct]
  rw [← hpc] at hsave hret
  obtain ⟨hfirst, hrest⟩ := hsave
  obtain ⟨hsaves, hcall, -⟩ := codeAt_append.mp hrest
  have hkern : ∀ m', (∀ b, b < K.pstack ∨ K.pstack + 4096 ≤ b → m' b = s.mem b) →
      K.Kern .supervisor (s.trap cause val).csrs m' :=
    fun m' hm' => K.keeps s.csrs _ s.mem m' h.kern rfl hm'
  obtain ⟨s₁, hrun₁, hmode, hcsrs, hmem, hregs, hpc₁⟩ : ∃ s₁, (∀ n, run P (n + 1) (s.trap cause val) =
      run P n s₁) ∧ s₁.mode = .supervisor ∧ s₁.csrs = (s.trap cause val).csrs ∧ s₁.mem = s.mem ∧
      s₁.regs = Function.update s.regs .sp (frameSp s) ∧ s₁.pc =
        (s.trap cause val).pc + BitVec.ofNat 64 (P.size (.addi .sp .sp (-256))) := by
    refine ⟨_, fun n => run_fetched hfirst (hkern s.mem fun _ _ => rfl) rfl, ?_, ?_, ?_, ?_, ?_⟩
    · rw [advance_mode, setReg_mode]
      rfl
    · rw [advance_csrs, setReg_csrs]
    · rw [advance_mem, setReg_mem]
      rfl
    · rw [advance_regs, setReg_regs]
      rfl
    · rw [advance_pc, setReg_pc]
  rw [← hpc₁] at hsaves hcall
  have hsp : s₁.regs .sp = frameSp s := by
    rw [hregs, Function.update_self]
  have harea : Area P s₁.mode s₁.csrs s₁.mem (s₁.regs .sp) (K.pstack + (K.room s - 256)) 256 := by
    rw [hsp, hmode, hcsrs, hmem]
    exact K.area h (hkern s.mem fun _ _ => rfl)
  obtain ⟨s₂, hrun₂, hmode₂, hcsrs₂, hregs₂, hmem₂, hpc₂⟩ :=
    run_saves kernelRegs_layout hsaves harea fun m' hm' => by
      rw [hmode, hcsrs]
      exact hkern m' fun b hb => (hm' b (by omega)).trans (congrFun hmem b)
  have hout : ∀ b, b < K.pstack + (K.room s - 256) ∨ K.pstack + K.room s ≤ b → s₂.mem b = s.mem b := by
    intro b hb
    rw [hmem₂, saved_outside_area kernelRegs_layout _ (by omega), hmem]
  have hkern₂ : K.Kern s₂.mode s₂.csrs s₂.mem := by
    rw [hmode₂, hmode, hcsrs₂, hcsrs]
    exact hkern _ fun b hb => hout b (by omega)
  rw [← hpc₂] at hcall
  have hrun₃ := run_fetched (n := 0) hcall hkern₂ rfl
  have hlen : (kernelvecSave K.kerneltrap).length = kernelRegs.length + 1 + 1 := by
    simp [kernelvecSave, saves]
  have hcsrs₃ : s₂.csrs = (s.trap cause val).csrs := hcsrs₂.trans hcsrs
  have hmode₃ : s₂.mode = .supervisor := hmode₂.trans hmode
  refine ⟨{ s₂.setReg .ra (s₂.pc + BitVec.ofNat 64 (P.size (.call K.kerneltrap))) with
    pc := K.kerneltrap }, by rw [hlen, hrun₁, run_add hrun₂, hrun₃, run_zero], hmode₃, ?_, hcsrs₃, ?_,
    ?_, ?_, hout⟩
  · rw [setReg_regs, Function.update_of_ne (by decide), hregs₂, hsp]
  · rw [← hmode₃]
    exact hkern₂
  · rw [setReg_regs, Function.update_self, hpc₂, hpc₁]
    rw [kernelvecSave, codeSize_cons, codeSize_append, codeSize_cons, codeSize_nil, Nat.add_zero,
      BitVec.ofNat_add, BitVec.ofNat_add, ← BitVec.add_assoc, ← BitVec.add_assoc] at hret
    exact hret
  · intro q hq
    show readWord s₂.mem _ = _
    rw [hmem₂, readWord_saved kernelRegs_layout _ hq, hregs]

/-- `kernelvec` after the call: every register but `tp` comes back. -/
theorem kernelvec_restores (h : K.Running s) (regs : Reg → Word) (hmode : t.mode = .supervisor)
    (hsp : t.regs .sp = frameSp s) (hkern : K.Kern .supervisor t.csrs t.mem)
    (hcode : CodeAt P K.Kern t.pc kernelvecRet)
    (hwords : ∀ q ∈ kernelRegs, readWord t.mem (K.pstack + (K.room s - 256) + q.2) =
      (Function.update regs .sp (frameSp s) q.1).toNat) :
    ∃ u, run P kernelvecRet.length t = some u ∧ u.mode = t.ret.mode ∧ u.pc = t.ret.pc ∧
      u.csrs = t.ret.csrs ∧ u.mem = t.mem ∧ u.regs .sp = s.regs .sp ∧
      ∀ r, r ≠ .tp → r ≠ .sp → u.regs r = regs r := by
  obtain ⟨hrest, h₁, h₂, -⟩ := codeAt_append.mp hcode
  have hword : ∀ q ∈ restoredRegs,
      BitVec.ofNat 64 (readWord t.mem (K.pstack + (K.room s - 256) + q.2)) =
        Function.update regs .sp (frameSp s) q.1 := by
    intro q hq
    rw [hwords q (restoredRegs_sub q hq), BitVec.ofNat_toNat, BitVec.setWidth_eq]
  have harea : Area P t.mode t.csrs t.mem (t.regs .sp) (K.pstack + (K.room s - 256)) 256 := by
    rw [hsp, hmode]
    exact K.area h hkern
  -- the word for `sp` is the base itself
  obtain ⟨t₁, hrun₁, hmode₁, hcsrs₁, hregs₁, hmem₁, hpc₁⟩ :=
    run_restores restoredRegs_layout hrest harea (hmode ▸ hkern) fun q hq he => by
      rw [hword q hq, he, Function.update_self, hsp]
  have hkern₁ : K.Kern t₁.mode t₁.csrs t₁.mem := by
    rw [hmode₁, hmode, hcsrs₁, hmem₁]
    exact hkern
  have hloaded : ∀ r, r ≠ .tp → t₁.regs r = Function.update regs .sp (frameSp s) r := by
    intro r hr
    obtain ⟨q, hq, rfl⟩ := List.mem_map.mp (mem_restoredRegs hr)
    rw [hregs₁, loaded_of_mem restoredRegs_layout _ hq, hword q hq]
  rw [← hpc₁] at h₁ h₂
  obtain ⟨t₂, hrun₂, hmode₂, hcsrs₂, hmem₂, hregs₂, hpc₂⟩ : ∃ t₂, run P 2 t₁ = run P 1 t₂ ∧
      t₂.mode = t₁.mode ∧ t₂.csrs = t₁.csrs ∧ t₂.mem = t₁.mem ∧
      t₂.regs = Function.update t₁.regs .sp (t₁.regs .sp + BitVec.ofInt 64 256) ∧
      t₂.pc = t₁.pc + BitVec.ofNat 64 (P.size (.addi .sp .sp 256)) := by
    refine ⟨_, run_fetched h₁ hkern₁ rfl, ?_, ?_, ?_, ?_, ?_⟩
    · rw [advance_mode, setReg_mode]
    · rw [advance_csrs, setReg_csrs]
    · rw [advance_mem, setReg_mem]
    · rw [advance_regs, setReg_regs]
    · rw [advance_pc, setReg_pc]
  have hkern₂ : K.Kern t₂.mode t₂.csrs t₂.mem := by
    rw [hmode₂, hcsrs₂, hmem₂]
    exact hkern₁
  rw [← hpc₂] at h₂
  have hrun₃ : run P 1 t₂ = some t₂.ret := run_fetched h₂ hkern₂ rfl
  have hcsrs : t₂.csrs = t.csrs := hcsrs₂.trans hcsrs₁
  have hlen : kernelvecRet.length = restoredRegs.length + 2 := by decide
  refine ⟨t₂.ret, by rw [hlen, run_add hrun₁, hrun₂, hrun₃], ?_, ?_, ?_, ?_, ?_, ?_⟩
  · rw [Machine.ret, Machine.ret, hcsrs]
  · rw [Machine.ret, Machine.ret, hcsrs]
  · rw [Machine.ret, Machine.ret, hcsrs]
  · exact hmem₂.trans hmem₁
  · show t₂.regs .sp = _
    rw [hregs₂, Function.update_self, hloaded .sp (by decide), Function.update_self, frameSp_back]
  · intro r htp hsp
    show t₂.regs r = _
    rw [hregs₂, Function.update_of_ne hsp, hloaded r htp, Function.update_of_ne hsp]

/-! ### `sstatus` through a trap and back -/

theorem and_single_bit (x : Word) (i : Nat) :
    x &&& BitVec.twoPow 64 i = 0 ∨ x &&& BitVec.twoPow 64 i = BitVec.twoPow 64 i := by
  rw [BitVec.and_twoPow]
  split
  · exact .inr rfl
  · exact .inl rfl

theorem or_bit_and (x : Word) (i : Nat) :
    (x ||| BitVec.twoPow 64 i) &&& BitVec.twoPow 64 i = BitVec.twoPow 64 i := by
  rw [BitVec.and_or_distrib_right, BitVec.and_self]
  rcases and_single_bit x i with h | h
  · rw [h]
    exact BitVec.zero_or
  · rw [h, BitVec.or_self]

private theorem spie_bit : sstatusSPIE = BitVec.twoPow 64 5 := by decide
private theorem spp_bit : sstatusSPP = BitVec.twoPow 64 8 := by decide
private theorem sie_bit : sstatusSIE = BitVec.twoPow 64 1 := by decide

theorem trapStatus_supervisor (x : Word) :
    trapStatus .supervisor x &&& sstatusSPP = sstatusSPP ∧
      trapStatus .supervisor x &&& sstatusSIE = 0 ∧
      (trapStatus .supervisor x &&& sstatusSPIE = 0 ↔ x &&& sstatusSIE = 0) := by
  have hsie : ~~~sstatusSIE &&& sstatusSIE = 0#64 := by decide
  have hspp : sstatusSPP &&& sstatusSIE = 0#64 := by decide
  have hspp' : sstatusSPP &&& sstatusSPIE = 0#64 := by decide
  have hkeep : ~~~sstatusSIE &&& sstatusSPIE = sstatusSPIE := by decide
  have hclear : ~~~sstatusSPIE &&& sstatusSPIE = 0#64 := by decide
  simp only [trapStatus]
  refine ⟨?_, ?_, ?_⟩
  · rw [spp_bit, or_bit_and]
  · rw [BitVec.and_or_distrib_right, BitVec.and_assoc, hsie, hspp, BitVec.and_zero, BitVec.or_zero]
    rfl
  · rw [BitVec.and_or_distrib_right, BitVec.and_assoc, hkeep, hspp', BitVec.or_zero]
    split
    · rename_i h
      rw [BitVec.and_assoc, hclear, BitVec.and_zero]
      exact ⟨fun _ => h, fun _ => rfl⟩
    · rename_i h
      rw [spie_bit, or_bit_and]
      exact ⟨fun h' => absurd h' (by decide), fun h' => absurd h' h⟩

theorem retStatus_sie (x : Word) :
    retStatus x &&& sstatusSIE = if x &&& sstatusSPIE = 0 then 0 else sstatusSIE := by
  have hspp : ~~~sstatusSPP &&& sstatusSIE = sstatusSIE := by decide
  have hspie : sstatusSPIE &&& sstatusSIE = 0#64 := by decide
  have hclear : ~~~sstatusSIE &&& sstatusSIE = 0#64 := by decide
  simp only [retStatus]
  rw [BitVec.and_assoc, hspp, BitVec.and_or_distrib_right, hspie, BitVec.or_zero]
  split
  · rw [BitVec.and_assoc, hclear, BitVec.and_zero]
    rfl
  · rw [sie_bit, or_bit_and]

/-- The interrupt enable is what it was. -/
theorem ret_trapStatus (x : Word) :
    retStatus (trapStatus .supervisor x) &&& sstatusSIE = x &&& sstatusSIE := by
  rw [retStatus_sie]
  split
  · rename_i h
    exact ((trapStatus_supervisor x).2.2.mp h).symm
  · rename_i h
    rcases and_single_bit x 1 with hx | hx
    · exact absurd ((trapStatus_supervisor x).2.2.mpr hx) h
    · rw [sie_bit, hx]

/-! ### The handler in between -/

theorem TrapStack.Called.trans {u : Machine} (h : K.Called F s t) (h' : K.Called F t u) :
    K.Called F s u where
  mode := h'.mode.trans h.mode
  sp := h'.sp.trans h.sp
  stvec := h'.stvec.trans h.stvec
  satp := h'.satp.trans h.satp
  kern := h'.kern
  mem b hb hstack := by
    have hroom : K.room t = K.room s := by rw [TrapStack.room, TrapStack.room, h.sp]
    rw [h'.mem b hb (by rwa [hroom]), h.mem b hb hstack]

theorem TrapStack.Called.restored (h : K.Called F s t) (sepc sstatus : Word) :
    K.Called F s ((t.setCsr .sepc sepc).setCsr .sstatus sstatus) where
  mode := h.mode
  sp := h.sp
  stvec := h.stvec
  satp := h.satp
  kern := K.keeps _ _ _ _ h.kern rfl fun _ _ => rfl
  mem := h.mem

/-- `KernelTrap` puts `sepc` and `sstatus` back, whatever its calls did to them. -/
theorem kernelTrap_called (hcalls : K.Calls F c) (hkern : K.Kern .supervisor s.csrs s.mem)
    (h : kernelTrap c s = some t) : t.csrs .sepc = s.csrs .sepc ∧
      t.csrs .sstatus = s.csrs .sstatus ∧ K.Called F s t := by
  unfold kernelTrap at h
  by_cases hspp : s.csrs .sstatus &&& sstatusSPP = 0
  · rw [if_pos hspp] at h
    cases h
  by_cases hsie : s.csrs .sstatus &&& sstatusSIE ≠ 0
  · rw [if_neg hspp, if_pos hsie] at h
    cases h
  rw [if_neg hspp, if_neg hsie] at h
  obtain ⟨⟨w, u⟩, hdev, h⟩ := Option.bind_eq_some_iff.mp h
  have hcalled := hcalls.devIntr s w u hkern hdev
  simp only at h
  split at h
  · cases h
  · obtain ⟨v, hv, rfl⟩ := Option.map_eq_some_iff.mp h
    have hcalled' : K.Called F s v := by
      split at hv
      · obtain ⟨r, -, hr⟩ := Option.bind_eq_some_iff.mp hv
        split at hr
        · exact hcalled.trans (hcalls.yield u v hcalled.kern hr)
        · cases hr
          exact hcalled
      · cases hv
        exact hcalled
    exact ⟨rfl, rfl, hcalled'.restored _ _⟩

/-- Neither check at the start of `KernelTrap` fails in an interrupt. -/
theorem kernelTrap_checks (h : s.csrs .sstatus = trapStatus .supervisor (t.csrs .sstatus)) :
    kernelTrap c s = (c.devIntr s).bind fun (whichDev, u) =>
      if whichDev = 0 then
        none
      else
        (if whichDev = 2 then
          (c.running u).bind fun r => if r then c.yield u else some u
        else
          some u).map fun v => (v.setCsr .sepc (s.csrs .sepc)).setCsr .sstatus (s.csrs .sstatus) := by
  obtain ⟨hspp, hsie, -⟩ := trapStatus_supervisor (t.csrs .sstatus)
  have hspp' : ¬ s.csrs .sstatus &&& sstatusSPP = 0 := by
    rw [h, hspp]
    decide
  have hsie' : ¬ s.csrs .sstatus &&& sstatusSIE ≠ 0 := by
    rw [h, hsie, ne_eq, not_not]
  exact (if_neg hspp').trans (if_neg hsie')

/-- An interrupt of kernel code: `kernelvec` reaches `KernelTrap` whose checks hold, and where that returns
the interrupted code goes on with its registers and its memory. -/
theorem kernelvec_transparent (h : K.Running s) (hcalls : K.Calls F c)
    (hF : ∀ b ∈ F, b < K.pstack ∨ K.pstack + 4096 ≤ b) (cause val : Word) :
    ∃ u, run P (kernelvecSave K.kerneltrap).length (s.trap cause val) = some u ∧
      u.csrs .sstatus = trapStatus .supervisor (s.csrs .sstatus) ∧
      ∀ v, kernelTrap c u = some v →
        ∃ t, K.interrupt c cause val s = some t ∧ K.Undisturbed F s t := by
  have hroom := h.room
  have htop := h.top
  obtain ⟨u, hrun, hmode, hsp, hcsrs, hkern, hcode, hwords, hout⟩ := kernelvec_saves h cause val
  have hstatus : u.csrs .sstatus = trapStatus .supervisor (s.csrs .sstatus) := by
    rw [hcsrs, ← h.mode]
    rfl
  refine ⟨u, hrun, hstatus, fun v hv => ?_⟩
  obtain ⟨hsepc, hsstatus, hcalled⟩ := kernelTrap_called hcalls hkern hv
  have hroomU : K.room u = K.room s - 256 := by
    have hlt := K.kstack_lt
    rw [TrapStack.room, hsp, h.frameSp_eq, BitVec.toNat_ofNat]
    omega
  have hframe : ∀ q ∈ kernelRegs, readWord v.mem (K.pstack + (K.room s - 256) + q.2) =
      (Function.update s.regs .sp (frameSp s) q.1).toNat := by
    intro q hq
    have hfit := kernelRegs_layout.fits q hq
    rw [← hwords q hq]
    apply readWord_congr
    intro b hb hb'
    apply hcalled.mem b
    · intro hbF
      have := hF b hbF
      omega
    · rw [hroomU]
      omega
  have hvmode : v.mode = .supervisor := hcalled.mode.trans hmode
  obtain ⟨t, hret, htmode, htpc, htcsrs, htmem, htsp, htregs⟩ :=
    kernelvec_restores (t := { v with pc := u.regs .ra }) h s.regs hvmode (hcalled.sp.trans hsp)
      hcalled.kern hcode hframe
  refine ⟨t, ?_, ?_⟩
  · rw [TrapStack.interrupt, hrun, Option.bind_some, hv, Option.bind_some, hret]
  · have hvstatus : v.csrs .sstatus = trapStatus .supervisor (s.csrs .sstatus) :=
      hsstatus.trans hstatus
    have hother : ∀ d, d ≠ .sstatus → t.csrs d = v.csrs d := by
      intro d hd
      rw [htcsrs]
      exact Function.update_of_ne hd _ _
    have hustvec : u.csrs .stvec = s.csrs .stvec := by
      rw [hcsrs]
      rfl
    have husatp : u.csrs .satp = s.csrs .satp := by
      rw [hcsrs]
      rfl
    have husepc : u.csrs .sepc = s.pc := by
      rw [hcsrs]
      rfl
    refine ⟨?_, ?_, ?_, ?_, ?_, ?_, ?_, ?_⟩
    · rw [htmode, h.mode]
      show (if v.csrs .sstatus &&& sstatusSPP = 0 then Rv64.Mode.user else .supervisor) = _
      rw [hvstatus, (trapStatus_supervisor _).1]
      decide
    · rw [htpc]
      show evenPc (v.csrs .sepc) = _
      rw [hsepc, husepc, h.pc]
    · intro r hr
      by_cases hrsp : r = .sp
      · rw [hrsp, htsp]
      · exact htregs r hr hrsp
    · rw [hother .stvec (by decide), hcalled.stvec, hustvec]
    · rw [hother .satp (by decide), hcalled.satp, husatp]
    · rw [htcsrs]
      show Function.update v.csrs .sstatus (retStatus (v.csrs .sstatus)) .sstatus &&& _ = _
      rw [Function.update_self, hvstatus, ret_trapStatus]
    · exact K.keeps v.csrs _ v.mem _ hcalled.kern (hother .satp (by decide)) fun b _ => by rw [htmem]
    · intro b hbF hb
      rw [htmem]
      refine (hcalled.mem b hbF ?_).trans (hout b ?_)
      · rw [hroomU]
        omega
      · omega

/-! ### Interrupted runs -/

/-- Two states that interrupted code cannot tell apart where it reads the bytes of `live`. -/
structure Alike (live : Set Nat) (s t : Machine) : Prop where
  mode : t.mode = s.mode
  pc : t.pc = s.pc
  regs : ∀ r, r ≠ .tp → t.regs r = s.regs r
  stvec : t.csrs .stvec = s.csrs .stvec
  satp : t.csrs .satp = s.csrs .satp
  intr : t.csrs .sstatus &&& sstatusSIE = s.csrs .sstatus &&& sstatusSIE
  mem : ∀ b ∈ live, t.mem b = s.mem b

/-- Kernel code as a function of the state: what it reads, in each state, are the bytes of `live`, and
these lie neither below its stack pointer nor where the handlers write. -/
structure TrapStack.Code (K : TrapStack P) (F : Set Nat) (f : Machine → Option Machine)
    (live : Machine → Set Nat) : Prop where
  reads : ∀ s t s', Alike (live s) s t → f s = some s' → ∃ t', f t = some t' ∧ Alike (live s') s' t'
  keeps : ∀ s t, K.Running s → f s = some t → K.Running t
  live : ∀ s, K.Running s → ∀ b ∈ live s, b ∉ F ∧ ¬ (K.pstack ≤ b ∧ b < K.pstack + K.room s)

/-- The code has run for `n` steps, with any number of interrupts before, between and after them. -/
inductive TrapStack.Interleaved (K : TrapStack P) (F : Set Nat) (f : Machine → Option Machine)
    (s : Machine) : Nat → Machine → Prop where
  | start : K.Interleaved F f s 0 s
  | code {n : Nat} {t u : Machine} (h : K.Interleaved F f s n t) (hstep : f t = some u) :
      K.Interleaved F f s (n + 1) u
  | intr {n : Nat} {t u : Machine} {c : TrapCalls} {cause val : Word}
      (h : K.Interleaved F f s n t) (hcalls : K.Calls F c)
      (hintr : K.interrupt c cause val t = some u) : K.Interleaved F f s n u

/-- The code alone. -/
def codeRun (f : Machine → Option Machine) : Nat → Machine → Option Machine
  | 0, s => some s
  | n + 1, s => (codeRun f n s).bind f

theorem Alike.refl (live : Set Nat) (s : Machine) : Alike live s s :=
  ⟨rfl, rfl, fun _ _ => rfl, rfl, rfl, rfl, fun _ _ => rfl⟩

theorem TrapStack.Undisturbed.alike {live : Set Nat} {u : Machine} (h : K.Undisturbed F t u)
    (hst : Alike live s t)
    (hlive : ∀ b ∈ live, b ∉ F ∧ ¬ (K.pstack ≤ b ∧ b < K.pstack + K.room s)) : Alike live s u where
  mode := h.mode.trans hst.mode
  pc := h.pc.trans hst.pc
  regs r hr := (h.regs r hr).trans (hst.regs r hr)
  stvec := h.stvec.trans hst.stvec
  satp := h.satp.trans hst.satp
  intr := h.intr.trans hst.intr
  mem b hb := by
    have hroom : K.room t = K.room s := by
      rw [TrapStack.room, TrapStack.room, hst.regs .sp (by decide)]
    rw [h.mem b (hlive b hb).1 (by rw [hroom]; exact (hlive b hb).2), hst.mem b hb]

theorem TrapStack.Undisturbed.running (h : K.Undisturbed F s t) (hs : K.Running s) :
    K.Running t where
  mode := h.mode.trans hs.mode
  stvec := h.stvec.trans hs.stvec
  kern := h.kern
  aligned := by rw [h.regs .sp (by decide), hs.aligned]
  room := by
    rw [TrapStack.room, h.regs .sp (by decide)]
    exact hs.room
  top := by
    rw [TrapStack.room, h.regs .sp (by decide)]
    exact hs.top
  pc := by rw [h.pc, hs.pc]

/-- An interrupt that returns leaves the code undisturbed. -/
theorem interrupt_undisturbed {cause val : Word} (h : K.Running s) (hcalls : K.Calls F c)
    (hF : ∀ b ∈ F, b < K.pstack ∨ K.pstack + 4096 ≤ b)
    (hintr : K.interrupt c cause val s = some t) : K.Undisturbed F s t := by
  obtain ⟨u, hrun, -, hreturns⟩ := kernelvec_transparent h hcalls hF cause val
  have hintr' := hintr
  rw [TrapStack.interrupt, hrun, Option.bind_some] at hintr'
  obtain ⟨v, hv, -⟩ := Option.bind_eq_some_iff.mp hintr'
  obtain ⟨t', ht', hund⟩ := hreturns v hv
  cases ht'.symm.trans hintr
  exact hund

/-- However often and wherever it is interrupted, kernel code gets to a state that it cannot tell from the
one it gets to alone, and goes on where it would. -/
theorem interrupted_run {f : Machine → Option Machine} {live : Machine → Set Nat}
    (hcode : K.Code F f live) (hF : ∀ b ∈ F, b < K.pstack ∨ K.pstack + 4096 ≤ b)
    (hs : K.Running s) {n : Nat} (h : K.Interleaved F f s n t) {alone : Machine}
    (hrun : codeRun f n s = some alone) :
    Alike (live alone) alone t ∧ ∀ next, f alone = some next →
      ∃ u, f t = some u ∧ Alike (live next) next u := by
  have hboth : K.Running alone ∧ K.Running t ∧ Alike (live alone) alone t := by
    induction h generalizing alone with
    | start =>
      cases hrun
      exact ⟨hs, hs, .refl _ _⟩
    | @code n t u _ hstep ih =>
      obtain ⟨a, ha, hfa⟩ := Option.bind_eq_some_iff.mp hrun
      obtain ⟨hra, hrt, halike⟩ := ih ha
      obtain ⟨u', hu', halike'⟩ := hcode.reads a t alone halike hfa
      cases hu'.symm.trans hstep
      exact ⟨hcode.keeps a alone hra hfa, hcode.keeps t _ hrt hstep, halike'⟩
    | @intr n t u c cause val _ hcalls hintr ih =>
      obtain ⟨hra, hrt, halike⟩ := ih hrun
      have hund := interrupt_undisturbed hrt hcalls hF hintr
      exact ⟨hra, hund.running hrt, hund.alike halike (hcode.live alone hra)⟩
  exact ⟨hboth.2.2, fun next hnext => hcode.reads alone t next hboth.2.2 hnext⟩

end Frame

/-! ### A kernel that counts -/

def smallKernel : Platform := flat 0x80021000 (kernelvecSave 0x80021800 ++ kernelvecRet)

def smallStack : TrapStack smallKernel where
  kstack := 0x80300000
  pstack := 0x80300000
  entry := 0x80021000
  kerneltrap := 0x80021800
  Kern _ _ _ := True
  code := flat_codeAt (by decide)
  data := by
    intro csrs m _ off _ hoff acc
    show some (BitVec.ofNat 64 (0x80300000 + off)).toNat = _
    rw [BitVec.toNat_ofNat, Nat.mod_eq_of_lt (by omega)]
  keeps _ _ _ _ _ _ _ := trivial
  entry_direct := by decide
  kstack_aligned := by decide
  kstack_lt := by decide

/-- A handler that counts the ticks at `0x80600000`, and moves the hart. -/
def tickCalls : TrapCalls where
  devIntr s := some (2, { s.setReg .tp 1 with
    mem := Function.update s.mem 0x80600000 (s.mem 0x80600000 + 1) })
  running _ := some false
  yield := some

/-- Code that adds the byte at `0x80500000` to `a0`, again and again. -/
def addByte (s : Machine) : Option Machine :=
  some { s.setReg .a0 (s.regs .a0 + BitVec.ofNat 64 (s.mem 0x80500000).toNat) with pc := 0x80022000 }

def addStart : Machine where
  mode := .supervisor
  pc := 0x80022000
  regs r := if r = .sp then 0x80301000 else 0
  csrs d := if d = .stvec then 0x80021000 else 0
  mem := fun _ => 3

theorem tickCalls_calls : smallStack.Calls {0x80600000} tickCalls := by
  refine ⟨fun s w t _ h => ?_, fun s t _ h => ?_⟩
  · cases h
    exact ⟨rfl, rfl, rfl, rfl, trivial, fun b hb _ => Function.update_of_ne hb _ _⟩
  · cases h
    exact ⟨rfl, rfl, rfl, rfl, trivial, fun _ _ _ => rfl⟩

theorem addByte_code : smallStack.Code {0x80600000} addByte fun _ => {0x80500000} where
  reads s t s' h hs := by
    cases hs
    refine ⟨_, rfl, ⟨h.mode, rfl, ?_, h.stvec, h.satp, h.intr, h.mem⟩⟩
    intro r hr
    show Function.update t.regs .a0 _ r = Function.update s.regs .a0 _ r
    rw [h.mem _ rfl, h.regs .a0 (by decide)]
    by_cases hra : r = .a0
    · rw [hra, Function.update_self, Function.update_self]
    · rw [Function.update_of_ne hra, Function.update_of_ne hra, h.regs r hr]
  keeps s t h hs := by
    cases hs
    exact ⟨h.mode, h.stvec, trivial, h.aligned, h.room, h.top,
      (by decide : evenPc 0x80022000 = 0x80022000)⟩
  live s h b hb := by
    cases hb
    have htop := h.top
    have hp : smallStack.pstack = 0x80300000 := rfl
    refine ⟨by decide, ?_⟩
    omega

theorem addStart_running : smallStack.Running addStart :=
  ⟨rfl, rfl, trivial, by decide, by decide, by decide, by decide⟩

theorem interrupted_run_small : ∃ t, smallStack.Interleaved {0x80600000} addByte addStart 1 t ∧
    t.regs .a0 = 3 ∧ t.pc = 0x80022000 := by
  have hF : ∀ b ∈ ({0x80600000} : Set Nat), b < smallStack.pstack ∨ smallStack.pstack + 4096 ≤ b := by
    rintro b rfl
    exact .inr (by decide)
  obtain ⟨u, -, hstatus, hreturns⟩ :=
    kernelvec_transparent addStart_running tickCalls_calls hF 0x8000000000000005 0
  obtain ⟨t, ht, hund⟩ := hreturns _ (kernelTrap_checks hstatus)
  have hinter := TrapStack.Interleaved.code
    (.intr .start tickCalls_calls ht : smallStack.Interleaved {0x80600000} addByte addStart 0 t)
    (show addByte t = some _ from rfl)
  have halike := (interrupted_run addByte_code hF addStart_running hinter rfl).1
  refine ⟨_, hinter, ?_, rfl⟩
  rw [halike.regs .a0 (by decide)]
  decide

end PageFaultOS
