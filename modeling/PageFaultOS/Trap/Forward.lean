import Mathlib.Tactic
import PageFaultOS.Lib.Run
import PageFaultOS.Trap.Firmware

/-! The interrupts of a hart of the K210: the devices' lines, the firmware that passes them on, and
`DevIntr`, `KernelTrap` and `UserTrap` of `trap/trap.cpp` with `trap/plic.cpp` and `timer_tick` of
`sync/timer.cpp`, in the build for that chip. -/

namespace PageFaultOS
open Rv64

def uartIrq : Nat := 33
def diskIrq : Nat := 27

/-- `INTERVAL` of `libs/param.h`. -/
def timerInterval : Word := 1950000

def causeSoft : Word := 0x8000000000000001
def causeTimer : Word := 0x8000000000000005

/-- The requests that wait and the ones that were claimed and are not complete. The sources all have
one priority, so that the least number is claimed first. -/
structure Plic where
  pending : Nat → Bool
  serving : Nat → Bool

/-- The number of sources of the controller. -/
def plicSources : Nat := 65

namespace Plic

/-- Zero where nothing waits. -/
def claim (p : Plic) : Nat × Plic :=
  match (List.range' 1 plicSources).find? p.pending with
  | none => (0, p)
  | some irq => (irq, ⟨Function.update p.pending irq false, Function.update p.serving irq true⟩)

def complete (p : Plic) (irq : Nat) : Plic := { p with serving := Function.update p.serving irq false }

end Plic

/-- What the hart executes: code of a process or of the kernel, the start of a trap up to `DevIntr`
with where it came from, or the loop of `panic`. -/
inductive Place where
  | code
  | trap (cause : Word) (fromUser : Bool)
  | panicked
  deriving DecidableEq, Repr

/-- A hart with its devices. `sie`, `spie` and `spp` are bits of `sstatus`, `ssie` and `stie` of the
register `sie`. -/
structure ForwardHart where
  fw : Firmware.Hart
  user : Bool
  sie : Bool
  spie : Bool
  spp : Bool
  ssie : Bool
  stie : Bool
  place : Place
  plic : Plic
  ticks : BitVec 32
  /-- What `consoleintr` got, how often `disk_intr` ran, and the numbers that nobody expects. -/
  typed : List UInt8
  diskIntrs : Nat
  unexpected : List Nat

namespace ForwardHart
variable (env : Firmware.Env)

def zeroFrame : Firmware.TrapFrame := Firmware.save fun _ => 0

/-- `SBI_CALL`. -/
def sbiCall (a7 a6 a0 : Word) (s : ForwardHart) : Word × ForwardHart :=
  let (f, fw) := Firmware.supervisorEnvCall env { zeroFrame with a7 := a7, a6 := a6, a0 := a0 } s.fw
  (f.a0, { s with fw := fw })

/-- The timer's part of `timer_tick`; the firmware emulates the `rdtime` of `r_time`. -/
def timerTick (s : ForwardHart) : ForwardHart :=
  let s := { s with ticks := s.ticks + 1 }
  (sbiCall env 0 0 (s.fw.mtime + timerInterval) s).2

/-- What `DevIntr` does for an interrupt that it has claimed. -/
def serve (irq : Nat) (s : ForwardHart) : ForwardHart :=
  if irq = uartIrq then
    let (c, s) := sbiCall env 2 0 0 s
    if c.setWidth 32 ≠ (-1 : BitVec 32) then
      { s with typed := s.typed ++ [UInt8.ofBitVec (c.setWidth 8)] }
    else
      s
  else if irq = diskIrq then
    { s with diskIntrs := s.diskIntrs + 1 }
  else if irq ≠ 0 then
    { s with unexpected := s.unexpected ++ [irq] }
  else
    s

/-- `DevIntr` where `QEMU` is not defined: nothing is written to `sip`. -/
def devIntr (scause : Word) (s : ForwardHart) : Nat × ForwardHart :=
  if scause = causeSoft ∧ s.fw.stval = 9 then
    let (irq, plic) := s.plic.claim
    let s := serve env irq { s with plic := plic }
    let s := if irq ≠ 0 then { s with plic := s.plic.complete irq } else s
    (1, s)
  else if scause = causeTimer then
    (2, timerTick env s)
  else
    (0, s)

/-- Which interrupt the machine takes next. -/
def machineCause (s : Firmware.Hart) : Option Firmware.Cause :=
  if s.mip.mext ∧ s.mie.mext then some .machineExternal
  else if s.mip.msoft ∧ s.mie.msoft then some .machineSoft
  else if s.mip.mtimer ∧ s.mie.mtimer then some .machineTimer
  else none

/-- Which one the supervisor takes where the machine takes none. -/
def supervisorCause (s : ForwardHart) : Option Word :=
  if s.fw.mip.ssoft ∧ s.ssie then some causeSoft
  else if s.fw.mip.stimer ∧ s.stie then some causeTimer
  else none

/-- No interrupt comes before the next instruction. -/
def Quiet (s : ForwardHart) : Prop :=
  machineCause s.fw = none ∧ (s.user ∨ s.sie → s.supervisorCause = none)

instance (s : ForwardHart) : Decidable s.Quiet := inferInstanceAs (Decidable (_ ∧ _))

/-- The next instruction is one of a process, or of the kernel. -/
def RunsUser (s : ForwardHart) : Prop := s.place = .code ∧ s.user = true ∧ s.Quiet

def RunsKernel (s : ForwardHart) : Prop := s.place = .code ∧ s.user = false ∧ s.Quiet

instance (s : ForwardHart) : Decidable s.RunsUser := inferInstanceAs (Decidable (_ ∧ _))
instance (s : ForwardHart) : Decidable s.RunsKernel := inferInstanceAs (Decidable (_ ∧ _))

inductive Act where
  /-- The devices change their lines, the requests at the PLIC, the characters that wait, the time. -/
  | devices (msoft mtimer mext : Bool) (pending : Nat → Bool) (serialIn : List UInt8) (mtime : Word)
  | machine
  | supervisor
  | user
  /-- A call or a fault of a process. -/
  | exception (stval : Word)
  | devIntr
  /-- The kernel writes `sstatus`. -/
  | kernel (sie spie spp : Bool)
  /-- The kernel makes an SBI call. -/
  | sbi (a7 a6 a0 : Word)
  | sret

/-- `SBI_CLEAR_IPI`, which the kernel does not call. -/
def sbiClearIpi : Word := 3

def trapAt (s : ForwardHart) (place : Place) : ForwardHart :=
  { s with user := false, sie := false, spie := s.sie, spp := !s.user, place := place }

/-- What `KernelTrap` and `UserTrap` do with the answer of `DevIntr`: one panics where there is no
interrupt, the other kills the process. -/
def afterDevIntr (fromUser : Bool) (r : Nat × ForwardHart) : ForwardHart :=
  { r.2 with place := if r.1 = 0 ∧ fromUser = false then .panicked else .code }

def step (s : ForwardHart) : Act → Option ForwardHart
  | .devices msoft mtimer mext pending serialIn mtime =>
    some { s with
      fw := { s.fw with
        mip := { s.fw.mip with msoft := msoft, mtimer := mtimer, mext := mext }
        serialIn := serialIn
        mtime := mtime }
      plic := { s.plic with pending := pending } }
  | .machine => do
    let cause ← machineCause s.fw
    let (_, fw) ← Firmware.startTrap env cause (fun _ => 0) s.fw
    some { s with fw := fw }
  | .supervisor =>
    -- up to `DevIntr` the bit `SIE` is clear
    if s.place = .code ∧ machineCause s.fw = none ∧ (s.user ∨ s.sie) then
      s.supervisorCause.map fun cause => s.trapAt (.trap cause s.user)
    else
      none
  | .user => if s.RunsUser then some s else none
  | .exception stval =>
    if s.RunsUser then some ({ s with fw := { s.fw with stval := stval } }.trapAt .code) else none
  | .devIntr =>
    match s.place with
    | .trap cause fromUser => some (afterDevIntr fromUser (devIntr env cause s))
    | _ => none
  | .kernel sie spie spp =>
    if s.RunsKernel then some { s with sie := sie, spie := spie, spp := spp } else none
  | .sbi a7 a6 a0 =>
    if s.RunsKernel ∧ a7 ≠ sbiClearIpi then some (sbiCall env a7 a6 a0 s).2 else none
  | .sret =>
    if s.RunsKernel then
      some { s with user := !s.spp, sie := s.spie, spie := true, spp := false }
    else
      none

/-- The acts that are code of a process or of the kernel outside its handler. -/
def Act.IsCode : Act → Prop
  | .user | .exception _ | .kernel _ _ _ | .sbi _ _ _ | .sret => True
  | _ => False

/-- Of the calls of the SBI, one clears the supervisor's software interrupt. -/
def EnvKeeps (env : Firmware.Env) : Prop :=
  ∀ a7 a6 params s, a7 ≠ sbiClearIpi → s.mip.ssoft = true → (env.ecall a7 a6 params s).1.mip.ssoft = true

/-- The tick that a timer interrupt on its way to `DevIntr` will count. -/
def owed (s : ForwardHart) : BitVec 32 :=
  match s.place with
  | .trap cause _ => if cause = causeTimer then 1 else 0
  | _ => 0

/-- The supervisor's software interrupt is pending and enabled. -/
def Stuck (s : ForwardHart) : Prop := s.fw.mip.ssoft = true ∧ s.ssie = true

/-! ### What the calls keep -/

section
variable {env} {s t : ForwardHart}

theorem supervisorEnvCall_ssoft (hkeeps : EnvKeeps env) {f : Firmware.TrapFrame} {h : Firmware.Hart}
    (ha7 : f.a7 ≠ sbiClearIpi) (hsoft : h.mip.ssoft = true) :
    (Firmware.supervisorEnvCall env f h).2.mip.ssoft = true := by
  unfold Firmware.supervisorEnvCall
  split
  · exact hsoft
  split
  · exact hsoft
  split
  · exact hsoft
  split
  · split <;> exact hsoft
  · dsimp only
    apply hkeeps _ _ _ _ ha7
    split <;> exact hsoft

theorem sbiCall_stuck (hkeeps : EnvKeeps env) {a7 a6 a0 : Word} (ha7 : a7 ≠ sbiClearIpi)
    (hs : s.Stuck) : (sbiCall env a7 a6 a0 s).2.Stuck :=
  ⟨supervisorEnvCall_ssoft hkeeps ha7 hs.1, hs.2⟩

@[simp] theorem sbiCall_place (a7 a6 a0 : Word) :
    (sbiCall env a7 a6 a0 s).2.place = s.place := rfl

@[simp] theorem sbiCall_ticks (a7 a6 a0 : Word) :
    (sbiCall env a7 a6 a0 s).2.ticks = s.ticks := rfl

/-- What serving an interrupt leaves alone. -/
theorem serve_stuck (hkeeps : EnvKeeps env) (irq : Nat) (hs : s.Stuck) :
    (serve env irq s).Stuck ∧ (serve env irq s).ticks = s.ticks := by
  unfold serve
  split
  · have hcall : (sbiCall env 2 0 0 s).2.Stuck := sbiCall_stuck hkeeps (by decide) hs
    dsimp only
    split <;> exact ⟨hcall, rfl⟩
  split
  · exact ⟨hs, rfl⟩
  split <;> exact ⟨hs, rfl⟩

theorem timerTick_stuck (hkeeps : EnvKeeps env) (hs : s.Stuck) : (timerTick env s).Stuck :=
  sbiCall_stuck (s := { s with ticks := s.ticks + 1 }) hkeeps (by decide : (0 : Word) ≠ sbiClearIpi) hs

/-- `DevIntr` does not clear the interrupt that it has served, and only a timer interrupt is a
tick. -/
theorem devIntr_stuck (hkeeps : EnvKeeps env) (cause : Word) (hs : s.Stuck) :
    (devIntr env cause s).2.Stuck ∧
      (devIntr env cause s).2.ticks = s.ticks + if cause = causeTimer then 1 else 0 := by
  unfold devIntr
  split
  · rename_i hsoft
    have hne : cause ≠ causeTimer := by
      rw [hsoft.1]
      decide
    obtain ⟨irq, plic⟩ := s.plic.claim
    have hserve := serve_stuck hkeeps irq (s := { s with plic := plic }) hs
    rw [if_neg hne]
    dsimp only
    split
    · exact ⟨hserve.1, hserve.2.trans (BitVec.add_zero _).symm⟩
    · exact ⟨hserve.1, hserve.2.trans (BitVec.add_zero _).symm⟩
  split
  · exact ⟨timerTick_stuck hkeeps hs, rfl⟩
  · exact ⟨hs, (BitVec.add_zero _).symm⟩

theorem supervisorCause_stuck (hs : s.Stuck) : s.supervisorCause = some causeSoft :=
  if_pos hs

/-- Code runs with interrupts off only. -/
theorem runsUser_stuck (hs : s.Stuck) : ¬ s.RunsUser := by
  rintro ⟨-, huser, -, hquiet⟩
  rw [supervisorCause_stuck hs] at hquiet
  cases hquiet (.inl huser)

theorem runsKernel_stuck (hs : s.Stuck) (hruns : s.RunsKernel) : s.user = false ∧ s.sie = false := by
  obtain ⟨-, huser, -, hquiet⟩ := hruns
  rw [supervisorCause_stuck hs] at hquiet
  refine ⟨huser, ?_⟩
  cases hsie : s.sie with
  | false => rfl
  | true => cases hquiet (.inr hsie)

/-- The firmware's own interrupts set the bit or leave it. -/
theorem startTrap_stuck {cause : Firmware.Cause} {fw : Firmware.Hart} {regs regs' : Reg → Word}
    (hcause : cause = .machineExternal ∨ cause = .machineSoft ∨ cause = .machineTimer)
    (htrap : Firmware.startTrap env cause regs s.fw = some (regs', fw)) :
    fw.mip.ssoft = (s.fw.mip.ssoft || decide (cause ≠ .machineTimer)) := by
  rcases hcause with rfl | rfl | rfl
  · cases htrap
    exact (Bool.or_true _).symm
  · cases htrap
    exact (Bool.or_true _).symm
  · cases htrap
    exact (Bool.or_false _).symm

theorem machineCause_cases {h : Firmware.Hart} {cause : Firmware.Cause}
    (hcause : machineCause h = some cause) :
    cause = .machineExternal ∨ cause = .machineSoft ∨ cause = .machineTimer := by
  unfold machineCause at hcause
  split at hcause
  · cases hcause
    exact .inl rfl
  split at hcause
  · cases hcause
    exact .inr (.inl rfl)
  split at hcause
  · cases hcause
    exact .inr (.inr rfl)
  · cases hcause

theorem owed_code (h : s.place = .code) : s.owed = 0 := by
  rw [owed, h]

theorem afterDevIntr_owed (fromUser : Bool) (r : Nat × ForwardHart) :
    (afterDevIntr fromUser r).owed = 0 := by
  unfold afterDevIntr owed
  dsimp only
  split
  · rename_i h
    split at h <;> cases h
  · rfl

/-- One step: the bit stays set, only a trap that is under way counts a tick, and code that takes a
step has interrupts off. -/
theorem step_stuck (hkeeps : EnvKeeps env) {a : Act} (hs : s.Stuck) (hstep : step env s a = some t) :
    t.Stuck ∧ t.ticks + t.owed = s.ticks + s.owed ∧
      (a.IsCode → s.user = false ∧ s.sie = false) := by
  cases a with
  | devices msoft mtimer mext pending serialIn mtime =>
    cases hstep
    exact ⟨hs, rfl, False.elim⟩
  | machine =>
    obtain ⟨cause, hcause, hstep⟩ := Option.bind_eq_some_iff.mp hstep
    obtain ⟨⟨regs, fw⟩, htrap, hstep⟩ := Option.bind_eq_some_iff.mp hstep
    cases hstep
    have hsoft := startTrap_stuck (machineCause_cases hcause) htrap
    rw [hs.1, Bool.true_or] at hsoft
    exact ⟨⟨hsoft, hs.2⟩, rfl, False.elim⟩
  | supervisor =>
    rw [step] at hstep
    split at hstep
    · rename_i hready
      rw [supervisorCause_stuck hs] at hstep
      cases hstep
      have hne : causeSoft ≠ causeTimer := by decide
      refine ⟨hs, ?_, False.elim⟩
      rw [owed_code hready.1]
      show s.ticks + (if causeSoft = causeTimer then 1 else 0) = _
      rw [if_neg hne]
    · cases hstep
  | user =>
    rw [step, if_neg (runsUser_stuck hs)] at hstep
    cases hstep
  | exception stval =>
    rw [step, if_neg (runsUser_stuck hs)] at hstep
    cases hstep
  | devIntr =>
    rw [step] at hstep
    split at hstep
    · rename_i cause fromUser hplace
      cases hstep
      obtain ⟨hstuck, hticks⟩ := devIntr_stuck hkeeps cause hs
      refine ⟨hstuck, ?_, False.elim⟩
      rw [afterDevIntr_owed, owed, hplace]
      exact (BitVec.add_zero _).trans hticks
    · cases hstep
  | kernel sie spie spp =>
    rw [step] at hstep
    split at hstep
    · rename_i hruns
      cases hstep
      exact ⟨hs, rfl, fun _ => runsKernel_stuck hs hruns⟩
    · cases hstep
  | sbi a7 a6 a0 =>
    rw [step] at hstep
    split at hstep
    · rename_i hruns
      cases hstep
      exact ⟨sbiCall_stuck hkeeps hruns.2 hs, rfl, fun _ => runsKernel_stuck hs hruns.1⟩
    · cases hstep
  | sret =>
    rw [step] at hstep
    split at hstep
    · rename_i hruns
      cases hstep
      exact ⟨hs, rfl, fun _ => runsKernel_stuck hs hruns⟩
    · cases hstep

theorem run_stuck (hkeeps : EnvKeeps env) {l : List Act} (hs : s.Stuck)
    (hrun : Run.runSome (step env) l s = some t) :
    t.Stuck ∧ t.ticks + t.owed = s.ticks + s.owed := by
  induction l generalizing s with
  | nil =>
    cases hrun
    exact ⟨hs, rfl⟩
  | cons a l ih =>
    obtain ⟨u, hu, hrest⟩ := Option.bind_eq_some_iff.mp hrun
    obtain ⟨hstuck, hticks, -⟩ := step_stuck hkeeps hs hu
    obtain ⟨hstuck', hticks'⟩ := ih hstuck hrest
    exact ⟨hstuck', hticks'.trans hticks⟩

/-- The firmware has passed an interrupt on. -/
theorem machine_stuck (hssie : s.ssie = true)
    (hcause : machineCause s.fw = some .machineExternal ∨ machineCause s.fw = some .machineSoft)
    (hstep : step env s .machine = some t) : t.Stuck ∧ t.ticks + t.owed = s.ticks + s.owed := by
  obtain ⟨cause, hc, hstep⟩ := Option.bind_eq_some_iff.mp hstep
  obtain ⟨⟨regs, fw⟩, htrap, hstep⟩ := Option.bind_eq_some_iff.mp hstep
  cases hstep
  have hne : cause ≠ .machineTimer := by
    rcases hcause with h | h <;> cases hc.symm.trans h <;> decide
  have hsoft := startTrap_stuck (machineCause_cases hc) htrap
  rw [decide_eq_true hne, Bool.or_true] at hsoft
  exact ⟨⟨hsoft, hssie⟩, rfl⟩

/-- Once the firmware has passed an external interrupt, or one from the other hart, on to the
supervisor, no process runs on the hart any more, the kernel runs there with interrupts off only,
and no tick is counted but the one of a timer interrupt that is under way. -/
theorem forwarded_hangs (hkeeps : EnvKeeps env) (hssie : s.ssie = true)
    (hcause : machineCause s.fw = some .machineExternal ∨ machineCause s.fw = some .machineSoft)
    {l : List Act} (hrun : Run.runSome (step env) (.machine :: l) s = some t) :
    t.ticks + t.owed = s.ticks + s.owed ∧
      ∀ a u, step env t a = some u → a.IsCode → t.user = false ∧ t.sie = false := by
  obtain ⟨v, hv, hrest⟩ := Option.bind_eq_some_iff.mp hrun
  obtain ⟨hstuck, hticks⟩ := machine_stuck hssie hcause hv
  obtain ⟨hstuck', hticks'⟩ := run_stuck hkeeps hstuck hrest
  exact ⟨hticks'.trans hticks, fun a u hstep => (step_stuck hkeeps hstuck' hstep).2.2⟩

end

/-! ### A character arrives -/

/-- A crate that does nothing, on a hart without instructions to emulate. -/
def smallEnv : Firmware.Env where
  ecall _ _ _ h := (h, 0, 0)
  halfword _ _ := 0

/-- A process runs, the firmware has let external interrupts in, and a character has arrived. -/
def smallHart : ForwardHart where
  fw :=
    { mie := ⟨true, false, true⟩
      mip := ⟨false, false, false, false, true⟩
      mepc := 0
      stval := 0
      satp := 0
      mstatus := 0
      mtime := 0
      devintrentry := 0
      serialIn := [0x61]
      serialOut := [] }
  user := true
  sie := true
  spie := true
  spp := false
  ssie := true
  stie := true
  place := .code
  plic := ⟨fun irq => irq = uartIrq, fun _ => false⟩
  ticks := 7
  typed := []
  diskIntrs := 0
  unexpected := []

/-- The character is read, and the kernel goes back to the process, where the hart takes the same
interrupt again. -/
def smallActs : List Act :=
  [.supervisor, .devIntr, .kernel false true false, .sret, .supervisor, .devIntr]

theorem forwarded_hangs_small :
    ∃ t, Run.runSome (step smallEnv) (.machine :: smallActs) smallHart = some t ∧
      t.typed = [0x61] ∧ t.ticks = 7 ∧
      ∀ a u, step smallEnv t a = some u → a.IsCode → t.user = false ∧ t.sie = false := by
  have hkeeps : EnvKeeps smallEnv := fun _ _ _ _ _ hsoft => hsoft
  have hrun : ∃ t, Run.runSome (step smallEnv) (.machine :: smallActs) smallHart = some t ∧
      t.typed = [0x61] ∧ t.ticks = 7 := ⟨_, rfl, rfl, rfl⟩
  obtain ⟨t, hrun, htyped, hticks⟩ := hrun
  exact ⟨t, hrun, htyped, hticks, (forwarded_hangs hkeeps rfl (.inl rfl) hrun).2⟩

end ForwardHart

end PageFaultOS
