import Mathlib.Tactic
import PageFaultOS.Lib.Run
import PageFaultOS.Proc.Pipe

/-! What `piperead` and `pipewrite` return, against the bytes that they move. Each process
keeps a tally of its last call, read off the pipe before and after each of its steps. -/

namespace PageFaultOS

inductive PipeCall where
  | piperead | pipewrite
  deriving DecidableEq, Repr

/-- Of the last call of a process: the bytes it has taken out of the pipe, handed to its caller
and put into the pipe, whether each `copyout` so far succeeded, and whether the call went on
without being given up while it waited. -/
structure Tally where
  call : Option PipeCall
  removed : Nat
  delivered : Nat
  added : Nat
  copied : Bool
  served : Bool

def Tally.begin (call : PipeCall) : Tally := ⟨some call, 0, 0, 0, true, true⟩

structure PipeMeter where
  world : PipeWorld
  tally : Nat → Tally

namespace PipeWorld

/-- The next step of process `p` is no `copyout` that fails. -/
def copies (w : PipeWorld) (p : Nat) : Bool :=
  match w.pc p with
  | .readTake addr _ i => (w.user p (u64 (addr + i))).isSome
  | _ => true

/-- The next step of process `p` does not give the call up: a reader that waits for a byte has
not been killed, nor has a writer that waits for room, and that pipe has a reader. -/
def serves (w : PipeWorld) (p : Nat) : Bool :=
  match w.pc p with
  | .readWait .. => ¬ (w.pipe.nread = w.pipe.nwrite ∧ w.pipe.writeable ∧ w.killed p)
  | .writeWait .. =>
    ¬ (w.pipe.nwrite = w.pipe.nread + 512 ∧ (w.pipe.readable = false ∨ w.killed p))
  | _ => true

end PipeWorld

/-- The tally after a step of process `p` from `w` to `w'`. -/
def Tally.count (t : Tally) (p : Nat) (w w' : PipeWorld) : Tally :=
  { t with
    removed := t.removed + (w'.pipe.nread - w.pipe.nread).toNat
    delivered := t.delivered + (w'.taken.length - w.taken.length)
    added := t.added + (w'.pipe.nwrite - w.pipe.nwrite).toNat
    copied := t.copied && w.copies p
    served := t.served && w.serves p }

def meterStep (m : PipeMeter) (a : PipeAction) : Option PipeMeter :=
  (pipeStep m.world a).map fun w' => ⟨w', match a with
    | .piperead p _ _ => Function.update m.tally p (.begin .piperead)
    | .pipewrite p _ _ => Function.update m.tally p (.begin .pipewrite)
    | .run p => Function.update m.tally p ((m.tally p).count p m.world w')
    | _ => m.tally⟩

/-- Any pipe, with nobody in it and nobody out of it yet. -/
structure MeterStart (m : PipeMeter) : Prop where
  idle : ∀ p, ∃ r, m.world.pc p = .idle r
  fresh : ∀ p, (m.tally p).call = none

/-! ## The invariant -/

/-- What holds of a call that is over and returned `r`. -/
structure Tally.Settled (t : Tally) (r : Int) : Prop where
  piperead : t.call = some .piperead →
    ((r = t.removed ∧ r = t.delivered) ↔ t.copied = true ∧ t.served = true)
  pipewrite : t.call = some .pipewrite → (r = t.added ↔ t.served = true)

/-- A `piperead` that has moved `i` bytes, each from the pipe to its caller. -/
structure Tally.Reading (t : Tally) (i : Nat) : Prop where
  call : t.call = some .piperead
  removed : t.removed = i
  delivered : t.delivered = i
  copied : t.copied = true
  served : t.served = true

/-- A `pipewrite` that has put `i` bytes into the pipe. -/
structure Tally.Writing (t : Tally) (i : Nat) : Prop where
  call : t.call = some .pipewrite
  added : t.added = i
  served : t.served = true

/-- The tally of a process at `pc`. -/
def PipePc.Tallied (t : Tally) : PipePc → Prop
  | .idle r | .leave r => t.Settled r
  | .readAcquire .. | .readWait .. | .readSleep .. => t.Reading 0
  | .readLoop _ _ i | .readTake _ _ i => t.Reading i
  | .writeAcquire .. => t.Writing 0
  | .writeLoop _ _ i | .writeWait _ _ i | .writeSleep _ _ i | .writeStore _ _ i => t.Writing i

theorem Tally.Reading.settled {t : Tally} {i : Nat} (h : t.Reading i) : t.Settled i := by
  refine ⟨fun _ => ?_, fun hcall => ?_⟩
  · rw [h.removed, h.delivered]
    exact ⟨fun _ => ⟨h.copied, h.served⟩, fun _ => ⟨rfl, rfl⟩⟩
  · rw [h.call] at hcall
    cases hcall

theorem Tally.Writing.settled {t : Tally} {i : Nat} (h : t.Writing i) : t.Settled i := by
  refine ⟨fun hcall => ?_, fun _ => ?_⟩
  · rw [h.call] at hcall
    cases hcall
  · rw [h.added]
    exact ⟨fun _ => h.served, fun _ => rfl⟩

/-- A reader that is given up returns `-1`. -/
theorem Tally.Reading.refused {t : Tally} {i : Nat} (h : t.Reading i) :
    ({ t with served := false } : Tally).Settled (-1) := by
  refine ⟨fun _ => ⟨fun hr => ?_, fun hr => ?_⟩, fun hcall => ?_⟩
  · have hremoved : (-1 : Int) = t.removed := hr.1
    omega
  · exact absurd hr.2 (by simp)
  · rw [h.call] at hcall
    cases hcall

/-- A writer that is given up returns `-1`, whatever it has put into the pipe before. -/
theorem Tally.Writing.refused {t : Tally} {i : Nat} (h : t.Writing i) :
    ({ t with served := false } : Tally).Settled (-1) := by
  refine ⟨fun hcall => ?_, fun _ => ⟨fun hr => ?_, fun hr => ?_⟩⟩
  · rw [h.call] at hcall
    cases hcall
  · have hadded : (-1 : Int) = t.added := hr
    omega
  · exact absurd hr (by simp)

/-- The byte of a `copyout` that fails is out of the pipe already. -/
theorem Tally.Reading.lost {t : Tally} {i : Nat} (h : t.Reading i) :
    ({ t with removed := t.removed + 1, copied := false } : Tally).Settled i := by
  refine ⟨fun _ => ⟨fun hr => ?_, fun hr => ?_⟩, fun hcall => ?_⟩
  · have hremoved : (i : Int) = (t.removed + 1 : Nat) := hr.1
    have hi := h.removed
    omega
  · exact absurd hr.1 (by simp)
  · rw [h.call] at hcall
    cases hcall

/-- A step of `p` that moves no byte. -/
theorem Tally.count_still {t : Tally} {p : Nat} {w w' : PipeWorld} (hpipe : w'.pipe = w.pipe)
    (htaken : w'.taken = w.taken) : t.count p w w' =
      { t with copied := t.copied && w.copies p, served := t.served && w.serves p } := by
  simp [Tally.count, hpipe, htaken]

private theorem word_succ (x : UInt32) : (x + 1 - x).toNat = 1 := by
  have h : x + 1 - x = 1 := by grind
  rw [h]
  rfl

section Steps
variable {w w' : PipeWorld} {t : Tally} {p : Nat}

/-- The steps of `p` leave the others where they are. -/
theorem run_others (hrun : w.run p = some w') {q : Nat} (hq : q ≠ p) : w'.pc q = w.pc q := by
  have hgoto : ∀ (u : PipeWorld) pc, (u.goto p pc).pc q = u.pc q := fun u pc =>
    Function.update_of_ne hq ..
  have hacquire : ∀ pc, w.acquire p pc = some w' → w'.pc q = w.pc q := by
    intro pc h
    unfold PipeWorld.acquire at h
    split at h
    · cases h
      exact hgoto _ pc
    · cases h
  unfold PipeWorld.run at hrun
  cases hpc : w.pc p with
  | idle r => simp [hpc] at hrun
  | readAcquire addr n | readSleep addr n =>
    simp only [hpc] at hrun
    exact hacquire _ hrun
  | writeAcquire addr n | writeSleep addr n i =>
    simp only [hpc] at hrun
    exact hacquire _ hrun
  | readWait addr n =>
    simp only [hpc] at hrun
    split at hrun
    · split at hrun <;> cases hrun <;> exact hgoto _ _
    · cases hrun
      exact hgoto _ _
  | writeWait addr n i =>
    simp only [hpc] at hrun
    split at hrun
    · split at hrun <;> cases hrun <;> exact hgoto _ _
    · cases hrun
      exact hgoto _ _
  | readLoop addr n i | writeLoop addr n i =>
    simp only [hpc] at hrun
    split at hrun <;> cases hrun <;> exact hgoto _ _
  | readTake addr n i =>
    simp only [hpc] at hrun
    cases hcopy : w.take.2.copyout p (u64 (addr + i)) w.take.1 with
    | none =>
      rw [hcopy] at hrun
      cases hrun
      exact hgoto _ _
    | some u =>
      rw [hcopy] at hrun
      unfold PipeWorld.copyout at hcopy
      split at hcopy
      · cases hcopy
        cases hrun
        exact hgoto _ _
      · cases hcopy
  | writeStore addr n i =>
    simp only [hpc] at hrun
    cases hin : w.user p (u64 (addr + i)) with
    | none =>
      rw [hin] at hrun
      cases hrun
      exact hgoto _ _
    | some ch =>
      rw [hin] at hrun
      cases hrun
      exact hgoto _ _
  | leave r =>
    simp only [hpc] at hrun
    cases hrun
    exact hgoto _ _

/-- Going on to `pc` with the pipe as it is. -/
theorem tallied_goto {u : PipeWorld} {pc : PipePc} (hpipe : u.pipe = w.pipe)
    (htaken : u.taken = w.taken) (h : pc.Tallied
      { t with copied := t.copied && w.copies p, served := t.served && w.serves p }) :
    ((u.goto p pc).pc p).Tallied (t.count p w (u.goto p pc)) := by
  have hpipe' : (u.goto p pc).pipe = w.pipe := hpipe
  have htaken' : (u.goto p pc).taken = w.taken := htaken
  rw [Tally.count_still hpipe' htaken']
  simp only [PipeWorld.goto, Function.update_self]
  exact h

/-- Going on where nothing can fail. -/
theorem tallied_still {u : PipeWorld} {pc : PipePc} (hpipe : u.pipe = w.pipe)
    (htaken : u.taken = w.taken) (hcopies : w.copies p = true) (hserves : w.serves p = true)
    (h : pc.Tallied t) : ((u.goto p pc).pc p).Tallied (t.count p w (u.goto p pc)) := by
  refine tallied_goto hpipe htaken ?_
  rw [hcopies, hserves, Bool.and_true, Bool.and_true]
  exact h

/-- Taking the lock. -/
theorem tallied_acquire {pc : PipePc} (hrun : w.acquire p pc = some w')
    (hcopies : w.copies p = true) (hserves : w.serves p = true) (h : pc.Tallied t) :
    (w'.pc p).Tallied (t.count p w w') := by
  unfold PipeWorld.acquire at hrun
  split at hrun
  · cases hrun
    exact tallied_still rfl rfl hcopies hserves h
  · cases hrun

/-- A byte comes out of the pipe: it reaches the caller, or it is lost. -/
theorem tallied_take {addr i : Nat} {n : Int} (hpc : w.pc p = .readTake addr n i)
    (hrun : w.run p = some w') (h : t.Reading i) : (w'.pc p).Tallied (t.count p w w') := by
  have hserves : w.serves p = true := by simp [PipeWorld.serves, hpc]
  have hcopies : w.copies p = (w.user p (u64 (addr + i))).isSome := by
    simp [PipeWorld.copies, hpc]
  simp only [PipeWorld.run, hpc] at hrun
  cases hcopy : w.take.2.copyout p (u64 (addr + i)) w.take.1 with
  | none =>
    rw [hcopy] at hrun
    cases hrun
    have hnone : (w.user p (u64 (addr + i))).isSome = false := by
      by_contra hsome
      have huser : w.take.2.user = w.user := rfl
      simp [PipeWorld.copyout, huser, hsome] at hcopy
    have hcount : t.count p w (w.take.2.goto p (.leave i)) =
        { t with removed := t.removed + 1, copied := false } := by
      simp [Tally.count, PipeWorld.take, PipeWorld.goto, hserves, hcopies, hnone, word_succ]
    rw [hcount]
    simp only [PipeWorld.goto, Function.update_self]
    exact h.lost
  | some u =>
    rw [hcopy] at hrun
    unfold PipeWorld.copyout at hcopy
    split at hcopy
    case isFalse => cases hcopy
    case isTrue hsome =>
      cases hcopy
      cases hrun
      simp only [PipeWorld.goto, Function.update_self]
      have huser : (w.user p (u64 (addr + i))).isSome = true := hsome
      refine ⟨h.call, ?_, ?_, ?_, ?_⟩
      · simp [Tally.count, PipeWorld.take, word_succ, h.removed]
      · simp [Tally.count, PipeWorld.take, h.delivered]
      · simp [Tally.count, hcopies, huser, h.copied]
      · simp [Tally.count, hserves, h.served]

/-- A byte goes into the pipe, or it cannot be read from the caller. -/
theorem tallied_store {addr i : Nat} {n : Int} (hpc : w.pc p = .writeStore addr n i)
    (hrun : w.run p = some w') (h : t.Writing i) : (w'.pc p).Tallied (t.count p w w') := by
  have hserves : w.serves p = true := by simp [PipeWorld.serves, hpc]
  have hcopies : w.copies p = true := by simp [PipeWorld.copies, hpc]
  simp only [PipeWorld.run, hpc] at hrun
  cases hin : w.user p (u64 (addr + i)) with
  | none =>
    rw [hin] at hrun
    cases hrun
    exact tallied_still rfl rfl hcopies hserves h.settled
  | some ch =>
    rw [hin] at hrun
    cases hrun
    simp only [PipeWorld.goto, Function.update_self]
    refine ⟨h.call, ?_, ?_⟩
    · simp [Tally.count, PipeWorld.put, word_succ, h.added]
    · simp [Tally.count, hserves, h.served]

theorem tallied_run (hrun : w.run p = some w') (h : (w.pc p).Tallied t) :
    (w'.pc p).Tallied (t.count p w w') := by
  cases hpc : w.pc p with
  | readTake addr n i =>
    rw [hpc] at h
    exact tallied_take hpc hrun h
  | writeStore addr n i =>
    rw [hpc] at h
    exact tallied_store hpc hrun h
  | idle r => simp [PipeWorld.run, hpc] at hrun
  | readAcquire addr n | readSleep addr n =>
    rw [hpc] at h
    simp only [PipeWorld.run, hpc] at hrun
    exact tallied_acquire hrun (by simp [PipeWorld.copies, hpc]) (by simp [PipeWorld.serves, hpc]) h
  | writeAcquire addr n | writeSleep addr n i =>
    rw [hpc] at h
    simp only [PipeWorld.run, hpc] at hrun
    exact tallied_acquire hrun (by simp [PipeWorld.copies, hpc]) (by simp [PipeWorld.serves, hpc]) h
  | readWait addr n =>
    rw [hpc] at h
    have hcopies : w.copies p = true := by simp [PipeWorld.copies, hpc]
    simp only [PipeWorld.run, hpc] at hrun
    split at hrun
    case isTrue hempty =>
      split at hrun
      case isTrue hkilled =>
        cases hrun
        have hserves : w.serves p = false := by
          simp [PipeWorld.serves, hpc, hempty.1, hempty.2, hkilled]
        refine tallied_goto rfl rfl ?_
        rw [hcopies, hserves, Bool.and_true, Bool.and_false]
        exact Tally.Reading.refused h
      case isFalse hkilled =>
        cases hrun
        exact tallied_still rfl rfl hcopies (by simp [PipeWorld.serves, hpc, hkilled]) h
    case isFalse hbyte =>
      cases hrun
      have hserves : w.serves p = true := by
        simp only [PipeWorld.serves, hpc, decide_eq_true_eq]
        exact fun hwait => hbyte ⟨hwait.1, hwait.2.1⟩
      exact tallied_still rfl rfl hcopies hserves h
  | writeWait addr n i =>
    rw [hpc] at h
    have hcopies : w.copies p = true := by simp [PipeWorld.copies, hpc]
    simp only [PipeWorld.run, hpc] at hrun
    split at hrun
    case isTrue hfull =>
      split at hrun
      case isTrue hgone =>
        cases hrun
        have hserves : w.serves p = false := by
          simp only [PipeWorld.serves, hpc, decide_eq_false_iff_not, not_not]
          exact ⟨hfull, hgone⟩
        refine tallied_goto rfl rfl ?_
        rw [hcopies, hserves, Bool.and_true, Bool.and_false]
        exact Tally.Writing.refused h
      case isFalse hgone =>
        cases hrun
        have hserves : w.serves p = true := by
          simp only [PipeWorld.serves, hpc, decide_eq_true_eq]
          exact fun hwait => hgone hwait.2
        exact tallied_still rfl rfl hcopies hserves h
    case isFalse hroom =>
      cases hrun
      have hserves : w.serves p = true := by
        simp only [PipeWorld.serves, hpc, decide_eq_true_eq]
        exact fun hwait => hroom hwait.1
      exact tallied_still rfl rfl hcopies hserves h
  | readLoop addr n i =>
    rw [hpc] at h
    have hcopies : w.copies p = true := by simp [PipeWorld.copies, hpc]
    have hserves : w.serves p = true := by simp [PipeWorld.serves, hpc]
    simp only [PipeWorld.run, hpc] at hrun
    split at hrun <;> cases hrun
    · exact tallied_still rfl rfl hcopies hserves h
    · exact tallied_still rfl rfl hcopies hserves (Tally.Reading.settled h)
  | writeLoop addr n i =>
    rw [hpc] at h
    have hcopies : w.copies p = true := by simp [PipeWorld.copies, hpc]
    have hserves : w.serves p = true := by simp [PipeWorld.serves, hpc]
    simp only [PipeWorld.run, hpc] at hrun
    split at hrun <;> cases hrun
    · exact tallied_still rfl rfl hcopies hserves h
    · exact tallied_still rfl rfl hcopies hserves (Tally.Writing.settled h)
  | leave r =>
    rw [hpc] at h
    simp only [PipeWorld.run, hpc] at hrun
    cases hrun
    exact tallied_still (u := { w with holder := none }) rfl rfl (by simp [PipeWorld.copies, hpc])
      (by simp [PipeWorld.serves, hpc]) h

end Steps

/-! ## The runs -/

def PipeMeter.Tallied (m : PipeMeter) : Prop := ∀ p, (m.world.pc p).Tallied (m.tally p)

theorem meterTallied_start {m : PipeMeter} (h : MeterStart m) : m.Tallied := by
  intro p
  obtain ⟨r, hr⟩ := h.idle p
  rw [hr]
  have hnone := h.fresh p
  exact ⟨fun hcall => by simp [hnone] at hcall, fun hcall => by simp [hnone] at hcall⟩

/-- A process enters a call. -/
theorem PipeMeter.Tallied.enter {m : PipeMeter} (h : m.Tallied) {p : Nat} {pc : PipePc}
    {call : PipeCall} (hpc : pc.Tallied (.begin call)) :
    (PipeMeter.mk (m.world.goto p pc) (Function.update m.tally p (.begin call))).Tallied := by
  intro q
  by_cases hq : q = p
  · subst hq
    simp only [PipeWorld.goto, Function.update_self]
    exact hpc
  · simp only [PipeWorld.goto, Function.update_of_ne hq]
    exact h q

theorem meterTallied_step {m m' : PipeMeter} {a : PipeAction} (h : m.Tallied)
    (hstep : meterStep m a = some m') : m'.Tallied := by
  obtain ⟨w', hw, rfl⟩ := Option.map_eq_some_iff.mp hstep
  unfold pipeStep at hw
  split at hw
  case isTrue => cases hw
  case isFalse =>
    cases a with
    | piperead p addr n =>
      cases hpc : m.world.pc p with
      | idle r =>
        simp only [hpc] at hw
        cases hw
        exact h.enter ⟨rfl, rfl, rfl, rfl, rfl⟩
      | _ => simp [hpc] at hw
    | pipewrite p addr n =>
      cases hpc : m.world.pc p with
      | idle r =>
        simp only [hpc] at hw
        cases hw
        exact h.enter ⟨rfl, rfl, rfl⟩
      | _ => simp [hpc] at hw
    | run p =>
      intro q
      by_cases hq : q = p
      · subst hq
        simp only [Function.update_self]
        exact tallied_run hw (h q)
      · simp only [Function.update_of_ne hq]
        rw [run_others hw hq]
        exact h q
    | pipeclose e =>
      simp only at hw
      split at hw <;> cases hw
      cases e <;> exact h
    | kill p =>
      cases hw
      exact h
    | user u =>
      cases hw
      exact h

/-- `piperead` returns the number of bytes that it has taken out and delivered just when none of
its `copyout`s failed and it was not given up; `pipewrite` returns the number of bytes that it
has put in just when it was not given up. -/
theorem pipe_counts_iff {m : PipeMeter}
    (h : Run.Reach MeterStart (fun m a m' => meterStep m a = some m') Run.anyStep m)
    {p : Nat} {r : Int} (hidle : m.world.pc p = .idle r) :
    ((m.tally p).call = some .piperead →
      ((r = (m.tally p).removed ∧ r = (m.tally p).delivered) ↔
        (m.tally p).copied = true ∧ (m.tally p).served = true)) ∧
    ((m.tally p).call = some .pipewrite →
      (r = (m.tally p).added ↔ (m.tally p).served = true)) := by
  have hall : m.Tallied := h.invariant (fun _ => meterTallied_start)
    fun _ _ _ hI _ hstep => meterTallied_step hI hstep
  have hp := hall p
  rw [hidle] at hp
  exact ⟨hp.piperead, hp.pipewrite⟩

/-- A pipe with one byte in it; `user` is the memory of all processes. -/
def oneByteMeter (user : Option UInt8) : PipeMeter where
  world := ⟨⟨true, true, 1, 0, fun _ => 7⟩, none, fun _ => .idle 0, fun _ => false,
    fun _ _ => user, [], []⟩
  tally := fun _ => ⟨none, 0, 0, 0, true, true⟩

/-- Process 1 reads one byte. -/
def readOne : List PipeAction := .piperead 1 0 1 :: List.replicate 5 (.run 1)

private theorem oneByteMeter_start (user : Option UInt8) : MeterStart (oneByteMeter user) :=
  ⟨fun _ => ⟨0, rfl⟩, fun _ => rfl⟩

/-- The caller has no memory at the address: the byte is gone, and `piperead` returns `0`. -/
theorem piperead_loses_byte : ∃ m,
    Run.Reach MeterStart (fun m a m' => meterStep m a = some m') Run.anyStep m ∧
    m.world.pc 1 = .idle 0 ∧ (m.tally 1).call = some .piperead ∧
    (m.tally 1).removed = 1 ∧ (m.tally 1).delivered = 0 ∧ m.world.pipe.contents = [] := by
  have hstart : Run.Reach MeterStart (fun m a m' => meterStep m a = some m') Run.anyStep
      (oneByteMeter none) := .start (oneByteMeter_start none)
  have h := hstart.runSome readOne rfl
  exact ⟨_, h, rfl, rfl, rfl, rfl, rfl⟩

/-- With memory there the byte is delivered and counted. -/
theorem pipe_counts_one_byte : ∃ m : PipeMeter, m.world.taken = [7] ∧
    m.world.pc 1 = .idle 1 ∧ (((1 : Int) = (m.tally 1).removed ∧ (1 : Int) = (m.tally 1).delivered) ↔
      (m.tally 1).copied = true ∧ (m.tally 1).served = true) := by
  have hstart : Run.Reach MeterStart (fun m a m' => meterStep m a = some m') Run.anyStep
      (oneByteMeter (some 0)) := .start (oneByteMeter_start (some 0))
  have h := hstart.runSome (readOne ++ [.run 1]) rfl
  exact ⟨_, rfl, rfl, (pipe_counts_iff h rfl).1 rfl⟩

end PageFaultOS
