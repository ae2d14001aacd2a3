import Mathlib.Tactic
import PageFaultOS.Proc.Sched

/-! `sleep` on one hart against `wakeup` on another, one access to shared memory at a
time. A schedule says whose step comes next. The steps of the two programs are the
pieces of `acquire`, `release`, `sleep` and `wakeup` of the other modules; a loop that
spins stays where it is, and a panic stops its hart. -/

namespace PageFaultOS
open Exec Exec.Comp

/-- Process `sleeper` calls `sleep(chan, lock)` on hart `hs`; on hart `hw` another one
calls `wakeup(chan)` with `lock` held, any number of times. -/
structure Meeting where
  hs : Nat
  hw : Nat
  sleeper : Nat
  chan : Addr
  lock : LockId

inductive SleepPc where
  | start | acquireEnter | testAndSet | lockCpu | releaseEnter | lockRelease | popOff
  | storeChan | storeState | prepareSched | switched | panicked | stopped
  deriving DecidableEq, Repr

inductive WakePc where
  | acquireEnter | testAndSet | lockCpu | change
  | readState (i : Nat) | readChan (i : Nat) | storeState (i : Nat)
  | releaseEnter | lockRelease | popOff | stopped
  deriving DecidableEq, Repr

/-- `released`, `begunAfter` and `completed` are ghosts: the sleeper has released
`lock`, the waker's present `wakeup` began after that, and one that did has ended. -/
structure Conf where
  kern : Kern
  spc : SleepPc
  wpc : WakePc
  condition : Bool
  released : Bool
  begunAfter : Bool
  completed : Bool

inductive Actor where
  | sleeper
  | waker
  deriving DecidableEq, Repr

def Conf.sleeps {α : Type} (c : Conf) (r : Res Kern α) (next : α → SleepPc)
    (stop : SleepPc) : Conf :=
  match r with
  | .ok a σ => { c with kern := σ, spc := next a }
  | .fault _ σ => { c with kern := σ, spc := stop }

def Conf.wakes {α : Type} (c : Conf) (r : Res Kern α) (next : α → WakePc) : Conf :=
  match r with
  | .ok a σ => { c with kern := σ, wpc := next a }
  | .fault _ σ => { c with kern := σ, wpc := .stopped }

variable (w : Meeting)

/-- One step of `sleep`. With `lock == &p->lock` the two lock operations are skipped. -/
def sleeperStep (c : Conf) : Conf :=
  match c.spc with
  | .start => c.sleeps (runningProc w.hs c.kern)
      (fun p => if w.lock ≠ .proc p then .acquireEnter else .storeChan) .stopped
  | .acquireEnter => c.sleeps (acquireEnter w.hs (.proc w.sleeper) c.kern)
      (fun _ => .testAndSet) .stopped
  | .testAndSet => c.sleeps (testAndSet (.proc w.sleeper) c.kern)
      (fun locked => if locked then .testAndSet else .lockCpu) .stopped
  | .lockCpu => c.sleeps (lockCpu w.hs (.proc w.sleeper) c.kern)
      (fun _ => .releaseEnter) .stopped
  | .releaseEnter => c.sleeps (releaseEnter w.hs w.lock c.kern) (fun _ => .lockRelease) .stopped
  | .lockRelease => { c with released := true }.sleeps (lockRelease w.lock c.kern)
      (fun _ => .popOff) .stopped
  | .popOff => c.sleeps (popOff w.hs c.kern) (fun _ => .storeChan) .stopped
  | .storeChan => c.sleeps (setProc w.sleeper (fun p => { p with chan := w.chan }) c.kern)
      (fun _ => .storeState) .stopped
  | .storeState => c.sleeps (setProc w.sleeper (fun p => { p with state := .sleeping }) c.kern)
      (fun _ => .prepareSched) .stopped
  | .prepareSched => c.sleeps (prepareSched w.hs (pure w.hs) c.kern)
      (fun _ => .switched) .panicked
  | .switched | .panicked | .stopped => c

/-- One step of the waker. It changes the condition between its lock operations and
reads the state and the channel of an entry, and stores the state, in separate steps. -/
def wakerStep (c : Conf) : Conf :=
  match c.wpc with
  | .acquireEnter => c.wakes (acquireEnter w.hw w.lock c.kern) fun _ => .testAndSet
  | .testAndSet => c.wakes (testAndSet w.lock c.kern)
      fun locked => if locked then .testAndSet else .lockCpu
  | .lockCpu => c.wakes (lockCpu w.hw w.lock c.kern) fun _ => .change
  | .change => { c with condition := true, wpc := .readState 0, begunAfter := c.released }
  | .readState i =>
    if i < NPROC then
      if (c.kern.procTable i).state = .sleeping then { c with wpc := .readChan i }
      else { c with wpc := .readState (i + 1) }
    else { c with wpc := .releaseEnter, completed := c.completed || c.begunAfter }
  | .readChan i =>
    if (c.kern.procTable i).chan = w.chan then { c with wpc := .storeState i }
    else { c with wpc := .readState (i + 1) }
  | .storeState i => c.wakes (setProc i (fun p => { p with state := .runnable }) c.kern)
      fun _ => .readState (i + 1)
  | .releaseEnter => c.wakes (releaseEnter w.hw w.lock c.kern) fun _ => .lockRelease
  | .lockRelease => c.wakes (lockRelease w.lock c.kern) fun _ => .popOff
  | .popOff => c.wakes (popOff w.hw c.kern) fun _ => .acquireEnter
  | .stopped => c

def meetingStep (a : Actor) (c : Conf) : Conf :=
  match a with
  | .sleeper => sleeperStep w c
  | .waker => wakerStep w c

def runMeeting : List Actor → Conf → Conf
  | [], c => c
  | a :: schedule, c => runMeeting schedule (meetingStep w a c)

/-- The sleeper runs with `lock` held and is about to call `sleep`. -/
structure Meeting.Start (c : Conf) : Prop where
  harts : w.hs ≠ w.hw
  current : (c.kern.cpus w.hs).proc = some w.sleeper
  inTable : w.sleeper < NPROC
  holds : c.kern.Holds w.hs w.lock
  running : (c.kern.procTable w.sleeper).state = .running
  sleeperPc : c.spc = .start
  wakerPc : c.wpc = .acquireEnter
  released : c.released = false
  begunAfter : c.begunAfter = false
  completed : c.completed = false

/-- A wakeup that began after the release has ended, and the sleeper still sleeps. -/
def Lost (c : Conf) : Prop :=
  c.completed = true ∧ (c.kern.procTable w.sleeper).state = .sleeping ∧
    (c.kern.procTable w.sleeper).chan = w.chan

/-- The sleeper has released `lock` and not yet stored `SLEEPING`. -/
def Conf.Between (c : Conf) : Prop :=
  c.released = true ∧ (c.spc = .popOff ∨ c.spc = .storeChan ∨ c.spc = .storeState)

/-- In no step of the run does the waker read the sleeper's state in that window. -/
def ScansOutside : List Actor → Conf → Prop
  | [], _ => True
  | a :: schedule, c =>
    (a = .waker → c.wpc = .readState w.sleeper → ¬ c.Between) ∧
      ScansOutside schedule (meetingStep w a c)

/-! ## The invariant -/

/-- The store of `SLEEPING` has been made. -/
def SleepPc.Stored : SleepPc → Prop
  | .prepareSched | .switched | .panicked => True
  | _ => False

/-- Where the sleeper can be once it has released `lock`. -/
def SleepPc.Afterwards : SleepPc → Prop
  | .popOff | .storeChan | .storeState | .prepareSched | .switched | .panicked | .stopped => True
  | _ => False

/-- The scan of `wakeup` is past entry `p`. -/
def WakePc.Passed (p : Nat) : WakePc → Prop
  | .readState i | .readChan i | .storeState i => p < i
  | _ => False

/-- The sleeper will not be found sleeping any more: it was woken, or it stopped before. -/
def Conf.Settled (c : Conf) : Prop :=
  (c.spc.Stored ∧ (c.kern.procTable w.sleeper).state ≠ .sleeping) ∨ c.spc = .stopped

structure MeetingInv (c : Conf) : Prop where
  before : ¬ c.spc.Stored → (c.kern.procTable w.sleeper).state = .running
  chan : c.spc = .storeState ∨ c.spc.Stored → (c.kern.procTable w.sleeper).chan = w.chan
  after : c.released = true → c.spc.Afterwards
  reading : c.wpc = .readChan w.sleeper ∨ c.wpc = .storeState w.sleeper → c.spc.Stored
  begun : c.begunAfter = true → c.released = true
  passed : c.begunAfter = true → c.wpc.Passed w.sleeper → c.Settled w
  completed : c.completed = true → c.Settled w

variable {w}

theorem MeetingInv.not_lost {c : Conf} (hI : MeetingInv w c) : ¬ Lost w c := by
  rintro ⟨hcompleted, hsleeping, _⟩
  rcases hI.completed hcompleted with ⟨_, hne⟩ | hstopped
  · exact hne hsleeping
  · have hrun := hI.before (by rw [hstopped]; exact id)
    rw [hsleeping] at hrun
    cases hrun

theorem meetingInv_start {c : Conf} (h : w.Start c) : MeetingInv w c := by
  refine ⟨fun _ => h.running, ?_, ?_, ?_, ?_, ?_, ?_⟩
  · rw [h.sleeperPc]
    rintro (h0 | h0)
    · cases h0
    · exact h0.elim
  · rw [h.released]
    intro h0
    cases h0
  · rw [h.wakerPc]
    rintro (h0 | h0) <;> cases h0
  · rw [h.begunAfter]
    intro h0
    cases h0
  · rw [h.wakerPc]
    exact fun _ h0 => h0.elim
  · rw [h.completed]
    intro h0
    cases h0

/-! ### Pieces that leave the process table alone -/

private theorem frames_setLock (l : LockId) (f : Spinlock → Spinlock) :
    Res.Frames Kern.procTable (setLock l f) := Res.frames_modify fun _ => rfl

private theorem frames_setCpu (h : Nat) (f : Cpu → Cpu) :
    Res.Frames Kern.procTable (setCpu h f) := Res.frames_modify fun _ => rfl

private theorem frames_holding (h : Nat) (l : LockId) :
    Res.Frames Kern.procTable (holding h l) := Res.frames_read_bind fun _ => Res.frames_pure _

private theorem frames_intrGet (h : Nat) : Res.Frames Kern.procTable (intrGet h) :=
  Res.frames_read_bind fun _ => Res.frames_pure _

private theorem frames_setSie (h : Nat) (b : Bool) : Res.Frames Kern.procTable (setSie h b) :=
  Res.frames_modify fun _ => rfl

private theorem frames_pushOff (h : Nat) : Res.Frames Kern.procTable (pushOff h) := by
  unfold pushOff
  refine Res.frames_bind (frames_intrGet h) fun old => ?_
  refine Res.frames_bind (frames_setSie h false) fun _ => ?_
  refine Res.frames_read_bind fun σ => ?_
  refine Res.frames_ite (Res.frames_bind (frames_setCpu h _) fun _ => ?_) ?_ <;>
    exact Res.frames_ite (Res.frames_fault _) (frames_setCpu h _)

private theorem frames_popOff (h : Nat) : Res.Frames Kern.procTable (popOff h) := by
  unfold popOff
  refine Res.frames_bind (frames_intrGet h) fun on => ?_
  refine Res.frames_ite (Res.frames_fault _) ?_
  refine Res.frames_read_bind fun σ => ?_
  refine Res.frames_ite (Res.frames_fault _) (Res.frames_ite (Res.frames_fault _) ?_)
  refine Res.frames_bind (frames_setCpu h _) fun _ => Res.frames_read_bind fun σ' => ?_
  exact Res.frames_ite (frames_setSie h true) (Res.frames_pure _)

private theorem frames_runningProc (h : Nat) : Res.Frames Kern.procTable (runningProc h) := by
  unfold runningProc curproc
  refine Res.frames_bind ?_ fun p => ?_
  · refine Res.frames_bind (frames_pushOff h) fun _ => Res.frames_read_bind fun σ => ?_
    exact Res.frames_bind (frames_popOff h) fun _ => Res.frames_pure _
  · cases p with
    | none => exact Res.frames_fault _
    | some p => exact Res.frames_pure _

private theorem frames_acquireEnter (h : Nat) (l : LockId) :
    Res.Frames Kern.procTable (acquireEnter h l) := by
  unfold acquireEnter
  refine Res.frames_bind (frames_pushOff h) fun _ => ?_
  exact Res.frames_bind (frames_holding h l) fun b =>
    Res.frames_ite (Res.frames_fault _) (Res.frames_pure _)

private theorem frames_testAndSet (l : LockId) : Res.Frames Kern.procTable (testAndSet l) := by
  unfold testAndSet
  refine Res.frames_read_bind fun σ => ?_
  exact Res.frames_bind (frames_setLock l _) fun _ => Res.frames_pure _

private theorem frames_releaseEnter (h : Nat) (l : LockId) :
    Res.Frames Kern.procTable (releaseEnter h l) := by
  unfold releaseEnter
  exact Res.frames_bind (frames_holding h l) fun b =>
    Res.frames_ite (frames_setLock l _) (Res.frames_fault _)

private theorem frames_prepareSched (h : Nat) {pswitch : KernComp Nat}
    (hsw : Res.Frames Kern.procTable pswitch) :
    Res.Frames Kern.procTable (prepareSched h pswitch) := by
  unfold prepareSched
  refine Res.frames_bind (frames_runningProc h) fun p => ?_
  refine Res.frames_bind (frames_holding h _) fun b => Res.frames_ite (Res.frames_fault _) ?_
  refine Res.frames_read_bind fun σ => Res.frames_ite (Res.frames_fault _) ?_
  refine Res.frames_ite (Res.frames_fault _) (Res.frames_bind (frames_intrGet h) fun b => ?_)
  refine Res.frames_ite (Res.frames_fault _) (Res.frames_bind hsw fun h' => ?_)
  exact Res.frames_bind (frames_setCpu h' _) fun _ => Res.frames_pure _

/-! ### Steps of the sleeper -/

/-- A step from `pc` to `pc'` that is neither the release nor one of the two stores. -/
private structure QuietMove (pc pc' : SleepPc) : Prop where
  stored : pc'.Stored ↔ pc.Stored
  afterwards : pc.Afterwards → pc'.Afterwards
  notStore : pc' ≠ .storeState
  running : pc ≠ .stopped

private theorem MeetingInv.quiet {c : Conf} (hI : MeetingInv w c) {σ : Kern} {pc : SleepPc}
    (htable : σ.procTable = c.kern.procTable) (hq : QuietMove c.spc pc) :
    MeetingInv w { c with kern := σ, spc := pc } := by
  have hsettled : c.Settled w → Conf.Settled w { c with kern := σ, spc := pc } := by
    rintro (⟨hs, hne⟩ | hstopped)
    · exact Or.inl ⟨hq.stored.mpr hs, by simpa only [htable] using hne⟩
    · exact absurd hstopped hq.running
  refine ⟨fun hns => ?_, ?_, fun hr => hq.afterwards (hI.after hr),
    fun hr => hq.stored.mpr (hI.reading hr), hI.begun,
    fun hb hp => hsettled (hI.passed hb hp), fun hd => hsettled (hI.completed hd)⟩
  · simp only [htable]
    exact hI.before fun hs => hns (hq.stored.mpr hs)
  · simp only [htable]
    rintro (hpc | hs)
    · exact absurd hpc hq.notStore
    · exact hI.chan (Or.inr (hq.stored.mp hs))

private theorem MeetingInv.sleeps {α : Type} {c : Conf} (hI : MeetingInv w c) {x : KernComp α}
    (hx : Res.Frames Kern.procTable x) {next : α → SleepPc} {stop : SleepPc}
    (hnext : ∀ a, QuietMove c.spc (next a)) (hstop : QuietMove c.spc stop) :
    MeetingInv w (c.sleeps (x c.kern) next stop) := by
  have hframe := hx c.kern
  unfold Conf.sleeps
  cases hrun : x c.kern with
  | ok a σ =>
    rw [hrun] at hframe
    exact hI.quiet hframe (hnext a)
  | fault f σ =>
    rw [hrun] at hframe
    exact hI.quiet hframe hstop

theorem meetingInv_sleeper {c : Conf} (hI : MeetingInv w c) :
    MeetingInv w (sleeperStep w c) := by
  have quiet : ∀ {pc pc' : SleepPc}, (pc'.Stored ↔ pc.Stored) →
      (pc.Afterwards → pc'.Afterwards) → pc' ≠ .storeState → pc ≠ .stopped → QuietMove pc pc' :=
    fun h1 h2 h3 h4 => ⟨h1, h2, h3, h4⟩
  unfold sleeperStep
  cases hpc : c.spc with
  | start =>
    refine hI.sleeps (frames_runningProc w.hs) (fun p => ?_) ?_ <;> rw [hpc]
    · split <;> exact quiet Iff.rfl (fun h => h.elim) (by decide) (by decide)
    · exact quiet Iff.rfl (fun h => h.elim) (by decide) (by decide)
  | acquireEnter =>
    refine hI.sleeps (frames_acquireEnter w.hs _) (fun _ => ?_) ?_ <;> rw [hpc] <;>
      exact quiet Iff.rfl (fun h => h.elim) (by decide) (by decide)
  | testAndSet =>
    refine hI.sleeps (frames_testAndSet _) (fun b => ?_) ?_ <;> rw [hpc]
    · split <;> exact quiet Iff.rfl (fun h => h.elim) (by decide) (by decide)
    · exact quiet Iff.rfl (fun h => h.elim) (by decide) (by decide)
  | lockCpu =>
    refine hI.sleeps (frames_setLock _ _) (fun _ => ?_) ?_ <;> rw [hpc] <;>
      exact quiet Iff.rfl (fun h => h.elim) (by decide) (by decide)
  | releaseEnter =>
    refine hI.sleeps (frames_releaseEnter w.hs _) (fun _ => ?_) ?_ <;> rw [hpc] <;>
      exact quiet Iff.rfl (fun h => h.elim) (by decide) (by decide)
  | lockRelease =>
    have hns : ¬ c.spc.Stored := by rw [hpc]; exact id
    have hnot : c.released ≠ true := by
      intro hr
      have := hI.after hr
      rw [hpc] at this
      exact this
    refine ⟨fun _ => hI.before hns, ?_, fun _ => trivial, fun hr => absurd (hI.reading hr) hns,
      fun _ => rfl, fun hb => absurd (hI.begun hb) hnot, fun hd => ?_⟩
    · rintro (h | h)
      · cases h
      · exact h.elim
    · rcases hI.completed hd with ⟨hs, _⟩ | hstopped
      · exact absurd hs hns
      · rw [hpc] at hstopped
        cases hstopped
  | popOff =>
    refine hI.sleeps (frames_popOff w.hs) (fun _ => ?_) ?_ <;> rw [hpc] <;>
      exact quiet Iff.rfl (fun h => h) (by decide) (by decide)
  | storeChan =>
    have hns : ¬ c.spc.Stored := by rw [hpc]; exact id
    have hunsettled : ¬ c.Settled w := by
      rintro (⟨hs, _⟩ | hstopped)
      · exact hns hs
      · rw [hpc] at hstopped
        cases hstopped
    refine ⟨fun _ => ?_, fun _ => ?_, fun _ => trivial, fun hr => absurd (hI.reading hr) hns,
      hI.begun, fun hb hp => absurd (hI.passed hb hp) hunsettled,
      fun hd => absurd (hI.completed hd) hunsettled⟩
    · simpa [Conf.sleeps, setProc, Kern.withProc] using hI.before hns
    · simp [Conf.sleeps, setProc, Kern.withProc]
  | storeState =>
    have hns : ¬ c.spc.Stored := by rw [hpc]; exact id
    have hunsettled : ¬ c.Settled w := by
      rintro (⟨hs, _⟩ | hstopped)
      · exact hns hs
      · rw [hpc] at hstopped
        cases hstopped
    refine ⟨fun h => absurd trivial h, fun _ => ?_, fun _ => trivial, fun _ => trivial,
      hI.begun, fun hb hp => absurd (hI.passed hb hp) hunsettled,
      fun hd => absurd (hI.completed hd) hunsettled⟩
    simpa [Conf.sleeps, setProc, Kern.withProc] using hI.chan (Or.inl hpc)
  | prepareSched =>
    refine hI.sleeps (frames_prepareSched w.hs (Res.frames_pure _)) (fun _ => ?_) ?_ <;>
      rw [hpc] <;> exact quiet Iff.rfl (fun h => h) (by decide) (by decide)
  | switched => exact hI
  | panicked => exact hI
  | stopped => exact hI

/-! ### Steps of the waker -/

/-- A step of the waker that leaves the process table alone and does not get past the
sleeper's entry. -/
private theorem MeetingInv.wakerAt {c : Conf} (hI : MeetingInv w c) {σ : Kern} {pc : WakePc}
    (htable : σ.procTable = c.kern.procTable)
    (hreading : pc = .readChan w.sleeper ∨ pc = .storeState w.sleeper → c.spc.Stored)
    (hpassed : c.begunAfter = true → pc.Passed w.sleeper → c.Settled w) :
    MeetingInv w { c with kern := σ, wpc := pc } := by
  have hsettled : c.Settled w → Conf.Settled w { c with kern := σ, wpc := pc } := by
    simp only [Conf.Settled, htable]
    exact id
  refine ⟨?_, ?_, hI.after, hreading, hI.begun, fun hb hp => hsettled (hpassed hb hp),
    fun hd => hsettled (hI.completed hd)⟩
  · simpa only [htable] using hI.before
  · simpa only [htable] using hI.chan

/-- A step of the waker that is no part of the scan. -/
private theorem MeetingInv.wakes {α : Type} {c : Conf} (hI : MeetingInv w c) {x : KernComp α}
    (hx : Res.Frames Kern.procTable x) {next : α → WakePc}
    (hscan : ∀ a i, next a ≠ .readChan i ∧ next a ≠ .storeState i)
    (hpassed : ∀ a, ¬ (next a).Passed w.sleeper) :
    MeetingInv w (c.wakes (x c.kern) next) := by
  have hframe := hx c.kern
  unfold Conf.wakes
  cases hrun : x c.kern with
  | ok a σ =>
    rw [hrun] at hframe
    refine hI.wakerAt hframe ?_ fun _ hp => absurd hp (hpassed a)
    rintro (h | h)
    · exact absurd h (hscan a _).1
    · exact absurd h (hscan a _).2
  | fault f σ =>
    rw [hrun] at hframe
    refine hI.wakerAt hframe ?_ fun _ hp => hp.elim
    rintro (h | h) <;> cases h

/-- Outside the window a sleeper that has released `lock` has stored its state. -/
private theorem MeetingInv.stored_of_outside {c : Conf} (hI : MeetingInv w c)
    (hb : c.begunAfter = true) (hout : ¬ c.Between) : c.spc.Stored ∨ c.spc = .stopped := by
  have hr := hI.begun hb
  have hafter := hI.after hr
  cases hpc : c.spc <;> rw [hpc] at hafter
  all_goals first
    | exact hafter.elim
    | exact Or.inl trivial
    | exact Or.inr rfl
    | exact absurd ⟨hr, by simp [hpc]⟩ hout

/-- Past an entry other than the sleeper's nothing new is to be shown. -/
private theorem MeetingInv.passed_succ {c : Conf} (hI : MeetingInv w c) {i : Nat}
    (hb : c.begunAfter = true) (hscan : c.wpc.Passed w.sleeper ↔ w.sleeper < i)
    (hp : w.sleeper < i + 1) (hself : w.sleeper = i → c.Settled w) : c.Settled w := by
  rcases Nat.lt_succ_iff_lt_or_eq.mp hp with hlt | heq
  · exact hI.passed hb (hscan.mpr hlt)
  · exact hself heq

theorem meetingInv_waker {c : Conf} (hI : MeetingInv w c) (htab : w.sleeper < NPROC)
    (hout : c.wpc = .readState w.sleeper → ¬ c.Between) : MeetingInv w (wakerStep w c) := by
  unfold wakerStep
  cases hpc : c.wpc with
  | acquireEnter =>
    refine hI.wakes (frames_acquireEnter w.hw _) (fun _ i => ⟨?_, ?_⟩) (fun _ hp => hp) <;>
      exact fun h => by cases h
  | testAndSet =>
    refine hI.wakes (frames_testAndSet _) (fun b i => ?_) (fun b => ?_)
    · cases b <;> simp
    · cases b <;> exact id
  | lockCpu =>
    refine hI.wakes (frames_setLock _ _) (fun _ i => ⟨?_, ?_⟩) (fun _ hp => hp) <;>
      exact fun h => by cases h
  | change =>
    refine ⟨hI.before, hI.chan, hI.after, ?_, fun hr => hr, fun _ hp => ?_, hI.completed⟩
    · rintro (h | h) <;> cases h
    · exact absurd hp (Nat.not_lt_zero _)
  | readState i =>
    have hscan : c.wpc.Passed w.sleeper ↔ w.sleeper < i := by rw [hpc]; exact Iff.rfl
    by_cases hi : i < NPROC
    · by_cases hsleeping : (c.kern.procTable i).state = .sleeping
      · simp only [hi, hsleeping, if_true]
        refine hI.wakerAt rfl ?_ fun hb hp => hI.passed hb (hscan.mpr hp)
        rintro (h | h)
        · cases h
          by_contra hns
          have hrun := hI.before hns
          rw [hsleeping] at hrun
          cases hrun
        · cases h
      · simp only [hi, hsleeping, if_true, if_false]
        refine hI.wakerAt rfl ?_ fun hb hp => hI.passed_succ hb hscan hp fun heq => ?_
        · rintro (h | h) <;> cases h
        · subst heq
          rcases hI.stored_of_outside hb (hout hpc) with hs | hstopped
          · exact Or.inl ⟨hs, hsleeping⟩
          · exact Or.inr hstopped
    · simp only [hi, if_false]
      refine ⟨hI.before, hI.chan, hI.after, ?_, hI.begun, fun _ hp => hp.elim, fun hd => ?_⟩
      · rintro (h | h) <;> cases h
      · rcases Bool.or_eq_true_iff.mp hd with hd | hb
        · exact hI.completed hd
        · exact hI.passed hb (hscan.mpr (by omega))
  | readChan i =>
    have hscan : c.wpc.Passed w.sleeper ↔ w.sleeper < i := by rw [hpc]; exact Iff.rfl
    by_cases hchan : (c.kern.procTable i).chan = w.chan
    · simp only [hchan, if_true]
      refine hI.wakerAt rfl ?_ fun hb hp => hI.passed hb (hscan.mpr hp)
      rintro (h | h)
      · cases h
      · cases h
        exact hI.reading (Or.inl hpc)
    · simp only [hchan, if_false]
      refine hI.wakerAt rfl ?_ fun hb hp => hI.passed_succ hb hscan hp fun heq => ?_
      · rintro (h | h) <;> cases h
      · subst heq
        exact absurd (hI.chan (Or.inr (hI.reading (Or.inl hpc)))) hchan
  | storeState i =>
    have hscan : c.wpc.Passed w.sleeper ↔ w.sleeper < i := by rw [hpc]; exact Iff.rfl
    have hstored : w.sleeper = i → c.spc.Stored := by
      rintro rfl
      exact hI.reading (Or.inr hpc)
    simp only [setProc, modify_apply, Conf.wakes]
    by_cases hself : w.sleeper = i
    · have hs := hstored hself
      have hsettled : Conf.Settled w { c with
          kern := c.kern.withProc i { c.kern.procTable i with state := .runnable }
          wpc := .readState (i + 1) } := by
        refine Or.inl ⟨hs, ?_⟩
        simp [Kern.withProc, hself]
      refine ⟨fun hns => absurd hs hns, fun h => ?_, hI.after, ?_, hI.begun,
        fun _ _ => hsettled, fun _ => hsettled⟩
      · have hchan := hI.chan h
        rw [hself] at hchan
        simpa [Kern.withProc, hself] using hchan
      · rintro (h | h) <;> cases h
    · have htable : (c.kern.withProc i
          { c.kern.procTable i with state := .runnable }).procTable w.sleeper =
          c.kern.procTable w.sleeper := Function.update_of_ne hself _ _
      refine ⟨fun hns => ?_, fun h => ?_, hI.after, ?_, hI.begun, fun hb hp => ?_, fun hd => ?_⟩
      · simpa only [htable] using hI.before hns
      · simpa only [htable] using hI.chan h
      · rintro (h | h) <;> cases h
      · have hold := hI.passed_succ hb hscan hp fun heq => absurd heq hself
        simpa only [Conf.Settled, htable] using hold
      · simpa only [Conf.Settled, htable] using hI.completed hd
  | releaseEnter =>
    refine hI.wakes (frames_releaseEnter w.hw _) (fun _ i => ⟨?_, ?_⟩) (fun _ hp => hp) <;>
      exact fun h => by cases h
  | lockRelease =>
    refine hI.wakes (frames_setLock _ _) (fun _ i => ⟨?_, ?_⟩) (fun _ hp => hp) <;>
      exact fun h => by cases h
  | popOff =>
    refine hI.wakes (frames_popOff w.hw) (fun _ i => ⟨?_, ?_⟩) (fun _ hp => hp) <;>
      exact fun h => by cases h
  | stopped => exact hI

/-! ### Runs -/

theorem meetingInv_run {schedule : List Actor} (htab : w.sleeper < NPROC) :
    ∀ {c : Conf}, MeetingInv w c → ScansOutside w schedule c →
      MeetingInv w (runMeeting w schedule c) := by
  induction schedule with
  | nil => exact fun hI _ => hI
  | cons a schedule ih =>
    rintro c hI ⟨hout, hrest⟩
    refine ih ?_ hrest
    cases a with
    | sleeper => exact meetingInv_sleeper hI
    | waker => exact meetingInv_waker hI htab (hout rfl)

/-- Process 1 on hart 0 sleeps under a lock that hart 1 takes to wake it. -/
def pairMeeting : Meeting := ⟨0, 1, 1, .other 8, .other 0⟩

def pairConf : Conf where
  kern :=
    { soloKern with
      locks := fun l => if l = .other 0 then ⟨true, some 0⟩ else ⟨false, none⟩ }
  spc := .start
  wpc := .acquireEnter
  condition := false
  released := false
  begunAfter := false
  completed := false

theorem pairConf_start : pairMeeting.Start pairConf :=
  ⟨by decide, rfl, by decide, by decide, rfl, rfl, rfl, rfl, rfl, rfl⟩

/-- The sleeper releases `lock`, the waker takes it and scans the whole table, and only
then does the sleeper store its channel and its state. -/
def lostSchedule : List Actor :=
  List.replicate 6 .sleeper ++ List.replicate 55 .waker ++ List.replicate 3 .sleeper

end PageFaultOS
