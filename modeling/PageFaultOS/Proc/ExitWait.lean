import Mathlib.Tactic
import PageFaultOS.Lib.Run
import PageFaultOS.Proc.Sched

/-! A child in `exit` against its parent in `wait` or `wait4`, with the scheduler on every
hart. A step is one access to the process table, one lock operation or one switch; whoever
is on a hart makes it. A check that panics needs no step of its own: its hart stops, and
a hart that has stopped is one that the schedule does not choose any more. -/

namespace PageFaultOS

/-- Process `child` calls `exit(status)`; `parent` waits for it. -/
structure Exiting where
  child : Nat
  parent : Nat
  status : Int

inductive ExitPc where
  | closeFiles | clearDir | giveAway (i : Nat) | unmapFiles
  | storeZombie | storeXstate | wakeup (chan : Addr) (i : Nat)
  | acquire | prepareSched | switched
  deriving DecidableEq, Repr

inductive WaitCall where
  | wait (vaddr : Nat)
  | wait4 (pid vaddr : Nat)
  deriving DecidableEq, Repr

/-- `acquireFirst`, `checkParent` and `releaseFirst` are the check ahead of the loop of
`wait4`, `scan` the loop over the table of `wait`. -/
inductive WaitPc where
  | idle (r : Int)
  | acquireFirst (pid vaddr : Nat) | checkParent (pid vaddr : Nat)
  | releaseFirst (pid vaddr : Nat) (mine : Bool)
  | acquireSelf (k : WaitCall)
  | scan (vaddr i : Nat) (havechild : Bool)
  | acquireChild (k : WaitCall) (i : Nat)
  | test (k : WaitCall) (i : Nat)
  | copyout (k : WaitCall) (i : Nat)
  | free (k : WaitCall) (i : Nat)
  | releaseChild (i : Nat) (r : Int)
  | releaseSelf (r : Int)
  | releaseAlive (k : WaitCall) (i : Nat)
  | storeChan (k : WaitCall) | storeState (k : WaitCall)
  | prepareSched (k : WaitCall) | resumed (k : WaitCall)
  deriving DecidableEq, Repr

/-- The body of the scheduler's loop for entry `i`. -/
inductive SchedPc where
  | acquire (i : Nat) | look (i : Nat) | wakeup (i j : Nat) | dispatch (i : Nat)
  | back (i : Nat) | release (i : Nat)
  deriving DecidableEq, Repr

/-- Who runs on a hart. -/
inductive OnHart where
  | scheduler (pc : SchedPc)
  | child
  | parent
  | other (i : Nat)
  deriving DecidableEq, Repr

/-- `lock i` is the hart that holds the lock of entry `i`. `freed` is a ghost: `freeproc`
has been executed for the child. -/
structure ReapWorld where
  table : Nat → Proc
  lock : Nat → Option Nat
  hart : Nat → OnHart
  initproc : Option Nat
  cpc : ExitPc
  ppc : WaitPc
  freed : Bool

def procAddr : Option Nat → Addr
  | none => .null
  | some i => .proc i

/-- `xstate << 8` of a 32-bit `int`. -/
def shiftXstate (x : Int) : Int := Int.bmod (x * 256) (2 ^ 32)

/-- What `freeproc` stores in the fields of the entry. -/
def freeprocEntry (q : Proc) : Proc :=
  { q with
    vma := fun _ => none, chan := .null, xstate := 0, state := .unused, parent := none }

namespace ReapWorld

def setEntry (w : ReapWorld) (i : Nat) (f : Proc → Proc) : ReapWorld :=
  { w with table := Function.update w.table i (f (w.table i)) }

def acquire (w : ReapWorld) (h i : Nat) : Option ReapWorld :=
  if w.lock i = none then some { w with lock := Function.update w.lock i (some h) } else none

def release (w : ReapWorld) (h i : Nat) : Option ReapWorld :=
  if w.lock i = some h then some { w with lock := Function.update w.lock i none } else none

/-- The body of `wakeup` for one entry. -/
def wake (w : ReapWorld) (chan : Addr) (i : Nat) : ReapWorld :=
  if (w.table i).state = .sleeping ∧ (w.table i).chan = chan then
    w.setEntry i fun q => { q with state := .runnable }
  else w

def switchTo (w : ReapWorld) (h : Nat) (x : OnHart) : ReapWorld :=
  { w with hart := Function.update w.hart h x }

def exitAt (w : ReapWorld) (pc : ExitPc) : ReapWorld := { w with cpc := pc }

def waitAt (w : ReapWorld) (pc : WaitPc) : ReapWorld := { w with ppc := pc }

end ReapWorld

variable (x : Exiting)

/-- A step of `exit` on hart `h`. -/
def exitStep (w : ReapWorld) (h : Nat) : Option ReapWorld :=
  match w.cpc with
  | .closeFiles =>
    some ((w.setEntry x.child fun q => { q with ofile := fun _ => none }).exitAt .clearDir)
  | .clearDir => some ((w.setEntry x.child fun q =>
      { q with workDir := List.replicate MAXPATH 0 }).exitAt (.giveAway 0))
  | .giveAway i =>
    if i < NPROC then
      if (w.table i).parent = some x.child then
        some ((w.setEntry i fun q => { q with parent := w.initproc }).exitAt (.giveAway (i + 1)))
      else some (w.exitAt (.giveAway (i + 1)))
    else some (w.exitAt .unmapFiles)
  | .unmapFiles => some (w.exitAt .storeZombie)
  | .storeZombie =>
    some ((w.setEntry x.child fun q => { q with state := .zombie }).exitAt .storeXstate)
  | .storeXstate => some ((w.setEntry x.child fun q => { q with xstate := x.status }).exitAt
      (.wakeup (procAddr (w.table x.child).parent) 0))
  | .wakeup chan i =>
    if i < NPROC then some ((w.wake chan i).exitAt (.wakeup chan (i + 1)))
    else some (w.exitAt .acquire)
  | .acquire => (w.acquire h x.child).map (·.exitAt .prepareSched)
  | .prepareSched => some ((w.switchTo h (.scheduler (.back x.child))).exitAt .switched)
  | .switched => none

/-- Where `wait` and `wait4` go round again. -/
def WaitCall.again : WaitCall → WaitPc
  | .wait vaddr => .scan vaddr 0 false
  | .wait4 pid vaddr => .acquireChild (.wait4 pid vaddr) pid

def WaitCall.vaddr : WaitCall → Nat
  | .wait vaddr => vaddr
  | .wait4 _ vaddr => vaddr

/-- A step of `wait` or `wait4` on hart `h`; `copied` is the outcome of `copyout`. Without
a child `wait` returns and keeps the lock of its own entry. -/
def waitStep (w : ReapWorld) (h : Nat) (copied : Bool) : Option ReapWorld :=
  match w.ppc with
  | .idle _ => none
  | .acquireFirst pid vaddr => (w.acquire h pid).map (·.waitAt (.checkParent pid vaddr))
  | .checkParent pid vaddr =>
    some (w.waitAt (.releaseFirst pid vaddr (decide ((w.table pid).parent = some x.parent))))
  | .releaseFirst pid vaddr mine => (w.release h pid).map
      (·.waitAt (if mine then .acquireSelf (.wait4 pid vaddr) else .idle (-1)))
  | .acquireSelf k => (w.acquire h x.parent).map (·.waitAt k.again)
  | .scan vaddr i havechild =>
    if i < NPROC then
      if (w.table i).parent = some x.parent then some (w.waitAt (.acquireChild (.wait vaddr) i))
      else some (w.waitAt (.scan vaddr (i + 1) havechild))
    else if havechild then some (w.waitAt (.storeChan (.wait vaddr)))
    else some (w.waitAt (.idle (-1)))
  | .acquireChild k i => (w.acquire h i).map (·.waitAt (.test k i))
  | .test k i =>
    let w' := match k with
      | .wait _ => w
      | .wait4 .. => w.setEntry i fun q => { q with xstate := shiftXstate q.xstate }
    if (w.table i).state = .zombie then
      if k.vaddr ≠ 0 then some (w'.waitAt (.copyout k i)) else some (w'.waitAt (.free k i))
    else some (w'.waitAt (.releaseAlive k i))
  | .copyout k i =>
    if copied then some (w.waitAt (.free k i)) else some (w.waitAt (.releaseChild i (-1)))
  | .free _ i =>
    some ({ w.setEntry i freeprocEntry with freed := w.freed || decide (i = x.child) }.waitAt
      (.releaseChild i i))
  | .releaseChild i r => (w.release h i).map (·.waitAt (.releaseSelf r))
  | .releaseSelf r => (w.release h x.parent).map (·.waitAt (.idle r))
  | .releaseAlive k i => (w.release h i).map (·.waitAt (match k with
      | .wait vaddr => .scan vaddr (i + 1) true
      | .wait4 .. => .storeChan k))
  | .storeChan k =>
    some ((w.setEntry x.parent fun q => { q with chan := .proc x.parent }).waitAt (.storeState k))
  | .storeState k =>
    some ((w.setEntry x.parent fun q => { q with state := .sleeping }).waitAt (.prepareSched k))
  | .prepareSched k =>
    some ((w.switchTo h (.scheduler (.back x.parent))).waitAt (.resumed k))
  | .resumed k => some ((w.setEntry x.parent fun q => { q with chan := .null }).waitAt k.again)

/-- A step of the scheduler on hart `h`. -/
def schedStep (w : ReapWorld) (h : Nat) : SchedPc → Option ReapWorld
  | .acquire i => (w.acquire h i).map (·.switchTo h (.scheduler (.look i)))
  | .look i => some (w.switchTo h (.scheduler
      (if (w.table i).state = .zombie then .wakeup i 0 else .dispatch i)))
  | .wakeup i j =>
    if j < NPROC then
      some ((w.wake (procAddr w.initproc) j).switchTo h (.scheduler (.wakeup i (j + 1))))
    else some (w.switchTo h (.scheduler (.dispatch i)))
  | .dispatch i =>
    if (w.table i).state = .runnable then
      some ((w.setEntry i fun q => { q with state := .running }).switchTo h
        (if i = x.child then .child else if i = x.parent then .parent else .other i))
    else some (w.switchTo h (.scheduler (.release i)))
  | .back i => some (w.switchTo h (.scheduler (.release i)))
  | .release i => (w.release h i).map
      (·.switchTo h (.scheduler (.acquire (if i + 1 < NPROC then i + 1 else 0))))

/-- `step` is the next step on a hart; `call` begins a call of the parent. The others are
what the rest of the kernel does: a process other than the two takes and gives back locks
and leaves its hart, somebody calls `wakeup`, entries of other processes change. -/
inductive ReapAction where
  | step (h : Nat) (copied : Bool)
  | call (h : Nat) (k : WaitCall)
  | otherAcquire (h i : Nat) | otherRelease (h i : Nat) | otherSwitch (h : Nat)
  | wakeup (chan : Addr) (i : Nat)
  | change (i : Nat) (q : Proc)

def reapStep (w : ReapWorld) (a : ReapAction) : Option ReapWorld :=
  match a with
  | .step h copied => match w.hart h with
    | .scheduler pc => schedStep x w h pc
    | .child => exitStep x w h
    | .parent => waitStep x w h copied
    | .other _ => none
  | .call h k => match w.hart h, w.ppc with
    | .parent, .idle _ => match k with
      | .wait vaddr => some (w.waitAt (.acquireSelf (.wait vaddr)))
      | .wait4 pid vaddr =>
        if NPROC ≤ pid then some (w.waitAt (.idle (-1)))
        else some (w.waitAt (.acquireFirst pid vaddr))
    | _, _ => none
  | .otherAcquire h i => match w.hart h with
    | .other _ => w.acquire h i
    | _ => none
  | .otherRelease h i => match w.hart h with
    | .other _ => w.release h i
    | _ => none
  | .otherSwitch h => match w.hart h with
    | .other i => some (w.switchTo h (.scheduler (.back i)))
    | _ => none
  | .wakeup chan i => some (w.wake chan i)
  | .change i q =>
    if i = x.child ∨ i = x.parent then none
    else some { w with table := Function.update w.table i q }

/-- The child is about to call `exit` on its hart; the parent is in no call. -/
structure ReapStart (w : ReapWorld) : Prop where
  distinct : x.child ≠ x.parent
  child : ∃ h, w.hart h = .child ∧ ∀ h', w.hart h' = .child → h' = h
  running : (w.table x.child).state = .running
  cpc : w.cpc = .closeFiles
  ppc : ∃ r, w.ppc = .idle r
  freed : w.freed = false

/-- The child has stored `ZOMBIE` and does not have the lock of its entry yet. -/
def ExitPc.Window : ExitPc → Prop
  | .storeXstate | .wakeup .. | .acquire => True
  | _ => False

/-- A step in which the parent does not test the state of the child in that window. -/
def TestsOutside (w : ReapWorld) : ReapAction → Prop
  | .step h _ => w.hart h = .parent → (∃ k, w.ppc = .test k x.child) → ¬ w.cpc.Window
  | _ => True

/-- The child is freed, and its entry unused, only after it has switched away. -/
def ReapSafe (w : ReapWorld) : Prop :=
  w.freed = true ∨ (w.table x.child).state = .unused →
    w.cpc = .switched ∧ ∀ h, w.hart h ≠ .child

/-! ## The invariant -/

/-- The child has not stored `ZOMBIE` yet. -/
def ExitPc.Before : ExitPc → Prop
  | .closeFiles | .clearDir | .giveAway _ | .unmapFiles | .storeZombie => True
  | _ => False

structure ReapInv (w : ReapWorld) : Prop where
  before : w.cpc.Before → (w.table x.child).state = .running
  after : ¬ w.cpc.Before →
    (w.table x.child).state = .zombie ∨ (w.table x.child).state = .unused
  on : w.cpc ≠ .switched → ∃ h, w.hart h = .child ∧ ∀ h', w.hart h' = .child → h' = h
  off : w.cpc = .switched → ∀ h, w.hart h ≠ .child
  childLock : w.cpc = .prepareSched → ∃ h, w.hart h = .child ∧ w.lock x.child = some h
  parentLock : (∃ k, w.ppc = .test k x.child) →
    ∃ h, w.hart h = .parent ∧ w.lock x.child = some h
  freeing : (∃ k, w.ppc = .copyout k x.child ∨ w.ppc = .free k x.child) → w.cpc = .switched
  freed : w.freed = true ∨ (w.table x.child).state = .unused → w.cpc = .switched

variable {x} {w w' : ReapWorld}

theorem ReapInv.safe (hI : ReapInv x w) : ReapSafe x w :=
  fun h => ⟨hI.freed h, hI.off (hI.freed h)⟩

/-- Nobody wakes the child up or puts it on a hart again. -/
theorem ReapInv.child_state (hI : ReapInv x w) :
    (w.table x.child).state ≠ .sleeping ∧ (w.table x.child).state ≠ .runnable := by
  by_cases hb : w.cpc.Before
  · rw [hI.before hb]
    decide
  · rcases hI.after hb with h | h <;> rw [h] <;> decide

theorem reapInv_start (h : ReapStart x w) : ReapInv x w := by
  obtain ⟨r, hr⟩ := h.ppc
  have hpc := h.cpc
  refine ⟨fun _ => h.running, fun hb => ?_, fun _ => h.child, fun hs => ?_, fun hs => ?_,
    fun ht => ?_, fun hf => ?_, fun hf => ?_⟩
  · rw [hpc] at hb
    exact absurd trivial hb
  · rw [hpc] at hs
    cases hs
  · rw [hpc] at hs
    cases hs
  · obtain ⟨k, hk⟩ := ht
    rw [hr] at hk
    cases hk
  · obtain ⟨k, hk⟩ := hf
    rw [hr] at hk
    rcases hk with hk | hk <;> cases hk
  · rw [h.freed, h.running] at hf
    rcases hf with hf | hf <;> cases hf

/-! ### What the pieces change -/

theorem acquire_eq {h i : Nat} (hrun : w.acquire h i = some w') :
    w.lock i = none ∧ w' = { w with lock := Function.update w.lock i (some h) } := by
  unfold ReapWorld.acquire at hrun
  split at hrun
  · rename_i hfree
    exact ⟨hfree, (Option.some.inj hrun).symm⟩
  · cases hrun

theorem release_eq {h i : Nat} (hrun : w.release h i = some w') :
    w.lock i = some h ∧ w' = { w with lock := Function.update w.lock i none } := by
  unfold ReapWorld.release at hrun
  split at hrun
  · rename_i hheld
    exact ⟨hheld, (Option.some.inj hrun).symm⟩
  · cases hrun

theorem setEntry_state (w : ReapWorld) (i : Nat) {f : Proc → Proc}
    (hf : ∀ q, (f q).state = q.state) (j : Nat) :
    ((w.setEntry i f).table j).state = (w.table j).state := by
  by_cases hij : j = i
  · subst hij
    simp only [ReapWorld.setEntry, Function.update_self]
    exact hf _
  · simp only [ReapWorld.setEntry]
    rw [Function.update_of_ne hij]

theorem setEntry_other (w : ReapWorld) {i j : Nat} (h : j ≠ i) (f : Proc → Proc) :
    (w.setEntry i f).table j = w.table j := Function.update_of_ne h _ _

/-- `wakeup` of an entry writes to the table only, and changes no entry that is awake. -/
theorem wake_eq (w : ReapWorld) (chan : Addr) (i : Nat) :
    (w.wake chan i).lock = w.lock ∧ (w.wake chan i).hart = w.hart ∧
      (w.wake chan i).cpc = w.cpc ∧ (w.wake chan i).ppc = w.ppc ∧
      (w.wake chan i).freed = w.freed := by
  unfold ReapWorld.wake
  split
  · exact ⟨rfl, rfl, rfl, rfl, rfl⟩
  · exact ⟨rfl, rfl, rfl, rfl, rfl⟩

theorem wake_state (w : ReapWorld) (chan : Addr) (i : Nat) {j : Nat}
    (h : (w.table j).state ≠ .sleeping) :
    ((w.wake chan i).table j).state = (w.table j).state := by
  unfold ReapWorld.wake
  split
  · rename_i hsleep
    have hji : j ≠ i := by
      intro heq
      rw [heq] at h
      exact h hsleep.1
    rw [setEntry_other w hji]
  · rfl

/-! ### Steps of the others -/

/-- A step that is not the child's: where it is and the state of its entry stay, and so does
its lock while it has it. -/
structure KeepsChild (x : Exiting) (w w' : ReapWorld) : Prop where
  cpc : w'.cpc = w.cpc
  state : (w'.table x.child).state = (w.table x.child).state
  hart : ∀ h, w'.hart h = .child ↔ w.hart h = .child
  lock : ∀ h, w.hart h = .child → w.lock x.child = some h → w'.lock x.child = some h

theorem ReapInv.of_keeps (hI : ReapInv x w) (hk : KeepsChild x w w')
    (hparent : (∃ k, w'.ppc = .test k x.child) →
      ∃ h, w'.hart h = .parent ∧ w'.lock x.child = some h)
    (hfreeing : (∃ k, w'.ppc = .copyout k x.child ∨ w'.ppc = .free k x.child) →
      w.cpc = .switched)
    (hfreed : w'.freed = true → w.cpc = .switched) : ReapInv x w' := by
  have hpc := hk.cpc
  refine ⟨?_, ?_, fun hs => ?_, fun hs h => ?_, fun hs => ?_, hparent, fun hf => ?_, fun hf => ?_⟩
  · rw [hpc, hk.state]
    exact hI.before
  · rw [hpc, hk.state]
    exact hI.after
  · rw [hpc] at hs
    obtain ⟨h, hh, huniq⟩ := hI.on hs
    exact ⟨h, (hk.hart h).mpr hh, fun h' hh' => huniq h' ((hk.hart h').mp hh')⟩
  · rw [hpc] at hs
    exact fun hh => hI.off hs h ((hk.hart h).mp hh)
  · rw [hpc] at hs
    obtain ⟨h, hh, hl⟩ := hI.childLock hs
    exact ⟨h, (hk.hart h).mpr hh, hk.lock h hh hl⟩
  · rw [hpc]
    exact hfreeing hf
  · rw [hpc]
    rcases hf with hf | hf
    · exact hfreed hf
    · rw [hk.state] at hf
      exact hI.freed (Or.inr hf)

/-- A step in which neither of the two takes part. -/
theorem ReapInv.outside (hI : ReapInv x w) (hk : KeepsChild x w w') (hppc : w'.ppc = w.ppc)
    (hfreed : w'.freed = w.freed)
    (hparent : ∀ h, w.hart h = .parent → w.lock x.child = some h →
      w'.hart h = .parent ∧ w'.lock x.child = some h) : ReapInv x w' := by
  refine hI.of_keeps hk (fun ht => ?_) (fun hf => ?_) fun hf => ?_
  · rw [hppc] at ht
    obtain ⟨h, hh, hl⟩ := hI.parentLock ht
    exact ⟨h, hparent h hh hl⟩
  · rw [hppc] at hf
    exact hI.freeing hf
  · rw [hfreed] at hf
    exact hI.freed (Or.inl hf)

/-- What a hart that runs neither of the two does to the locks and to itself. -/
theorem ReapInv.elsewhere (hI : ReapInv x w) {h : Nat} (hc : w.hart h ≠ .child)
    (hp : w.hart h ≠ .parent) (hcpc : w'.cpc = w.cpc) (hppc : w'.ppc = w.ppc)
    (hfreed : w'.freed = w.freed) (hstate : (w'.table x.child).state = (w.table x.child).state)
    (hhart : ∀ h', h' ≠ h → w'.hart h' = w.hart h') (hnew : w'.hart h ≠ .child)
    (hlock : ∀ h', h' ≠ h → w.lock x.child = some h' → w'.lock x.child = some h') :
    ReapInv x w' := by
  refine hI.outside ⟨hcpc, hstate, fun h' => ?_, fun h' hh' => ?_⟩ hppc hfreed fun h' hh' hl => ?_
  · by_cases heq : h' = h
    · subst heq
      exact ⟨fun hw => absurd hw hnew, fun hw => absurd hw hc⟩
    · rw [hhart h' heq]
  · exact hlock h' fun heq => hc (heq ▸ hh')
  · have hne : h' ≠ h := fun heq => hp (heq ▸ hh')
    exact ⟨(hhart h' hne).trans hh', hlock h' hne hl⟩

theorem acquire_keeps {h i : Nat} (hrun : w.acquire h i = some w') {j h' : Nat}
    (hj : w.lock j = some h') : w'.lock j = some h' := by
  obtain ⟨hfree, rfl⟩ := acquire_eq hrun
  have hji : j ≠ i := by
    intro heq
    rw [heq, hfree] at hj
    cases hj
  simp only
  rw [Function.update_of_ne hji, hj]

theorem release_keeps {h i : Nat} (hrun : w.release h i = some w') {j h' : Nat} (hne : h' ≠ h)
    (hj : w.lock j = some h') : w'.lock j = some h' := by
  obtain ⟨hheld, rfl⟩ := release_eq hrun
  have hji : j ≠ i := by
    intro heq
    rw [heq, hheld] at hj
    exact hne (Option.some.inj hj).symm
  simp only
  rw [Function.update_of_ne hji, hj]

theorem reapInv_sched (hI : ReapInv x w) {h : Nat} {pc : SchedPc}
    (hh : w.hart h = .scheduler pc) (hrun : schedStep x w h pc = some w') : ReapInv x w' := by
  have hc : w.hart h ≠ .child := by rw [hh]; exact fun h => by cases h
  have hp : w.hart h ≠ .parent := by rw [hh]; exact fun h => by cases h
  -- the hart goes on with `y`, and the rest of the state is `v`
  have hgo : ∀ (v : ReapWorld) (y : OnHart), v.cpc = w.cpc → v.ppc = w.ppc →
      v.freed = w.freed → (v.table x.child).state = (w.table x.child).state →
      v.hart = w.hart → y ≠ .child →
      (∀ h', h' ≠ h → w.lock x.child = some h' → v.lock x.child = some h') →
      ReapInv x (v.switchTo h y) := by
    intro v y h1 h2 h3 h4 h5 h6 h7
    refine hI.elsewhere hc hp h1 h2 h3 h4 (fun h' hne => ?_) ?_ h7
    · rw [← h5]
      exact Function.update_of_ne hne _ _
    · simpa only [ReapWorld.switchTo, Function.update_self] using h6
  obtain ⟨hsleep, hready⟩ := hI.child_state
  cases pc with
  | acquire i =>
    simp only [schedStep, Option.map_eq_some_iff] at hrun
    obtain ⟨v, hv, rfl⟩ := hrun
    have hkeep := fun g (_ : g ≠ h) (hl : w.lock x.child = some g) => acquire_keeps hv hl
    obtain ⟨_, rfl⟩ := acquire_eq hv
    exact hgo _ _ rfl rfl rfl rfl rfl (fun h => by cases h) hkeep
  | look i =>
    cases hrun
    exact hgo w _ rfl rfl rfl rfl rfl (fun h => by cases h) fun _ _ hl => hl
  | wakeup i j =>
    simp only [schedStep] at hrun
    split at hrun
    · cases hrun
      obtain ⟨h1, h2, h3, h4, h5⟩ := wake_eq w (procAddr w.initproc) j
      exact hgo _ _ h3 h4 h5 (wake_state w _ j hsleep) h2 (fun h => by cases h)
        fun _ _ hl => h1 ▸ hl
    · cases hrun
      exact hgo w _ rfl rfl rfl rfl rfl (fun h => by cases h) fun _ _ hl => hl
  | dispatch i =>
    simp only [schedStep] at hrun
    split at hrun
    · rename_i hrunnable
      have hic : x.child ≠ i := fun heq => hready (heq ▸ hrunnable)
      cases hrun
      refine hgo _ _ rfl rfl rfl ?_ rfl ?_ fun _ _ hl => hl
      · rw [setEntry_other w hic]
      · rw [if_neg (Ne.symm hic)]
        split <;> exact fun h => by cases h
    · cases hrun
      exact hgo w _ rfl rfl rfl rfl rfl (fun h => by cases h) fun _ _ hl => hl
  | back i =>
    cases hrun
    exact hgo w _ rfl rfl rfl rfl rfl (fun h => by cases h) fun _ _ hl => hl
  | release i =>
    simp only [schedStep, Option.map_eq_some_iff] at hrun
    obtain ⟨v, hv, rfl⟩ := hrun
    have hkeep := fun h' (hne : h' ≠ h) hl => release_keeps hv (j := x.child) hne hl
    obtain ⟨_, rfl⟩ := release_eq hv
    exact hgo _ _ rfl rfl rfl rfl rfl (fun h => by cases h) hkeep

/-! ### Steps of the child -/

/-- The child goes on to `pc`, and the state of its entry is as it should be there. -/
theorem ReapInv.exits (hI : ReapInv x w) {v : ReapWorld} {pc : ExitPc}
    (hpc : w.cpc ≠ .switched) (hpc' : pc ≠ .switched ∧ pc ≠ .prepareSched)
    (hppc : v.ppc = w.ppc) (hfreed : v.freed = w.freed) (hhart : v.hart = w.hart)
    (hlock : v.lock = w.lock)
    (hbefore : pc.Before → (v.table x.child).state = .running)
    (hafter : ¬ pc.Before → (v.table x.child).state = .zombie) : ReapInv x (v.exitAt pc) := by
  have hno : ∀ {P : Prop}, w.cpc = .switched → P := fun h => absurd h hpc
  have hunused : (v.table x.child).state ≠ .unused := by
    by_cases hb : pc.Before
    · rw [hbefore hb]
      decide
    · rw [hafter hb]
      decide
  refine ⟨hbefore, fun hb => Or.inl (hafter hb), fun _ => ?_, fun hs => absurd hs hpc'.1,
    fun hs => absurd hs hpc'.2, fun ht => ?_, fun hf => ?_, fun hf => ?_⟩
  · simp only [ReapWorld.exitAt, hhart]
    exact hI.on hpc
  · simp only [ReapWorld.exitAt, hppc] at ht
    simp only [ReapWorld.exitAt, hhart, hlock]
    exact hI.parentLock ht
  · simp only [ReapWorld.exitAt, hppc] at hf
    exact hno (hI.freeing hf)
  · simp only [ReapWorld.exitAt, hfreed] at hf
    rcases hf with hf | hf
    · exact hno (hI.freed (Or.inl hf))
    · exact absurd hf hunused

theorem ReapInv.zombie (hI : ReapInv x w) (hpc : w.cpc ≠ .switched) (hb : ¬ w.cpc.Before) :
    (w.table x.child).state = .zombie :=
  (hI.after hb).resolve_right fun h => hpc (hI.freed (Or.inr h))

theorem reapInv_exit (hI : ReapInv x w) {h : Nat} (hh : w.hart h = .child)
    (hrun : exitStep x w h = some w') : ReapInv x w' := by
  have hpc : w.cpc ≠ .switched := fun hs => hI.off hs h hh
  obtain ⟨hsleep, _⟩ := hI.child_state
  -- on to `pc` before the store of `ZOMBIE`, with the state of the entry as it was
  have hearly : ∀ (v : ReapWorld) (pc : ExitPc), w.cpc.Before → pc.Before →
      v.ppc = w.ppc → v.freed = w.freed → v.hart = w.hart → v.lock = w.lock →
      (v.table x.child).state = (w.table x.child).state → ReapInv x (v.exitAt pc) := by
    intro v pc hb hb' h1 h2 h3 h4 h5
    have hne : pc ≠ .switched ∧ pc ≠ .prepareSched := by
      constructor <;> intro heq <;> rw [heq] at hb' <;> exact hb'
    exact hI.exits hpc hne h1 h2 h3 h4 (fun _ => h5.trans (hI.before hb)) fun hn => absurd hb' hn
  unfold exitStep at hrun
  cases hcpc : w.cpc with
  | closeFiles =>
    have hb : w.cpc.Before := by rw [hcpc]; trivial
    simp only [hcpc] at hrun
    cases hrun
    exact hearly _ _ hb trivial rfl rfl rfl rfl (setEntry_state w _ (fun _ => by rfl) _)
  | clearDir =>
    have hb : w.cpc.Before := by rw [hcpc]; trivial
    simp only [hcpc] at hrun
    cases hrun
    exact hearly _ _ hb trivial rfl rfl rfl rfl (setEntry_state w _ (fun _ => by rfl) _)
  | giveAway i =>
    have hb : w.cpc.Before := by rw [hcpc]; trivial
    simp only [hcpc] at hrun
    split at hrun
    · split at hrun
      · cases hrun
        exact hearly _ _ hb trivial rfl rfl rfl rfl (setEntry_state w _ (fun _ => by rfl) _)
      · cases hrun
        exact hearly w _ hb trivial rfl rfl rfl rfl rfl
    · cases hrun
      exact hearly w _ hb trivial rfl rfl rfl rfl rfl
  | unmapFiles =>
    have hb : w.cpc.Before := by rw [hcpc]; trivial
    simp only [hcpc] at hrun
    cases hrun
    exact hearly w _ hb trivial rfl rfl rfl rfl rfl
  | storeZombie =>
    simp only [hcpc] at hrun
    cases hrun
    refine hI.exits hpc (by decide) rfl rfl rfl rfl (fun hb => absurd hb id) fun _ => ?_
    simp [ReapWorld.setEntry]
  | storeXstate =>
    have hz := hI.zombie hpc (by rw [hcpc]; exact id)
    simp only [hcpc] at hrun
    cases hrun
    refine hI.exits hpc ⟨(fun h => by cases h), (fun h => by cases h)⟩ rfl rfl rfl rfl
      (fun hb => absurd hb id) fun _ => ?_
    rw [setEntry_state w x.child (fun _ => by rfl) _, hz]
  | wakeup chan i =>
    have hz := hI.zombie hpc (by rw [hcpc]; exact id)
    simp only [hcpc] at hrun
    split at hrun
    · cases hrun
      obtain ⟨h1, h2, _, h4, h5⟩ := wake_eq w chan i
      refine hI.exits hpc ⟨(fun h => by cases h), (fun h => by cases h)⟩ h4 h5 h2 h1
        (fun hb => absurd hb id) fun _ => ?_
      rw [wake_state w chan i hsleep, hz]
    · cases hrun
      exact hI.exits hpc (by decide) rfl rfl rfl rfl (fun hb => absurd hb id) fun _ => hz
  | acquire =>
    have hz := hI.zombie hpc (by rw [hcpc]; exact id)
    simp only [hcpc, Option.map_eq_some_iff] at hrun
    obtain ⟨v, hv, rfl⟩ := hrun
    obtain ⟨hfree, rfl⟩ := acquire_eq hv
    refine ⟨fun hb => absurd hb id, fun _ => Or.inl hz, fun _ => hI.on hpc,
      (fun hs => by cases hs), fun _ => ⟨h, hh, Function.update_self ..⟩, fun ht => ?_,
      fun hf => absurd (hI.freeing hf) hpc, fun hf => absurd (hI.freed hf) hpc⟩
    obtain ⟨h', _, hl⟩ := hI.parentLock ht
    rw [hfree] at hl
    cases hl
  | prepareSched =>
    have hz := hI.zombie hpc (by rw [hcpc]; exact id)
    simp only [hcpc] at hrun
    cases hrun
    obtain ⟨h0, _, huniq⟩ := hI.on hpc
    refine ⟨fun hb => absurd hb id, fun _ => Or.inl hz, fun hs => absurd rfl hs, fun _ h' hh' => ?_,
      (fun hs => by cases hs), fun ht => ?_, fun _ => rfl, fun _ => rfl⟩
    · by_cases heq : h' = h
      · subst heq
        simp [ReapWorld.exitAt, ReapWorld.switchTo] at hh'
      · have hother : w.hart h' = .child := by
          simpa [ReapWorld.exitAt, ReapWorld.switchTo, heq] using hh'
        exact heq ((huniq h' hother).trans (huniq h hh).symm)
    · obtain ⟨h', hp, hl⟩ := hI.parentLock ht
      have hne : h' ≠ h := by
        intro heq
        rw [heq, hh] at hp
        cases hp
      exact ⟨h', (Function.update_of_ne hne _ _).trans hp, hl⟩
  | switched => exact absurd hcpc hpc

/-! ### Steps of the parent -/

/-- A place of the parent that says nothing about the child. -/
def WaitPc.Quiet (c : Nat) : WaitPc → Prop
  | .test _ i | .copyout _ i | .free _ i => i ≠ c
  | _ => True

section Parent
variable {v : ReapWorld} {pc : WaitPc} {h : Nat}

/-- The parent goes on to `pc` on its hart; what it changes is not the state of the child. -/
private theorem ReapInv.waits (hI : ReapInv x w) (hh : w.hart h = .parent)
    (hcpc : v.cpc = w.cpc) (hfreed : v.freed = w.freed)
    (hstate : (v.table x.child).state = (w.table x.child).state)
    (hhart : v.hart = w.hart)
    (hlock : ∀ h', h' ≠ h → w.lock x.child = some h' → v.lock x.child = some h')
    (htest : (∃ k, pc = .test k x.child) → v.lock x.child = some h)
    (hfreeing : (∃ k, pc = .copyout k x.child ∨ pc = .free k x.child) → w.cpc = .switched) :
    ReapInv x (v.waitAt pc) := by
  refine hI.of_keeps ⟨hcpc, hstate, fun h' => ?_, fun h' hh' => ?_⟩ (fun ht => ?_) hfreeing
    fun hf => hI.freed (Or.inl (hfreed ▸ hf))
  · show v.hart h' = .child ↔ _
    rw [hhart]
  · refine hlock h' fun heq => ?_
    rw [heq, hh] at hh'
    cases hh'
  · refine ⟨h, ?_, htest ht⟩
    show v.hart h = .parent
    rw [hhart, hh]

private theorem quiet_test (hq : pc.Quiet x.child) {P : Prop}
    (h : ∃ k, pc = .test k x.child) : P := by
  obtain ⟨k, rfl⟩ := h
  exact absurd rfl hq

private theorem quiet_freeing (hq : pc.Quiet x.child) {P : Prop}
    (h : ∃ k, pc = .copyout k x.child ∨ pc = .free k x.child) : P := by
  obtain ⟨k, rfl | rfl⟩ := h <;> exact absurd rfl hq

/-- On to a quiet place without a lock operation. -/
private theorem ReapInv.waits_quiet (hI : ReapInv x w) (hh : w.hart h = .parent)
    (hq : pc.Quiet x.child) (hcpc : v.cpc = w.cpc) (hfreed : v.freed = w.freed)
    (hstate : (v.table x.child).state = (w.table x.child).state)
    (hhart : v.hart = w.hart) (hlock : v.lock = w.lock) : ReapInv x (v.waitAt pc) :=
  hI.waits hh hcpc hfreed hstate hhart (fun _ _ hl => hlock ▸ hl) (quiet_test hq)
    (quiet_freeing hq)

private theorem ReapInv.waits_release (hI : ReapInv x w) (hh : w.hart h = .parent) {i : Nat}
    (hrun : w.release h i = some v) (hq : pc.Quiet x.child) : ReapInv x (v.waitAt pc) := by
  have hkeep := fun h' (hne : h' ≠ h) hl => release_keeps hrun (j := x.child) hne hl
  obtain ⟨_, rfl⟩ := release_eq hrun
  exact hI.waits hh rfl rfl rfl rfl hkeep (quiet_test hq) (quiet_freeing hq)

private theorem ReapInv.waits_acquire (hI : ReapInv x w) (hh : w.hart h = .parent) {i : Nat}
    (hrun : w.acquire h i = some v) (htest : (∃ k, pc = .test k x.child) → i = x.child)
    (hfree : ∀ k, pc ≠ .copyout k x.child ∧ pc ≠ .free k x.child) :
    ReapInv x (v.waitAt pc) := by
  have hkeep := fun g (_ : g ≠ h) (hl : w.lock x.child = some g) => acquire_keeps hrun hl
  obtain ⟨_, rfl⟩ := acquire_eq hrun
  refine hI.waits hh rfl rfl rfl rfl hkeep (fun ht => ?_) fun ⟨k, hf⟩ => ?_
  · rw [← htest ht]
    exact Function.update_self ..
  · exact absurd hf (by simp [hfree k])

/-- The test, where it finds a child that has stored `ZOMBIE`: outside of the window the
child can only have switched away, for it would hold the lock that the parent holds. -/
private theorem ReapInv.tested (hI : ReapInv x w) (htest : ∃ k, w.ppc = .test k x.child)
    (hwindow : ¬ w.cpc.Window) (hz : (w.table x.child).state = .zombie) :
    w.cpc = .switched := by
  obtain ⟨h, hp, hl⟩ := hI.parentLock htest
  cases hcpc : w.cpc with
  | prepareSched =>
    obtain ⟨h', hc, hl'⟩ := hI.childLock hcpc
    rw [hl] at hl'
    cases hl'
    rw [hp] at hc
    cases hc
  | switched => rfl
  | storeXstate | wakeup | acquire => rw [hcpc] at hwindow; exact absurd trivial hwindow
  | closeFiles | clearDir | giveAway | unmapFiles | storeZombie =>
    have hrun := hI.before (by rw [hcpc]; trivial)
    rw [hz] at hrun
    cases hrun

/-- `freeproc` for a child that has switched away. -/
private theorem ReapInv.frees (hI : ReapInv x w) (hs : w.cpc = .switched)
    (hcpc : v.cpc = w.cpc) (hhart : v.hart = w.hart)
    (hstate : (v.table x.child).state = .unused) (hq : pc.Quiet x.child) :
    ReapInv x (v.waitAt pc) := by
  have hsv : (v.waitAt pc).cpc = .switched := hcpc.trans hs
  refine ⟨fun hb => ?_, fun _ => Or.inr hstate, fun hn => absurd hsv hn, fun _ h => ?_,
    fun hp => ?_, quiet_test hq, quiet_freeing hq, fun _ => hsv⟩
  · rw [hsv] at hb
    exact absurd hb id
  · show v.hart h ≠ .child
    rw [hhart]
    exact hI.off hs h
  · rw [hsv] at hp
    cases hp

private theorem again_quiet (k : WaitCall) (c : Nat) : (k.again).Quiet c := by
  cases k <;> trivial

end Parent

theorem reapInv_wait (hx : x.child ≠ x.parent) (hI : ReapInv x w) {h : Nat} {copied : Bool}
    (hh : w.hart h = .parent) (hok : (∃ k, w.ppc = .test k x.child) → ¬ w.cpc.Window)
    (hrun : waitStep x w h copied = some w') : ReapInv x w' := by
  unfold waitStep at hrun
  cases hppc : w.ppc with
  | idle r => simp [hppc] at hrun
  | acquireFirst pid vaddr =>
    simp only [hppc, Option.map_eq_some_iff] at hrun
    obtain ⟨v, hv, rfl⟩ := hrun
    exact hI.waits_acquire hh hv (fun ⟨k, hk⟩ => by cases hk)
      fun k => ⟨(fun h => by cases h), (fun h => by cases h)⟩
  | checkParent pid vaddr =>
    simp only [hppc] at hrun
    cases hrun
    exact hI.waits_quiet hh trivial rfl rfl rfl rfl rfl
  | releaseFirst pid vaddr mine =>
    simp only [hppc, Option.map_eq_some_iff] at hrun
    obtain ⟨v, hv, rfl⟩ := hrun
    refine hI.waits_release hh hv ?_
    split <;> trivial
  | acquireSelf k =>
    simp only [hppc, Option.map_eq_some_iff] at hrun
    obtain ⟨v, hv, rfl⟩ := hrun
    refine hI.waits_acquire hh hv (quiet_test (again_quiet k _)) fun k' => ?_
    cases k <;> exact ⟨(fun h => by cases h), (fun h => by cases h)⟩
  | scan vaddr i havechild =>
    simp only [hppc] at hrun
    split at hrun
    · split at hrun <;> cases hrun <;> exact hI.waits_quiet hh trivial rfl rfl rfl rfl rfl
    · split at hrun <;> cases hrun <;> exact hI.waits_quiet hh trivial rfl rfl rfl rfl rfl
  | acquireChild k i =>
    simp only [hppc, Option.map_eq_some_iff] at hrun
    obtain ⟨v, hv, rfl⟩ := hrun
    refine hI.waits_acquire hh hv (fun ht => ?_)
      fun k' => ⟨(fun h => by cases h), (fun h => by cases h)⟩
    obtain ⟨k', hk'⟩ := ht
    cases hk'
    rfl
  | test k i =>
    -- the shift of `wait4` does not touch the state
    have hshift : ∀ (v : ReapWorld) (pc : WaitPc), v.cpc = w.cpc → v.freed = w.freed →
        (v.table x.child).state = (w.table x.child).state → v.hart = w.hart →
        v.lock = w.lock → (∀ k', pc ≠ .test k' x.child) →
        ((∃ k', pc = .copyout k' x.child ∨ pc = .free k' x.child) →
          i = x.child ∧ (w.table i).state = .zombie) → ReapInv x (v.waitAt pc) := by
      intro v pc h1 h2 h3 h4 h5 h6 h7
      refine hI.waits hh h1 h2 h3 h4 (fun _ _ hl => h5 ▸ hl) (fun ⟨k', hk'⟩ => absurd hk' (h6 k'))
        fun hf => ?_
      obtain ⟨hi, hz⟩ := h7 hf
      subst hi
      exact hI.tested ⟨k, hppc⟩ (hok ⟨k, hppc⟩) hz
    simp only [hppc] at hrun
    generalize hv : (match k with
      | .wait _ => w
      | .wait4 .. => w.setEntry i fun q => { q with xstate := shiftXstate q.xstate }) = v at hrun
    have hsame : v.cpc = w.cpc ∧ v.freed = w.freed ∧
        (v.table x.child).state = (w.table x.child).state ∧ v.hart = w.hart ∧
        v.lock = w.lock := by
      subst hv
      cases k with
      | wait vaddr => exact ⟨rfl, rfl, rfl, rfl, rfl⟩
      | wait4 pid vaddr =>
        exact ⟨rfl, rfl, setEntry_state w i (fun _ => by rfl) _, rfl, rfl⟩
    obtain ⟨h1, h2, h3, h4, h5⟩ := hsame
    split at hrun
    · rename_i hz
      split at hrun
      · cases hrun
        refine hshift v _ h1 h2 h3 h4 h5 (fun k' h => by cases h) fun ⟨k', hk'⟩ => ?_
        rcases hk' with hk' | hk' <;> cases hk'
        exact ⟨rfl, hz⟩
      · cases hrun
        refine hshift v _ h1 h2 h3 h4 h5 (fun k' h => by cases h) fun ⟨k', hk'⟩ => ?_
        rcases hk' with hk' | hk' <;> cases hk'
        exact ⟨rfl, hz⟩
    · cases hrun
      exact hI.waits_quiet hh trivial h1 h2 h3 h4 h5
  | copyout k i =>
    simp only [hppc] at hrun
    split at hrun
    · cases hrun
      refine hI.waits hh rfl rfl rfl rfl (fun _ _ hl => hl) (fun ⟨k', hk'⟩ => by cases hk')
        fun ⟨k', hk'⟩ => ?_
      rcases hk' with hk' | hk' <;> cases hk'
      exact hI.freeing ⟨k, Or.inl hppc⟩
    · cases hrun
      exact hI.waits_quiet hh trivial rfl rfl rfl rfl rfl
  | free k i =>
    simp only [hppc] at hrun
    cases hrun
    by_cases hi : i = x.child
    · subst hi
      refine hI.frees (hI.freeing ⟨k, Or.inr hppc⟩) rfl rfl ?_ trivial
      simp [ReapWorld.setEntry, freeprocEntry]
    · refine hI.waits_quiet hh trivial rfl ?_ ?_ rfl rfl
      · simp [hi]
      · rw [show ({ w.setEntry i freeprocEntry with freed := _ } : ReapWorld).table x.child =
          (w.setEntry i freeprocEntry).table x.child from rfl, setEntry_other w (Ne.symm hi)]
  | releaseChild i r =>
    simp only [hppc, Option.map_eq_some_iff] at hrun
    obtain ⟨v, hv, rfl⟩ := hrun
    exact hI.waits_release hh hv trivial
  | releaseSelf r =>
    simp only [hppc, Option.map_eq_some_iff] at hrun
    obtain ⟨v, hv, rfl⟩ := hrun
    exact hI.waits_release hh hv trivial
  | releaseAlive k i =>
    simp only [hppc, Option.map_eq_some_iff] at hrun
    obtain ⟨v, hv, rfl⟩ := hrun
    refine hI.waits_release hh hv ?_
    cases k <;> trivial
  | storeChan k =>
    simp only [hppc] at hrun
    cases hrun
    refine hI.waits_quiet hh trivial rfl rfl ?_ rfl rfl
    rw [setEntry_other w hx]
  | storeState k =>
    simp only [hppc] at hrun
    cases hrun
    refine hI.waits_quiet hh trivial rfl rfl ?_ rfl rfl
    rw [setEntry_other w hx]
  | prepareSched k =>
    simp only [hppc] at hrun
    cases hrun
    have hne : ∀ h', h' = h → w.hart h' ≠ .child := by
      intro h' heq hc
      rw [heq, hh] at hc
      cases hc
    refine hI.of_keeps ⟨rfl, rfl, fun h' => ?_, fun _ _ hl => hl⟩ (fun ⟨k', hk'⟩ => by cases hk')
      (fun ⟨k', hk'⟩ => by rcases hk' with hk' | hk' <;> cases hk') fun hf => hI.freed (Or.inl hf)
    by_cases heq : h' = h
    · subst heq
      simp [ReapWorld.waitAt, ReapWorld.switchTo, hh]
    · simp [ReapWorld.waitAt, ReapWorld.switchTo, heq]
  | resumed k =>
    simp only [hppc] at hrun
    cases hrun
    refine hI.waits_quiet hh (again_quiet k _) rfl rfl ?_ rfl rfl
    rw [setEntry_other w hx]

theorem reapInv_step (hx : x.child ≠ x.parent) (hI : ReapInv x w) {a : ReapAction}
    (hok : TestsOutside x w a) (hrun : reapStep x w a = some w') : ReapInv x w' := by
  obtain ⟨hsleep, _⟩ := hI.child_state
  cases a with
  | step h copied =>
    cases hh : w.hart h with
    | scheduler pc =>
      simp only [reapStep, hh] at hrun
      exact reapInv_sched hI hh hrun
    | child =>
      simp only [reapStep, hh] at hrun
      exact reapInv_exit hI hh hrun
    | parent =>
      simp only [reapStep, hh] at hrun
      exact reapInv_wait hx hI hh (hok hh) hrun
    | other i => simp [reapStep, hh] at hrun
  | call h k =>
    cases hh : w.hart h with
    | parent =>
      cases hppc : w.ppc with
      | idle r =>
        simp only [reapStep, hh, hppc] at hrun
        cases k with
        | wait vaddr =>
          cases hrun
          exact hI.waits_quiet hh trivial rfl rfl rfl rfl rfl
        | wait4 pid vaddr =>
          simp only at hrun
          split at hrun <;> cases hrun <;> exact hI.waits_quiet hh trivial rfl rfl rfl rfl rfl
      | _ => simp [reapStep, hh, hppc] at hrun
    | _ => simp [reapStep, hh] at hrun
  | otherAcquire h i =>
    cases hh : w.hart h with
    | other j =>
      simp only [reapStep, hh] at hrun
      have hkeep := fun g (_ : g ≠ h) (hl : w.lock x.child = some g) => acquire_keeps hrun hl
      obtain ⟨_, rfl⟩ := acquire_eq hrun
      have hc : w.hart h ≠ .child ∧ w.hart h ≠ .parent := by
        rw [hh]
        exact ⟨(fun h => by cases h), (fun h => by cases h)⟩
      exact hI.elsewhere hc.1 hc.2 rfl rfl rfl rfl (fun _ _ => rfl) hc.1 hkeep
    | _ => simp [reapStep, hh] at hrun
  | otherRelease h i =>
    cases hh : w.hart h with
    | other j =>
      simp only [reapStep, hh] at hrun
      have hkeep := fun h' (hne : h' ≠ h) hl => release_keeps hrun (j := x.child) hne hl
      obtain ⟨_, rfl⟩ := release_eq hrun
      have hc : w.hart h ≠ .child ∧ w.hart h ≠ .parent := by
        rw [hh]
        exact ⟨(fun h => by cases h), (fun h => by cases h)⟩
      exact hI.elsewhere hc.1 hc.2 rfl rfl rfl rfl (fun _ _ => rfl) hc.1 hkeep
    | _ => simp [reapStep, hh] at hrun
  | otherSwitch h =>
    cases hh : w.hart h with
    | other j =>
      simp only [reapStep, hh] at hrun
      cases hrun
      have hc : w.hart h ≠ .child ∧ w.hart h ≠ .parent := by
        rw [hh]
        exact ⟨(fun h => by cases h), (fun h => by cases h)⟩
      refine hI.elsewhere hc.1 hc.2 rfl rfl rfl rfl (fun h' hne => ?_) ?_ fun _ _ hl => hl
      · exact Function.update_of_ne hne _ _
      · simp [ReapWorld.switchTo]
    | _ => simp [reapStep, hh] at hrun
  | wakeup chan i =>
    cases hrun
    obtain ⟨h1, h2, h3, h4, h5⟩ := wake_eq w chan i
    refine hI.outside ⟨h3, wake_state w chan i hsleep, fun h => by rw [h2], fun _ _ hl => h1 ▸ hl⟩
      h4 h5 fun h hh hl => ⟨h2 ▸ hh, h1 ▸ hl⟩
  | change i q =>
    simp only [reapStep] at hrun
    split at hrun
    · cases hrun
    · rename_i hne
      cases hrun
      have hi : x.child ≠ i := fun h => hne (Or.inl h.symm)
      refine hI.outside ⟨rfl, ?_, fun _ => Iff.rfl, fun _ _ hl => hl⟩ rfl rfl fun _ hh hl => ⟨hh, hl⟩
      simp only
      rw [Function.update_of_ne hi]

/-- Process 2, a child of process 1, is about to exit on hart 0; its parent is on hart 1. -/
def exitingPair : Exiting := ⟨2, 1, 0⟩

def exitingWorld : ReapWorld where
  table i := ⟨if i = 1 ∨ i = 2 then .running else .unused, if i = 2 then some 1 else none,
    .null, 0, [], fun _ => none, fun _ => none⟩
  lock _ := none
  hart h := if h = 0 then .child else if h = 1 then .parent else .scheduler (.acquire 0)
  initproc := some 1
  cpc := .closeFiles
  ppc := .idle 0
  freed := false

theorem exitingWorld_start : ReapStart exitingPair exitingWorld := by
  refine ⟨by decide, ⟨0, rfl, fun h hh => ?_⟩, rfl, rfl, ⟨0, rfl⟩, rfl⟩
  simp only [exitingWorld] at hh
  split at hh
  · assumption
  · split at hh <;> cases hh

/-- The child goes up to its store of `ZOMBIE`, and the parent through a whole `wait4(2, 0)`
up to `freeproc`. -/
def earlyReap : List ReapAction :=
  List.replicate 55 (.step 0 false) ++ .call 1 (.wait4 2 0) :: List.replicate 7 (.step 1 false)

end PageFaultOS
