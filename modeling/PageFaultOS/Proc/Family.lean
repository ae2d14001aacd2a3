import Mathlib.Tactic
import PageFaultOS.Lib.Run
import PageFaultOS.Proc.ExitWait

/-! The process table under `fork`, `clone`, `exit`, `wait` and `wait4`, each taken as
atomic between sleeps. A process that sleeps in one of them stays inside it until it runs
again, and any process may be put to sleep, woken and preempted. -/

namespace PageFaultOS
open Exec Exec.Comp

/-- The call that a process is inside of while it sleeps or is about to go on. -/
inductive Pending where
  | none
  | exiting (status : Int)
  | waiting (k : WaitCall)
  deriving DecidableEq, Repr

/-- A call of `freeproc`: the entry, the process that made it, the entry as it was, the
entries whose parent it was, the number and the code of its `exit`, and the status word
that `reaper` received, if it gave an address. -/
structure Reaped where
  child : Nat
  reaper : Nat
  before : Proc
  pointing : List Nat
  exit : Option (Nat × Int)
  word : Option Int

/-- `exited`, `shifts`, `serial` and `reaped` are ghosts: the number and the code of the
`exit` of an entry that is still to be reaped, how often `wait4` has looked at that entry
since, the number of the next `exit`, and the calls of `freeproc`, newest first. -/
structure Family where
  table : Nat → Proc
  initproc : Nat
  pending : Nat → Pending
  ret : Nat → Int
  exited : Nat → Option (Nat × Int)
  shifts : Nat → Nat
  serial : Nat
  reaped : List Reaped

/-- What `fork` and `clone` store in the entry of the child. -/
def forkEntry (q parent : Proc) (p : Nat) : Proc :=
  { q with
    parent := some p
    ofile := fun fd => if parent.ofile fd ≠ none then parent.ofile fd else q.ofile fd
    vma := parent.vma
    workDir := parent.workDir
    state := .runnable }

/-- `exit` gives the children of process `p` to `initproc`. -/
def giveAway (table : Nat → Proc) (initproc p : Nat) : Nat → Proc := fun i =>
  if i < NPROC ∧ (table i).parent = some p then { table i with parent := some initproc }
  else table i

def wakeupAll (table : Nat → Proc) (chan : Addr) : Nat → Proc := fun i =>
  if i < NPROC ∧ (table i).state = .sleeping ∧ (table i).chan = chan then
    { table i with state := .runnable }
  else table i

inductive WaitScan where
  | zombie (i : Nat)
  | alive
  | childless
  deriving DecidableEq, Repr

/-- The loop of `wait` over the table. -/
def waitScan (table : Nat → Proc) (p : Nat) : List Nat → Bool → WaitScan
  | [], havechild => if havechild then .alive else .childless
  | i :: is, havechild =>
    if (table i).parent = some p then
      if (table i).state = .zombie then .zombie i else waitScan table p is true
    else waitScan table p is havechild

namespace Family

def setEntry (w : Family) (i : Nat) (f : Proc → Proc) : Family :=
  { w with table := Function.update w.table i (f (w.table i)) }

def setPending (w : Family) (p : Nat) (k : Pending) : Family :=
  { w with pending := Function.update w.pending p k }

def returns (w : Family) (p : Nat) (r : Int) : Family :=
  { w.setPending p .none with ret := Function.update w.ret p r }

/-- Process `p` runs and is in none of the calls. -/
def Active (w : Family) (p : Nat) : Prop :=
  (w.table p).state = .running ∧ w.pending p = .none

instance (w : Family) (p : Nat) : Decidable (w.Active p) := inferInstanceAs (Decidable (_ ∧ _))

/-- `sleep(p, &p->lock)` inside of the call `k`. -/
def sleepIn (w : Family) (p : Nat) (k : WaitCall) : Family :=
  (w.setEntry p fun q => { q with chan := .proc p, state := .sleeping }).setPending p (.waiting k)

def pointing (w : Family) (i : Nat) : List Nat :=
  (List.range NPROC).filter fun j => (w.table j).parent = some i

/-- `freeproc` for entry `i`, called by process `p`. -/
def reap (w : Family) (p i : Nat) (word : Option Int) : Family :=
  { w.setEntry i freeprocEntry with
    exited := Function.update w.exited i none
    reaped := ⟨i, p, w.table i, w.pointing i, w.exited i, word⟩ :: w.reaped }.returns p i

/-- What `wait` and `wait4` do with a zombie. -/
def collect (w : Family) (p i vaddr : Nat) (copied : Bool) : Family :=
  if vaddr ≠ 0 then
    if copied then w.reap p i (some (w.table i).xstate) else w.returns p (-1)
  else w.reap p i none

/-- `child->xstate = child->xstate << 8` in the loop of `wait4`. -/
def shift (w : Family) (i : Nat) : Family :=
  { w.setEntry i fun q => { q with xstate := shiftXstate q.xstate } with
    shifts := Function.update w.shifts i (w.shifts i + 1) }

/-- One round of the loop of `wait` or `wait4`. -/
def waitRound (w : Family) (p : Nat) (k : WaitCall) (copied : Bool) : Family :=
  match k with
  | .wait vaddr => match waitScan w.table p (List.range NPROC) false with
    | .zombie i => w.collect p i vaddr copied
    | .alive => w.sleepIn p k
    | .childless => w.returns p (-1)
  | .wait4 pid vaddr =>
    if (w.table pid).state = .zombie then (w.shift pid).collect p pid vaddr copied
    else (w.shift pid).sleepIn p k

/-- `wait` or `wait4`; the latter looks at its argument first. -/
def waitCall (w : Family) (p : Nat) (k : WaitCall) (copied : Bool) : Family :=
  match k with
  | .wait _ => w.waitRound p k copied
  | .wait4 pid _ =>
    if NPROC ≤ pid then w.returns p (-1)
    else if (w.table pid).parent ≠ some p then w.returns p (-1)
    else w.waitRound p k copied

/-- `exit` up to the last sleep that it can have, in the writes of file mappings. -/
def exitBegin (w : Family) (p : Nat) (status : Int) : Family :=
  let w := w.setEntry p fun q =>
    { q with ofile := fun _ => none, workDir := List.replicate MAXPATH 0 }
  { w with table := giveAway w.table w.initproc p }.setPending p (.exiting status)

/-- The rest of `exit`. -/
def exitEnd (w : Family) (p : Nat) (status : Int) : Family :=
  let w := w.setEntry p fun q => { q with state := .zombie, xstate := status }
  { w with
    table := wakeupAll w.table (procAddr (w.table p).parent)
    exited := Function.update w.exited p (some (w.serial, status))
    shifts := Function.update w.shifts p 0
    serial := w.serial + 1 }.setPending p .none

/-- `allocproc` finds entry `i`. -/
def Unused (w : Family) (i : Nat) : Prop := i ≠ 0 ∧ i < NPROC ∧ (w.table i).state = .unused

instance (w : Family) (i : Nat) : Decidable (w.Unused i) :=
  inferInstanceAs (Decidable (_ ∧ _ ∧ _))

/-- `fork` by `p` of a child in entry `i`. -/
def fork (w : Family) (p i : Nat) : Family :=
  ((w.setEntry i fun q => forkEntry q (w.table p) p).returns i 0).returns p i

end Family

/-- A 32-bit argument. -/
def argint (a : Nat) : Int := Int.bmod a (2 ^ 32)

/-- `wait4(pid, vaddr)` for the `pid` of a system call; other negative ones are no entry of
the table. -/
def waitArgs (pid : Int) (vaddr : Nat) : Option WaitCall :=
  if pid = -1 then some (.wait vaddr)
  else if pid < 0 then none
  else some (.wait4 pid.toNat vaddr)

/-- `sys_wait` reads its address from argument 0, as it does `pid`. -/
def sysWait (a0 : Nat) : Option WaitCall := waitArgs (argint a0) a0

def sysWait4 (a0 a1 : Nat) : Option WaitCall := waitArgs (argint a0) a1

/-- `fork` and `clone` are the ones that succeed. -/
inductive FamilyAction where
  | fork (p i : Nat)
  | clone (p i stack : Nat) (flags : Int)
  | exit (p : Nat) (status : Int)
  | exitEnd (p : Nat)
  | wait (p : Nat) (k : WaitCall) (copied : Bool)
  | sysWait (p a0 : Nat) (copied : Bool)
  | sysWait4 (p a0 a1 : Nat) (copied : Bool)
  | resume (p : Nat) (copied : Bool)
  | sleep (p : Nat) (chan : Addr)
  | wakeup (chan : Addr)
  | dispatch (i : Nat)
  | preempt (i : Nat)

open Family in
/-- Only a process that runs takes a step; a zombie does not. -/
def familyStep (w : Family) : FamilyAction → Option Family
  | .fork p i => if w.Active p ∧ w.Unused i then some (w.fork p i) else none
  | .clone p i _ _ => if w.Active p ∧ w.Unused i then some (w.fork p i) else none
  | .exit p status => if w.Active p then some (w.exitBegin p status) else none
  | .exitEnd p => match w.pending p with
    | .exiting status =>
      if (w.table p).state = .running then some (w.exitEnd p status) else none
    | _ => none
  | .wait p k copied => if w.Active p then some (w.waitCall p k copied) else none
  | .sysWait p a0 copied =>
    if w.Active p then (sysWait a0).map fun k => w.waitCall p k copied else none
  | .sysWait4 p a0 a1 copied =>
    if w.Active p then (sysWait4 a0 a1).map fun k => w.waitCall p k copied else none
  | .resume p copied => match w.pending p with
    | .waiting k =>
      if (w.table p).state = .running then
        some ((w.setEntry p fun q => { q with chan := .null }).waitRound p k copied)
      else none
    | _ => none
  | .sleep p chan => if (w.table p).state = .running then
      some (w.setEntry p fun q => { q with chan := chan, state := .sleeping }) else none
  | .wakeup chan => some { w with table := wakeupAll w.table chan }
  | .dispatch i => if (w.table i).state = .runnable then
      some (w.setEntry i fun q => { q with state := .running }) else none
  | .preempt i => if (w.table i).state = .running then
      some (w.setEntry i fun q => { q with state := .runnable }) else none

/-! ## The loops over the table -/

/-- A loop whose body replaces the entry by `g` of it, and leaves `initproc` alone. -/
private theorem forEach_table {x : Option Nat} {f : Nat → KernComp Unit} {g : Proc → Proc}
    (hf : ∀ i σ, σ.initproc = x → f i σ = .ok () (σ.withProc i (g (σ.procTable i))))
    (l : List Nat) (hl : l.Nodup) : ∀ σ : Kern, σ.initproc = x →
    forEach l f σ = .ok () { σ with
      procTable := fun i => if i ∈ l then g (σ.procTable i) else σ.procTable i } := by
  induction l with
  | nil =>
    intro σ _
    simp [forEach]
  | cons j l ih =>
    obtain ⟨hj, hl⟩ := List.nodup_cons.mp hl
    intro σ hx
    have hrest := ih hl (σ.withProc j (g (σ.procTable j))) hx
    refine (bind_ok (hf j σ hx) _).trans (hrest.trans ?_)
    congr 2
    funext i
    by_cases hij : i = j
    · subst hij
      simp [Kern.withProc, hj]
    · simp [Kern.withProc, hij]

private theorem withProc_entry (σ : Kern) (i : Nat) : σ.withProc i (σ.procTable i) = σ := by
  simp [Kern.withProc]

/-- `giveAway` is what the loop of `exit` over the table does. -/
theorem giveAwayChildren_run (σ : Kern) (p init : Nat) (hinit : σ.initproc = some init) :
    giveAwayChildren p σ = .ok () { σ with procTable := giveAway σ.procTable init p } := by
  have hbody : ∀ i (τ : Kern), τ.initproc = some init →
      (do
        let τ ← read
        if (τ.procTable i).parent = some p then
          setProc i fun q => { q with parent := τ.initproc } : KernComp Unit) τ =
        .ok () (τ.withProc i (if (τ.procTable i).parent = some p then
          { τ.procTable i with parent := some init } else τ.procTable i)) := by
    intro i τ hτ
    by_cases hp : (τ.procTable i).parent = some p
    · simp [hp, setProc, hτ]
    · simp [hp, withProc_entry]
  unfold giveAwayChildren
  rw [forEach_table (g := fun q => if q.parent = some p then { q with parent := some init } else q)
    hbody _ List.nodup_range σ hinit]
  congr 2
  funext i
  simp only [giveAway, List.mem_range]
  by_cases hi : i < NPROC <;> simp [hi]

/-- `wakeupAll` is what `wakeup` does. -/
theorem wakeup_run (σ : Kern) (chan : Addr) :
    wakeup chan σ = .ok () { σ with procTable := wakeupAll σ.procTable chan } := by
  have hbody : ∀ i (τ : Kern), τ.initproc = σ.initproc →
      (do
        let τ ← read
        if (τ.procTable i).state = .sleeping ∧ (τ.procTable i).chan = chan then
          setProc i fun p => { p with state := .runnable } : KernComp Unit) τ =
        .ok () (τ.withProc i
          (if (τ.procTable i).state = .sleeping ∧ (τ.procTable i).chan = chan then
            { τ.procTable i with state := .runnable } else τ.procTable i)) := by
    intro i τ _
    by_cases hp : (τ.procTable i).state = .sleeping ∧ (τ.procTable i).chan = chan
    · simp [hp, setProc]
    · simp [hp, withProc_entry]
  unfold wakeup
  rw [forEach_table (g := fun q => if q.state = .sleeping ∧ q.chan = chan then
    { q with state := .runnable } else q) hbody _ List.nodup_range σ rfl]
  congr 2
  funext i
  simp only [wakeupAll, List.mem_range]
  by_cases hi : i < NPROC <;> simp [hi]

/-! ## What a step can do -/

def ProcState.Awake : ProcState → Prop
  | .sleeping | .runnable | .running => True
  | .unused | .zombie => False

/-- The scheduler and `wakeup` change the state and the channel of a process that is awake. -/
structure Rescheduled (q q' : Proc) : Prop where
  parent : q'.parent = q.parent
  xstate : q'.xstate = q.xstate
  state : q'.state = q.state ∨ q.state.Awake ∧ q'.state.Awake

/-- The changes that the steps are made of. -/
inductive FamilyChange : Family → Family → Prop where
  | schedule {w : Family} {t : Nat → Proc} (h : ∀ i, Rescheduled (w.table i) (t i)) :
      FamilyChange w { w with table := t }
  | fork {w : Family} {p i : Nat} (hp : w.Active p) (hi : w.Unused i) :
      FamilyChange w (w.fork p i)
  | exitBegin {w : Family} {p : Nat} (status : Int) (hp : w.Active p) :
      FamilyChange w (w.exitBegin p status)
  | exitEnd {w : Family} {p : Nat} {status : Int} (hp : w.pending p = .exiting status)
      (hrun : (w.table p).state = .running) : FamilyChange w (w.exitEnd p status)
  | returns {w : Family} {p : Nat} (r : Int) (hrun : (w.table p).state = .running) :
      FamilyChange w (w.returns p r)
  | sleepIn {w : Family} {p : Nat} {k : WaitCall} (hrun : (w.table p).state = .running)
      (hk : ∀ pid vaddr, k = .wait4 pid vaddr → (w.table pid).parent = some p) :
      FamilyChange w (w.sleepIn p k)
  | shift {w : Family} (i : Nat) : FamilyChange w (w.shift i)
  | reap {w : Family} {p i : Nat} (word : Option Int) (hrun : (w.table p).state = .running)
      (hz : (w.table i).state = .zombie) (hparent : (w.table i).parent = some p) :
      FamilyChange w (w.reap p i word)

abbrev FamilyChanges : Family → Family → Prop := Relation.ReflTransGen FamilyChange

theorem waitScan_zombie {t : Nat → Proc} {p i : Nat} : ∀ {l : List Nat} {b : Bool},
    waitScan t p l b = .zombie i → i ∈ l ∧ (t i).parent = some p ∧ (t i).state = .zombie := by
  intro l
  induction l with
  | nil =>
    intro b h
    unfold waitScan at h
    split at h <;> cases h
  | cons j l ih =>
    intro b h
    unfold waitScan at h
    split at h
    · rename_i hparent
      split at h
      · rename_i hz
        cases h
        exact ⟨List.mem_cons_self .., hparent, hz⟩
      · obtain ⟨h1, h2⟩ := ih h
        exact ⟨List.mem_cons_of_mem _ h1, h2⟩
    · obtain ⟨h1, h2⟩ := ih h
      exact ⟨List.mem_cons_of_mem _ h1, h2⟩

section Changes
variable {w w' : Family} {p : Nat}

theorem collect_changes {i : Nat} (vaddr : Nat) (copied : Bool)
    (hrun : (w.table p).state = .running) (hz : (w.table i).state = .zombie)
    (hparent : (w.table i).parent = some p) : FamilyChange w (w.collect p i vaddr copied) := by
  unfold Family.collect
  split
  · split
    · exact .reap _ hrun hz hparent
    · exact .returns _ hrun
  · exact .reap _ hrun hz hparent

theorem shift_table (w : Family) (i j : Nat) : (w.shift i).table j =
    if j = i then { w.table i with xstate := shiftXstate (w.table i).xstate } else w.table j := by
  by_cases hj : j = i
  · subst hj
    simp [Family.shift, Family.setEntry]
  · simp [Family.shift, Family.setEntry, hj]

theorem shift_same (w : Family) (i j : Nat) :
    ((w.shift i).table j).state = (w.table j).state ∧
      ((w.shift i).table j).parent = (w.table j).parent := by
  rw [shift_table]
  by_cases hj : j = i
  · subst hj
    simp
  · simp [hj]

theorem waitRound_changes {k : WaitCall} (copied : Bool)
    (hrun : (w.table p).state = .running)
    (hk : ∀ pid vaddr, k = .wait4 pid vaddr → (w.table pid).parent = some p) :
    FamilyChanges w (w.waitRound p k copied) := by
  cases k with
  | wait vaddr =>
    simp only [Family.waitRound]
    cases hscan : waitScan w.table p (List.range NPROC) false with
    | zombie i =>
      obtain ⟨_, hparent, hz⟩ := waitScan_zombie hscan
      exact .single (collect_changes vaddr copied hrun hz hparent)
    | alive => exact .single (.sleepIn hrun hk)
    | childless => exact .single (.returns _ hrun)
  | wait4 pid vaddr =>
    obtain ⟨hrun', _⟩ := shift_same w pid p
    obtain ⟨hstate, hparent⟩ := shift_same w pid pid
    have hshift : FamilyChanges w (w.shift pid) := .single (.shift pid)
    have hmine := hk pid vaddr rfl
    simp only [Family.waitRound]
    split
    · rename_i hz
      exact hshift.tail (collect_changes vaddr copied (hrun'.trans hrun) (hstate.trans hz)
        (hparent.trans hmine))
    · refine hshift.tail (.sleepIn (hrun'.trans hrun) fun pid' vaddr' heq => ?_)
      cases heq
      exact hparent.trans hmine

theorem waitCall_changes {k : WaitCall} (copied : Bool) (hrun : (w.table p).state = .running) :
    FamilyChanges w (w.waitCall p k copied) := by
  cases k with
  | wait vaddr => exact waitRound_changes (k := .wait vaddr) copied hrun fun _ _ h => by cases h
  | wait4 pid vaddr =>
    simp only [Family.waitCall]
    split
    · exact .single (.returns _ hrun)
    · split
      · exact .single (.returns _ hrun)
      · rename_i hmine
        refine waitRound_changes copied hrun fun pid' vaddr' heq => ?_
        cases heq
        exact not_not.mp hmine

theorem Rescheduled.unused_iff {q q' : Proc} (h : Rescheduled q q') :
    q'.state = .unused ↔ q.state = .unused := by
  rcases h.state with hs | ⟨h1, h2⟩
  · rw [hs]
  · constructor <;> intro hu
    · rw [hu] at h2
      exact absurd h2 id
    · rw [hu] at h1
      exact absurd h1 id

theorem Rescheduled.zombie_iff {q q' : Proc} (h : Rescheduled q q') :
    q'.state = .zombie ↔ q.state = .zombie := by
  rcases h.state with hs | ⟨h1, h2⟩
  · rw [hs]
  · constructor <;> intro hu
    · rw [hu] at h2
      exact absurd h2 id
    · rw [hu] at h1
      exact absurd h1 id

theorem rescheduled_refl (q : Proc) : Rescheduled q q := ⟨rfl, rfl, Or.inl rfl⟩

/-- An entry that is awake gets another state that is awake, and any channel. -/
theorem reschedule_entry {i : Nat} {f : Proc → Proc} (hf : Rescheduled (w.table i) (f (w.table i))) :
    FamilyChange w (w.setEntry i f) := by
  refine .schedule fun j => ?_
  by_cases hj : j = i
  · subst hj
    rw [Function.update_self]
    exact hf
  · rw [Function.update_of_ne hj]
    exact rescheduled_refl _

theorem rescheduled_wakeupAll (t : Nat → Proc) (chan : Addr) (i : Nat) :
    Rescheduled (t i) (wakeupAll t chan i) := by
  unfold wakeupAll
  split
  · rename_i h
    refine ⟨rfl, rfl, Or.inr ⟨?_, trivial⟩⟩
    rw [h.2.1]
    trivial
  · exact rescheduled_refl _

/-- The processes inside of `wait4` wait for a child of theirs. -/
def WaitsForOwn (w : Family) : Prop :=
  ∀ p pid vaddr, w.pending p = .waiting (.wait4 pid vaddr) → (w.table pid).parent = some p

theorem familyStep_changes (hw : WaitsForOwn w) {a : FamilyAction}
    (hstep : familyStep w a = some w') : FamilyChanges w w' := by
  cases a with
  | fork p i =>
    simp only [familyStep] at hstep
    split at hstep
    · rename_i h
      cases hstep
      exact .single (.fork h.1 h.2)
    · cases hstep
  | clone p i stack flags =>
    simp only [familyStep] at hstep
    split at hstep
    · rename_i h
      cases hstep
      exact .single (.fork h.1 h.2)
    · cases hstep
  | exit p status =>
    simp only [familyStep] at hstep
    split at hstep
    · rename_i h
      cases hstep
      exact .single (.exitBegin status h)
    · cases hstep
  | exitEnd p =>
    cases hpend : w.pending p with
    | exiting status =>
      simp only [familyStep, hpend] at hstep
      split at hstep
      · rename_i h
        cases hstep
        exact .single (.exitEnd hpend h)
      · cases hstep
    | _ => simp [familyStep, hpend] at hstep
  | wait p k copied =>
    simp only [familyStep] at hstep
    split at hstep
    · rename_i h
      cases hstep
      exact waitCall_changes copied h.1
    · cases hstep
  | sysWait p a0 copied =>
    simp only [familyStep] at hstep
    split at hstep
    · rename_i h
      obtain ⟨k, _, rfl⟩ := Option.map_eq_some_iff.mp hstep
      exact waitCall_changes copied h.1
    · cases hstep
  | sysWait4 p a0 a1 copied =>
    simp only [familyStep] at hstep
    split at hstep
    · rename_i h
      obtain ⟨k, _, rfl⟩ := Option.map_eq_some_iff.mp hstep
      exact waitCall_changes copied h.1
    · cases hstep
  | resume p copied =>
    cases hpend : w.pending p with
    | waiting k =>
      simp only [familyStep, hpend] at hstep
      split at hstep
      · rename_i h
        cases hstep
        have hchan : FamilyChange w (w.setEntry p fun q => { q with chan := .null }) :=
          reschedule_entry ⟨rfl, rfl, Or.inl rfl⟩
        have hsame : ∀ j, ((w.setEntry p fun q => { q with chan := .null }).table j).state =
            (w.table j).state ∧
            ((w.setEntry p fun q => { q with chan := .null }).table j).parent =
              (w.table j).parent := by
          intro j
          by_cases hj : j = p
          · subst hj
            simp [Family.setEntry]
          · simp [Family.setEntry, hj]
        refine Relation.ReflTransGen.head hchan (waitRound_changes copied ((hsame p).1.trans h)
          fun pid vaddr heq => ?_)
        rw [(hsame pid).2]
        exact hw p pid vaddr (heq ▸ hpend)
      · cases hstep
    | _ => simp [familyStep, hpend] at hstep
  | sleep p chan =>
    simp only [familyStep] at hstep
    split at hstep
    · rename_i h
      cases hstep
      refine .single (reschedule_entry ⟨rfl, rfl, Or.inr ⟨?_, trivial⟩⟩)
      rw [h]
      trivial
    · cases hstep
  | wakeup chan =>
    cases hstep
    exact .single (.schedule (rescheduled_wakeupAll w.table chan))
  | dispatch i =>
    simp only [familyStep] at hstep
    split at hstep
    · rename_i h
      cases hstep
      refine .single (reschedule_entry ⟨rfl, rfl, Or.inr ⟨?_, trivial⟩⟩)
      rw [h]
      trivial
    · cases hstep
  | preempt i =>
    simp only [familyStep] at hstep
    split at hstep
    · rename_i h
      cases hstep
      refine .single (reschedule_entry ⟨rfl, rfl, Or.inr ⟨?_, trivial⟩⟩)
      rw [h]
      trivial
    · cases hstep

/-! ### What each change does to an entry -/

theorem setEntry_apply (w : Family) (i j : Nat) (f : Proc → Proc) :
    (w.setEntry i f).table j = if j = i then f (w.table i) else w.table j := by
  by_cases hj : j = i
  · subst hj
    simp [Family.setEntry]
  · simp [Family.setEntry, hj]

theorem fork_table (w : Family) (p i j : Nat) :
    (w.fork p i).table j =
      if j = i then forkEntry (w.table i) (w.table p) p else w.table j :=
  setEntry_apply w i j fun q => forkEntry q (w.table p) p

theorem fork_pending (w : Family) (p i j : Nat) :
    (w.fork p i).pending j = if j = p ∨ j = i then .none else w.pending j := by
  have hpend : (w.fork p i).pending =
      Function.update (Function.update w.pending i .none) p .none := rfl
  rw [hpend, Function.update_apply, Function.update_apply]
  by_cases h1 : j = p
  · simp [h1]
  · simp [h1]

theorem reap_table (w : Family) (p i j : Nat) (word : Option Int) :
    (w.reap p i word).table j = if j = i then freeprocEntry (w.table i) else w.table j :=
  setEntry_apply w i j _

theorem setPending_apply (w : Family) (p j : Nat) (k : Pending) :
    (w.setPending p k).pending j = if j = p then k else w.pending j := by
  by_cases hj : j = p <;> simp [Family.setPending, hj]

theorem sleepIn_table (w : Family) (p j : Nat) (k : WaitCall) :
    (w.sleepIn p k).table j =
      if j = p then { w.table p with chan := .proc p, state := .sleeping } else w.table j :=
  setEntry_apply w p j fun q => { q with chan := .proc p, state := .sleeping }

/-- `sleep` of a process that runs. -/
theorem sleepIn_rescheduled {w : Family} {p : Nat} {k : WaitCall}
    (hrun : (w.table p).state = .running) (i : Nat) :
    Rescheduled (w.table i) ((w.sleepIn p k).table i) := by
  rw [sleepIn_table]
  split
  · rename_i h
    rw [h]
    refine ⟨rfl, rfl, Or.inr ⟨?_, trivial⟩⟩
    rw [hrun]
    trivial
  · exact rescheduled_refl _

/-- `exit` changes the parent of its children and nobody else's, and no state. -/
theorem exitBegin_entry (w : Family) (p i : Nat) (status : Int) :
    ((w.exitBegin p status).table i).state = (w.table i).state ∧
    ((w.exitBegin p status).table i).xstate = (w.table i).xstate ∧
    ((w.exitBegin p status).table i).parent =
      if i < NPROC ∧ (w.table i).parent = some p then some w.initproc
      else (w.table i).parent := by
  simp only [Family.exitBegin, Family.setPending, giveAway, setEntry_apply]
  by_cases hi : i = p
  · subst hi
    simp only [if_true]
    split <;> exact ⟨rfl, rfl, rfl⟩
  · simp only [hi, if_false]
    split <;> exact ⟨rfl, rfl, rfl⟩

/-- At its end the process is a zombie; the others keep their parents, and may wake up. -/
theorem exitEnd_entry (w : Family) (p i : Nat) (status : Int) :
    ((w.exitEnd p status).table i).parent = (w.table i).parent ∧
    if i = p then ((w.exitEnd p status).table i).state = .zombie ∧
      ((w.exitEnd p status).table i).xstate = status
    else Rescheduled (w.table i) ((w.exitEnd p status).table i) := by
  have hwake := rescheduled_wakeupAll
    (w.setEntry p fun q => { q with state := .zombie, xstate := status }).table
    (procAddr ((w.setEntry p fun q => { q with state := .zombie, xstate := status }).table p).parent) i
  have htable : (w.exitEnd p status).table = wakeupAll
      (w.setEntry p fun q => { q with state := .zombie, xstate := status }).table
      (procAddr
        ((w.setEntry p fun q => { q with state := .zombie, xstate := status }).table p).parent) :=
    rfl
  rw [← htable] at hwake
  by_cases hi : i = p
  · subst hi
    simp only [if_true]
    rw [setEntry_apply, if_pos rfl] at hwake
    refine ⟨hwake.parent, ?_, hwake.xstate⟩
    rcases hwake.state with h | h
    · exact h
    · exact absurd h.1 id
  · rw [setEntry_apply, if_neg hi] at hwake
    rw [if_neg hi]
    exact ⟨hwake.parent, hwake⟩

end Changes

end PageFaultOS
