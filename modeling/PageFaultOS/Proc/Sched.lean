import Mathlib.Tactic
import PageFaultOS.Mm.Riscv
import PageFaultOS.Sync.Spinlock

/-! Giving up the processor, from `proc/proc.cpp`: `sleep`, `yield`, `exit` and the
checks of `prepareSched` before `pswitch`. `pswitch` is a parameter that returns the
hart on which the process comes back; the calls that `exit` makes for a file mapping
are parameters too. -/

namespace PageFaultOS
open Exec Exec.Comp

def NPROC : Nat := 50
def NOFILE : Nat := 120
def NOMMAPFILE : Nat := 16
def MAXPATH : Nat := 64

def Kern.withProc (σ : Kern) (p : Nat) (q : Proc) : Kern :=
  { σ with procTable := Function.update σ.procTable p q }

def setProc (p : Nat) (f : Proc → Proc) : KernComp Unit :=
  modify fun σ => σ.withProc p (f (σ.procTable p))

def curproc (h : Nat) : KernComp (Option Nat) := do
  pushOff h
  let σ ← read
  let p := (σ.cpus h).proc
  popOff h
  pure p

/-- `curproc()` where the result is used as an entry of the table. -/
def runningProc (h : Nat) : KernComp Nat := do
  match ← curproc h with
  | none => fault (.undefined "null process")
  | some p => pure p

/-- The locking of `p->lock` around the test is commented out in the source. -/
def wakeup (chan : Addr) : KernComp Unit :=
  forEach (List.range NPROC) fun i => do
    let σ ← read
    if (σ.procTable i).state = .sleeping ∧ (σ.procTable i).chan = chan then
      setProc i fun p => { p with state := .runnable }

def prepareSched (h : Nat) (pswitch : KernComp Nat) : KernComp Nat := do
  let p ← runningProc h
  if ← holding h (.proc p) then
    Comp.panic "sched p->lock"
  else do
    let σ ← read
    if (σ.cpus h).noff ≠ 1 then
      Comp.panic "sched locks"
    else if (σ.procTable p).state = .running then
      Comp.panic "sched running"
    else if ← intrGet h then
      Comp.panic "sched interruptible"
    else do
      let intr_enable := (σ.cpus h).intena
      let h' ← pswitch
      setCpu h' fun c => { c with intena := intr_enable }
      pure h'

def sleep (h : Nat) (chan : Addr) (lock : LockId) (pswitch : KernComp Nat) : KernComp Nat := do
  let p ← runningProc h
  if lock ≠ .proc p then
    acquire h (.proc p)
    release h lock
  setProc p fun q => { q with chan := chan }
  setProc p fun q => { q with state := .sleeping }
  let h' ← prepareSched h pswitch
  setProc p fun q => { q with chan := .null }
  if lock ≠ .proc p then
    release h' (.proc p)
    acquire h' lock
  pure h'

def yield (h : Nat) (pswitch : KernComp Nat) : KernComp Nat := do
  let p ← runningProc h
  acquire h (.proc p)
  setProc p fun q => { q with state := .runnable }
  let h' ← prepareSched h pswitch
  release h' (.proc p)
  pure h'

/-- What `exit` calls for a file mapping of process `p`. -/
structure MappingOps where
  vfsrewind : (file : Nat) → KernComp Unit
  vfswrite : (file addr length : Nat) → KernComp Unit
  vmunmap : (p addr npages : Nat) → KernComp Unit
  freeVma : (p i : Nat) → KernComp Unit

/-- `vfsclose` has an empty body, so the loop only clears the entries. -/
def closeFiles (p : Nat) : KernComp Unit :=
  forEach (List.range NOFILE) fun fd => do
    let σ ← read
    if (σ.procTable p).ofile fd ≠ none then
      setProc p fun q => { q with ofile := Function.update q.ofile fd none }

def giveAwayChildren (p : Nat) : KernComp Unit :=
  forEach (List.range NPROC) fun child => do
    let σ ← read
    if (σ.procTable child).parent = some p then
      setProc child fun q => { q with parent := σ.initproc }

def unmapFiles (ops : MappingOps) (p : Nat) : KernComp Unit :=
  forEach (List.range NOMMAPFILE) fun i => do
    let σ ← read
    match (σ.procTable p).vma i with
    | none => pure ()
    | some vma => do
      if vma.shared then
        ops.vfsrewind vma.file
        ops.vfswrite vma.file vma.addr vma.length
      ops.vmunmap p vma.addr (pgroundup vma.length / pgsize)
      ops.freeVma p i

def exit (h : Nat) (ops : MappingOps) (status : Int) (pswitch : KernComp Nat) :
    KernComp Nat := do
  let p ← runningProc h
  closeFiles p
  setProc p fun q => { q with workDir := List.replicate MAXPATH 0 }
  giveAwayChildren p
  unmapFiles ops p
  setProc p fun q => { q with state := .zombie }
  setProc p fun q => { q with xstate := status }
  let σ ← read
  wakeup (match (σ.procTable p).parent with
    | none => .null
    | some q => .proc q)
  acquire h (.proc p)
  let _ ← prepareSched h pswitch
  Comp.panic "exit"

/-! ## Reaching `pswitch` -/

/-- Process `p` runs on hart `h`, which holds exactly the locks of `held`, each of them
taken at one level of nesting. -/
structure Entry (h p : Nat) (held : List LockId) (σ : Kern) : Prop where
  current : (σ.cpus h).proc = some p
  inTable : p < NPROC
  holds : ∀ l, σ.Holds h l ↔ l ∈ held
  noff : (σ.cpus h).noff = held.length
  off : 0 < held.length → σ.sie h = false

/-- The state in which `prepareSched` is to be entered. -/
structure SwitchReady (h p : Nat) (σ : Kern) : Prop where
  lock : σ.Holds h (.proc p)
  noff : (σ.cpus h).noff = 1
  off : σ.sie h = false
  notRunning : (σ.procTable p).state ≠ .running

/-- From `σ` the code gets to `pswitch`, in a state that is ready for it: whatever
`pswitch` does, it is done there and `rest` goes on from it. -/
def ReachesSwitch (h p : Nat) (run : KernComp Nat → KernComp Nat) (σ : Kern) : Prop :=
  ∃ τ rest, SwitchReady h p τ ∧ ∀ pswitch, run pswitch σ = (pswitch >>= rest) τ

/-- What the scheduler gives back to process `p`: a hart that holds `p->lock` alone. -/
def HandsOver (p : Nat) (pswitch : KernComp Nat) : Prop :=
  ∀ σ h σ', pswitch σ = .ok h σ' → Entry h p [.proc p] σ'

/-- When the code returns, its hart holds exactly the locks of `held`. -/
def ReturnsHolding (p : Nat) (held : List LockId) (run : KernComp Nat → KernComp Nat)
    (σ : Kern) : Prop :=
  ∀ pswitch, HandsOver p pswitch →
    ∀ h' σ', run pswitch σ = .ok h' σ' → ∀ l, σ'.Holds h' l ↔ l ∈ held

/-- From `σ` the code faults, in the same way whatever `pswitch` does. -/
def NeverSwitches {α : Type} (run : KernComp Nat → KernComp α) (σ : Kern) : Prop :=
  ∃ f s, ∀ pswitch, run pswitch σ = .fault f s

theorem NeverSwitches.not_reachesSwitch {h p : Nat} {run : KernComp Nat → KernComp Nat}
    {σ : Kern} (hrun : NeverSwitches run σ) : ¬ ReachesSwitch h p run σ := by
  rintro ⟨τ, rest, _, hall⟩
  obtain ⟨f, s, hfault⟩ := hrun
  have h1 := hall (fault .diverge)
  have h2 := hall (Comp.panic "")
  rw [hfault, fault_bind] at h1
  rw [hfault, panic_bind] at h2
  rw [h1] at h2
  cases h2

section NeverSwitches
variable {α β : Type} {σ : Kern} {h : Nat}

theorem neverSwitches_of_fault {x : KernComp α} {f : Fault} {s : Kern} (hx : x σ = .fault f s)
    (k : KernComp Nat → α → KernComp β) : NeverSwitches (fun pswitch => x >>= k pswitch) σ :=
  ⟨f, s, fun _ => bind_fault hx _⟩

theorem neverSwitches_of_ok {x : KernComp α} {a : α} {τ : Kern} (hx : x σ = .ok a τ)
    {k : KernComp Nat → α → KernComp β} (hk : NeverSwitches (fun pswitch => k pswitch a) τ) :
    NeverSwitches (fun pswitch => x >>= k pswitch) σ := by
  obtain ⟨f, s, hfault⟩ := hk
  exact ⟨f, s, fun pswitch => (bind_ok hx _).trans (hfault pswitch)⟩

theorem NeverSwitches.bind {run : KernComp Nat → KernComp α} (hrun : NeverSwitches run σ)
    (k : α → KernComp β) : NeverSwitches (fun pswitch => run pswitch >>= k) σ := by
  obtain ⟨f, s, hfault⟩ := hrun
  exact ⟨f, s, fun pswitch => bind_fault (hfault pswitch) k⟩

/-- Code that returns at the level of nesting at which it was called comes first. -/
theorem neverSwitches_after {x : KernComp α} {k : KernComp Nat → α → KernComp β}
    (hx : Keeps (fun σ => (σ.cpus h).noff) x)
    (hk : ∀ a τ, (τ.cpus h).noff = (σ.cpus h).noff →
      NeverSwitches (fun pswitch => k pswitch a) τ) :
    NeverSwitches (fun pswitch => x >>= k pswitch) σ := by
  cases hrun : x σ with
  | ok a τ => exact neverSwitches_of_ok hrun (hk a τ (hx σ a τ hrun))
  | fault f s => exact neverSwitches_of_fault hrun _

end NeverSwitches

/-! ### `curproc` and `prepareSched` -/

theorem curproc_nested {σ : Kern} {h : Nat} (hnoff : 1 ≤ (σ.cpus h).noff) :
    ∃ f s, curproc h σ = .fault f s := by
  unfold curproc
  by_cases hmax : (σ.cpus h).noff = intMax
  · exact ⟨_, _, bind_fault (pushOff_max σ h hmax) _⟩
  · have hpush := pushOff_eq σ h hmax
    have hdeep : popOff h (pushed σ h) = .fault (.panic "pop_off") (pushed σ h) := by
      apply popOff_deep
      · simp [pushed]
      · simp only [pushed, Function.update_self]
        omega
    refine ⟨.panic "pop_off", pushed σ h, ?_⟩
    rw [bind_ok hpush, read_bind]
    exact bind_fault hdeep _

theorem curproc_outer {σ : Kern} {h : Nat} (hnoff : (σ.cpus h).noff = 0) :
    curproc h σ = .ok (σ.cpus h).proc (popped (pushed σ h) h) := by
  have hmax : (σ.cpus h).noff ≠ intMax := by rw [hnoff]; decide
  have hpop : popOff h (pushed σ h) = .ok () (popped (pushed σ h) h) := by
    apply popOff_one
    · simp [pushed]
    · simp [pushed, hnoff]
  unfold curproc
  rw [bind_ok (pushOff_eq σ h hmax), read_bind, bind_ok hpop]
  simp [pushed]

theorem runningProc_nested {σ : Kern} {h : Nat} (hnoff : 1 ≤ (σ.cpus h).noff) :
    ∃ f s, runningProc h σ = .fault f s := by
  obtain ⟨f, s, hfault⟩ := curproc_nested hnoff
  exact ⟨f, s, bind_fault hfault _⟩

theorem runningProc_outer {σ : Kern} {h p : Nat} (hnoff : (σ.cpus h).noff = 0)
    (hcur : (σ.cpus h).proc = some p) :
    runningProc h σ = .ok p (popped (pushed σ h) h) := by
  unfold runningProc
  rw [bind_ok (curproc_outer hnoff), hcur]
  rfl

theorem outer_noff {σ : Kern} {h : Nat} (hnoff : (σ.cpus h).noff = 0) :
    ((popped (pushed σ h) h).cpus h).noff = 0 := by
  simp [popped, pushed, hnoff]

/-- Inside a critical section `prepareSched` does not get to `pswitch`: its own
`curproc` panics. -/
theorem prepareSched_nested {σ : Kern} {h : Nat} (hnoff : 1 ≤ (σ.cpus h).noff) :
    NeverSwitches (prepareSched h) σ := by
  obtain ⟨f, s, hfault⟩ := runningProc_nested hnoff
  exact neverSwitches_of_fault hfault _

/-- With `p->lock` held `prepareSched` does not get to `pswitch` at any depth: outside
a critical section the check of the lock itself panics. -/
theorem prepareSched_holding {σ : Kern} {h p : Nat} (hnoff : 0 ≤ (σ.cpus h).noff)
    (hcur : (σ.cpus h).proc = some p) (hlock : σ.Holds h (.proc p)) :
    NeverSwitches (prepareSched h) σ := by
  rcases hnoff.eq_or_lt with h0 | hpos
  · have hheld : (popped (pushed σ h) h).Holds h (.proc p) := hlock
    refine neverSwitches_of_ok (runningProc_outer h0.symm hcur) ?_
    refine ⟨.panic "sched p->lock", popped (pushed σ h) h, fun pswitch => ?_⟩
    simp [holding, bind_apply, hheld]
  · exact prepareSched_nested hpos

/-- `acquire(&p->lock)` ahead of the switch is what makes `prepareSched` panic. -/
theorem neverSwitches_acquire {β : Type} {σ : Kern} {h : Nat} {l : LockId}
    {k : KernComp Nat → Unit → KernComp β} (hnoff : 0 ≤ (σ.cpus h).noff)
    (hk : ∀ τ, 1 ≤ (τ.cpus h).noff → NeverSwitches (fun pswitch => k pswitch ()) τ) :
    NeverSwitches (fun pswitch => acquire h l >>= k pswitch) σ := by
  cases hacq : acquire h l σ with
  | fault f s => exact neverSwitches_of_fault hacq _
  | ok u τ =>
    have hτ := acquire_noff hacq
    exact neverSwitches_of_ok hacq (hk τ (by omega))

/-! ### The three callers -/

/-- `sleep` under a lock panics in `curproc`, before it takes `p->lock`. -/
theorem sleep_neverSwitches {σ : Kern} {h : Nat} (chan : Addr) (lock : LockId)
    (hnoff : 1 ≤ (σ.cpus h).noff) : NeverSwitches (sleep h chan lock) σ := by
  obtain ⟨f, s, hfault⟩ := runningProc_nested hnoff
  exact neverSwitches_of_fault hfault _

section Keeps
variable (h : Nat)

private theorem keeps_setProc (p : Nat) (f : Proc → Proc) :
    Keeps (fun σ : Kern => (σ.cpus h).noff) (setProc p f) := keeps_modify fun _ => rfl

theorem wakeup_keeps (chan : Addr) : Keeps (fun σ : Kern => (σ.cpus h).noff) (wakeup chan) := by
  unfold wakeup
  refine keeps_forEach (fun i => keeps_bind (keeps_read _) fun σ => ?_) _
  exact keeps_ite (keeps_setProc h i _) (keeps_pure _ _)

theorem closeFiles_keeps (p : Nat) :
    Keeps (fun σ : Kern => (σ.cpus h).noff) (closeFiles p) := by
  unfold closeFiles
  refine keeps_forEach (fun fd => keeps_bind (keeps_read _) fun σ => ?_) _
  exact keeps_ite (keeps_setProc h p _) (keeps_pure _ _)

theorem giveAwayChildren_keeps (p : Nat) :
    Keeps (fun σ : Kern => (σ.cpus h).noff) (giveAwayChildren p) := by
  unfold giveAwayChildren
  refine keeps_forEach (fun child => keeps_bind (keeps_read _) fun σ => ?_) _
  exact keeps_ite (keeps_setProc h child _) (keeps_pure _ _)

/-- The operations return at the level of nesting at which they were called. -/
structure MappingOps.Balanced (ops : MappingOps) : Prop where
  vfsrewind : ∀ f, Keeps (fun σ => (σ.cpus h).noff) (ops.vfsrewind f)
  vfswrite : ∀ f a n, Keeps (fun σ => (σ.cpus h).noff) (ops.vfswrite f a n)
  vmunmap : ∀ p a n, Keeps (fun σ => (σ.cpus h).noff) (ops.vmunmap p a n)
  freeVma : ∀ p i, Keeps (fun σ => (σ.cpus h).noff) (ops.freeVma p i)

theorem unmapFiles_keeps {ops : MappingOps} (hops : ops.Balanced h) (p : Nat) :
    Keeps (fun σ : Kern => (σ.cpus h).noff) (unmapFiles ops p) := by
  unfold unmapFiles
  refine keeps_forEach (fun i => keeps_bind (keeps_read _) fun σ => ?_) _
  cases (σ.procTable p).vma i with
  | none => exact keeps_pure _ _
  | some vma =>
    have hrest : Keeps (fun σ : Kern => (σ.cpus h).noff) (do
        ops.vmunmap p vma.addr (pgroundup vma.length / pgsize)
        ops.freeVma p i) :=
      keeps_bind (hops.vmunmap _ _ _) fun _ => hops.freeVma _ _
    cases hshared : vma.shared with
    | false => simpa [hshared] using hrest
    | true =>
      simp only [hshared, if_true]
      exact keeps_bind (hops.vfsrewind _) fun _ => keeps_bind (hops.vfswrite _ _ _) fun _ => hrest

end Keeps

/-- `yield` with no lock held panics in the `curproc` of `prepareSched`. -/
theorem yield_neverSwitches {σ : Kern} {h p : Nat} (hnoff : (σ.cpus h).noff = 0)
    (hcur : (σ.cpus h).proc = some p) : NeverSwitches (yield h) σ := by
  have hout := outer_noff hnoff
  refine neverSwitches_of_ok (runningProc_outer hnoff hcur) ?_
  refine neverSwitches_acquire (by omega) fun τ hτ => ?_
  refine neverSwitches_after (keeps_setProc h p _) fun _ υ hυ => ?_
  exact (prepareSched_nested (by omega)).bind _

/-- `exit` with no lock held panics there too, unless it faults before. -/
theorem exit_neverSwitches {σ : Kern} {h p : Nat} {ops : MappingOps} (status : Int)
    (hnoff : (σ.cpus h).noff = 0) (hcur : (σ.cpus h).proc = some p) (hops : ops.Balanced h) :
    NeverSwitches (exit h ops status) σ := by
  have hout := outer_noff hnoff
  refine neverSwitches_of_ok (runningProc_outer hnoff hcur) ?_
  refine neverSwitches_after (closeFiles_keeps h p) fun _ τ1 h1 => ?_
  refine neverSwitches_after (keeps_setProc h p _) fun _ τ2 h2 => ?_
  refine neverSwitches_after (giveAwayChildren_keeps h p) fun _ τ3 h3 => ?_
  refine neverSwitches_after (unmapFiles_keeps h hops p) fun _ τ4 h4 => ?_
  refine neverSwitches_after (keeps_setProc h p _) fun _ τ5 h5 => ?_
  refine neverSwitches_after (keeps_setProc h p _) fun _ τ6 h6 => ?_
  refine neverSwitches_of_ok (read_apply τ6) ?_
  refine neverSwitches_after (wakeup_keeps h _) fun _ τ7 h7 => ?_
  refine neverSwitches_acquire (by omega) fun τ8 h8 => ?_
  exact (prepareSched_nested h8).bind _

/-- No caller gets to `pswitch`: neither `sleep` under one lock nor `yield` or `exit`
under none. -/
theorem no_caller_switches (h p : Nat) :
    (∀ σ chan lock, Entry h p [lock] σ →
      ¬ (ReachesSwitch h p (sleep h chan lock) σ ∧
        ReturnsHolding p [lock] (sleep h chan lock) σ)) ∧
    (∀ σ, Entry h p [] σ →
      ¬ (ReachesSwitch h p (yield h) σ ∧ ReturnsHolding p [] (yield h) σ)) ∧
    (∀ σ ops status, Entry h p [] σ → ops.Balanced h →
      ¬ ReachesSwitch h p (exit h ops status) σ) := by
  refine ⟨?_, ?_, ?_⟩
  · rintro σ chan lock hentry ⟨hreach, _⟩
    have hnoff : 1 ≤ (σ.cpus h).noff := by rw [hentry.noff]; simp
    exact (sleep_neverSwitches chan lock hnoff).not_reachesSwitch hreach
  · rintro σ hentry ⟨hreach, _⟩
    exact (yield_neverSwitches hentry.noff hentry.current).not_reachesSwitch hreach
  · rintro σ ops status hentry hops hreach
    exact (exit_neverSwitches status hentry.noff hentry.current hops).not_reachesSwitch hreach

/-- Process 1 runs on hart 0 with no lock held. -/
def soloKern : Kern :=
  { bootKern with
    cpus := fun h => ⟨if h = 0 then some 1 else none, 0, false⟩
    procTable := fun i =>
      ⟨if i = 1 then .running else .unused, none, .null, 0, [], fun _ => none, fun _ => none⟩ }

theorem soloKern_entry : Entry 0 1 [] soloKern := by
  refine ⟨rfl, by decide, fun l => ?_, rfl, fun h => absurd h (by decide)⟩
  simp [Kern.Holds, soloKern, bootKern]

theorem no_caller_switches_solo :
    ¬ (ReachesSwitch 0 1 (yield 0) soloKern ∧ ReturnsHolding 1 [] (yield 0) soloKern) :=
  (no_caller_switches 0 1).2.1 soloKern soloKern_entry

/-- `yield` of the only process panics. -/
theorem yield_panics_solo : ¬ ∀ (h p : Nat) (σ : Kern), Entry h p [] σ →
    ReachesSwitch h p (yield h) σ ∧ ReturnsHolding p [] (yield h) σ := by
  intro hall
  have hnever : NeverSwitches (yield 0) soloKern :=
    yield_neverSwitches soloKern_entry.noff soloKern_entry.current
  exact hnever.not_reachesSwitch (hall 0 1 soloKern soloKern_entry).1

end PageFaultOS
