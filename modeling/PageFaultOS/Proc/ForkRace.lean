import Mathlib.Tactic
import PageFaultOS.Lib.Run
import PageFaultOS.Proc.LockBalance

/-! The slots of `procTable` that `allocproc` of `proc/proc.cpp` hands out: one call of it with
its locks, and any number of calls of `fork` and `clone` that interrupt each other. -/

namespace PageFaultOS
open Exec Exec.Comp

/-! ## One call -/

/-- `allocproc` returns, with no slot only where none is free, and otherwise with a free one. -/
def AllocprocMeets (env : OtherHarts) (h : Nat) (w : LockWorld) : Prop :=
  (LockWorld.allocproc env h w).Holds
    (fun r _ => match r with
      | none => ∀ i, 1 ≤ i → i < NPROC → (w.kern.procTable i).state ≠ .unused
      | some i => 1 ≤ i ∧ i < NPROC ∧ (w.kern.procTable i).state = .unused)
    fun _ _ => False

section
variable {env : OtherHarts} {h p : Nat} {held : List LockId} {w : LockWorld}

/-- Below the end of `procTable` the test of the loop always succeeds: a free slot ends in
`kalloc` with `p->lock` held, and without one the loop leaves the table. -/
theorem allocproc_below (henv : env.Spare h) (hentry : Entry h p held w.kern)
    (hbelow : env.procBelow = true) :
    LockWorld.Leaves (LockWorld.allocproc env h) w fun _ _ => False := by
  unfold LockWorld.allocproc
  refine Res.holds_loop (I := fun _ w => Entry h p held w.kern) (fun i w1 h1 => ?_)
    (fun _ _ _ => trivial) _ _ w hentry
  unfold LockWorld.allocprocRound
  rw [if_neg (by simp [hbelow])]
  split
  · trivial
  · refine LockWorld.Leaves.bind (LockWorld.acquire_entry henv h1) fun _ w2 h2 => ?_
    rw [LockWorld.Leaves, read_bind]
    split
    · unfold LockWorld.allocprocFound
      refine LockWorld.Leaves.bind (P := fun _ _ => False) ?_ fun _ _ hf => hf.elim
      exact (LockWorld.kalloc_deep henv h2 (by simp)).bind fun _ _ hf => hf.elim
    · exact (LockWorld.release_last h2).bind fun _ w3 h3 => h3

theorem allocproc_above (hbelow : env.procBelow = false) :
    LockWorld.allocproc env h w = .ok none w := by
  have hround : LockWorld.allocprocRound env h 1 w = .ok (.inr none) w := by
    unfold LockWorld.allocprocRound
    rw [if_pos hbelow]
    rfl
  exact loop_done hround NPROC

theorem allocproc_meets_iff (henv : env.Spare h) (hentry : Entry h p held w.kern) :
    AllocprocMeets env h w ↔ env.procBelow = false ∧
      ∀ i, 1 ≤ i → i < NPROC → (w.kern.procTable i).state ≠ .unused := by
  unfold AllocprocMeets
  cases hbelow : env.procBelow with
  | true =>
    have hnever := allocproc_below henv hentry hbelow
    refine iff_of_false (fun hmeets => ?_) (by simp)
    cases hrun : LockWorld.allocproc env h w with
    | ok r w' =>
      rw [LockWorld.Leaves, hrun] at hnever
      exact hnever
    | fault f w' =>
      rw [hrun] at hmeets
      exact hmeets
  | false =>
    rw [allocproc_above hbelow]
    simp

end

/-! ## Many calls -/

/-- What a slot goes through: a call of `allocproc` returns it, it becomes `RUNNABLE`, and
`freeproc` makes it `UNUSED` again. -/
inductive SlotEvent where
  | returned (c p : Nat)
  | runnable (p : Nat)
  | freed (p : Nat)
  deriving DecidableEq

/-- Where a call of `fork` or `clone` is. In `test` and `found` it holds the lock of the slot;
in `copy` it has the slot from `allocproc`, and in `failed` it has returned behind an `Uvmcopy`
that failed. -/
inductive ForkPc where
  | scan (p : Nat)
  | test (p : Nat)
  | found (p : Nat)
  | copy (p : Nat)
  | failed (p : Nat)
  | done
  | panic

/-- What becomes of `kalloc`, which gives `kmem.lock` back while `p->lock` is held. -/
inductive FrameResult where
  | panics | null | page
  deriving DecidableEq, Repr

/-- The newest event of `log` comes first. -/
structure ForkRace where
  state : Nat → ProcState
  lock : Nat → Option Nat
  pc : Nat → ForkPc
  log : List SlotEvent

/-- The steps of call `c`, and what the rest of the kernel does to a slot that is in use. -/
inductive ForkAction where
  | loop (c : Nat)
  | test (c : Nat)
  | kalloc (c : Nat) (r : FrameResult)
  | uvmcopy (c : Nat) (ok : Bool)
  | other (p : Nat) (state : ProcState)
  | freeproc (p : Nat)

namespace ForkRace

def goto (s : ForkRace) (c : Nat) (pc : ForkPc) : ForkRace :=
  { s with pc := Function.update s.pc c pc }

def setLock (s : ForkRace) (p : Nat) (l : Option Nat) : ForkRace :=
  { s with lock := Function.update s.lock p l }

def setState (s : ForkRace) (p : Nat) (state : ProcState) : ForkRace :=
  { s with state := Function.update s.state p state }

def event (s : ForkRace) (e : SlotEvent) : ForkRace := { s with log := e :: s.log }

/-- `below` is the test of the loop of `allocproc`. Behind the end of the table there is no step,
and none while another call has the lock. -/
def step (below : Bool) (s : ForkRace) : ForkAction → Option ForkRace
  | .loop c => match s.pc c with
    | .scan p =>
      if below = false then some (s.goto c .done)
      else if p < NPROC ∧ s.lock p = none then some ((s.setLock p (some c)).goto c (.test p))
      else none
    | _ => none
  | .test c => match s.pc c with
    | .test p =>
      if s.state p = .unused then some (s.goto c (.found p))
      else some ((s.goto c (.scan (p + 1))).setLock p none)
    | _ => none
  | .kalloc c r => match s.pc c, r with
    | .found _, .panics => some (s.goto c .panic)
    | .found p, .null => some ((s.goto c .done).setLock p none)
    | .found p, .page => some (((s.event (.returned c p)).goto c (.copy p)).setLock p none)
    | _, _ => none
  | .uvmcopy c ok => match s.pc c with
    | .copy p =>
      if ok then some (((s.setState p .runnable).event (.runnable p)).goto c .done)
      else some (s.goto c (.failed p))
    | _ => none
  | .other p state =>
    if s.state p ≠ .unused ∧ state ≠ .unused then some (s.setState p state) else none
  | .freeproc p =>
    if s.state p = .zombie then some ((s.setState p .unused).event (.freed p)) else none

/-- Any table, with every call in front of the loop. -/
structure Start (s : ForkRace) : Prop where
  pc : ∀ c, s.pc c = .scan 1
  lock : ∀ p, s.lock p = none
  log : s.log = []

end ForkRace

/-- The slot that the call has from `allocproc` and has not made `RUNNABLE`. -/
def ForkPc.slot : ForkPc → Option Nat
  | .copy p | .failed p => some p
  | _ => none

/-- The slot whose lock the call holds. -/
def ForkPc.locked : ForkPc → Option Nat
  | .test p | .found p => some p
  | _ => none

def ForkRace.Granted (s : ForkRace) (p : Nat) : Prop := ∃ c, (s.pc c).slot = some p

/-- No call of `allocproc` looks at a slot that a call has and that is not `RUNNABLE` yet. -/
def TestsNoGranted (s : ForkRace) : ForkAction → Prop
  | .test c => ∀ p, s.pc c = .test p → ¬ s.Granted p
  | _ => True

def RanAndFreed (p : Nat) (log : List SlotEvent) : Prop :=
  ∃ newer between older, log = newer ++ .freed p :: (between ++ .runnable p :: older)

/-- A slot that two calls get has been `RUNNABLE` and then freed between the two. -/
def HandedOutOnce (log : List SlotEvent) : Prop :=
  ∀ newest d between c oldest p,
    log = newest ++ .returned d p :: (between ++ .returned c p :: oldest) → c ≠ d →
      RanAndFreed p between

/-! ### The log -/

/-- `Q` holds of what has happened since slot `p` was returned, each time it was. -/
def Since (Q : List SlotEvent → Prop) (p : Nat) (log : List SlotEvent) : Prop :=
  ∀ newer c older, log = newer ++ .returned c p :: older → Q newer

section Log
variable {Q R : List SlotEvent → Prop} {log : List SlotEvent} {e : SlotEvent} {c p q : Nat}

theorem Since.cons (h : Since Q p log) (he : ∀ c, e ≠ .returned c p)
    (hnext : ∀ newer, Q newer → R (e :: newer)) : Since R p (e :: log) := by
  intro newer c older heq
  cases newer with
  | nil =>
    cases heq
    exact absurd rfl (he c)
  | cons f newer =>
    cases heq
    exact hnext newer (h newer c older rfl)

theorem since_nil (Q : List SlotEvent → Prop) (p : Nat) : Since Q p [] := by
  intro newer c older heq
  simp at heq

theorem RanAndFreed.cons (h : RanAndFreed p log) (e : SlotEvent) : RanAndFreed p (e :: log) := by
  obtain ⟨newer, between, older, rfl⟩ := h
  exact ⟨e :: newer, between, older, rfl⟩

theorem ranAndFreed_freed (h : .runnable p ∈ log) : RanAndFreed p (.freed p :: log) := by
  obtain ⟨between, older, rfl⟩ := List.append_of_mem h
  exact ⟨[], between, older, rfl⟩

theorem since_runnable (log : List SlotEvent) (p : Nat) :
    Since (.runnable p ∈ ·) p (.runnable p :: log) := by
  intro newer c older heq
  cases newer with
  | nil => cases heq
  | cons f newer =>
    cases heq
    exact List.mem_cons_self

theorem handedOutOnce_nil : HandedOutOnce [] := by
  intro newest d between c oldest p heq
  simp at heq

theorem HandedOutOnce.returned (h : HandedOutOnce log) (hback : Since (RanAndFreed p) p log) :
    HandedOutOnce (.returned c p :: log) := by
  intro newest d between c' oldest q heq hne
  cases newest with
  | nil =>
    cases heq
    exact hback between c' oldest rfl
  | cons f newest =>
    cases heq
    exact h newest d between c' oldest q rfl hne

theorem HandedOutOnce.cons (h : HandedOutOnce log) (he : ∀ c p, e ≠ .returned c p) :
    HandedOutOnce (e :: log) := by
  intro newest d between c oldest p heq hne
  cases newest with
  | nil =>
    cases heq
    exact absurd rfl (he d p)
  | cons f newest =>
    cases heq
    exact h newest d between c oldest p rfl hne

end Log

/-! ### The invariant -/

structure ForkOk (s : ForkRace) : Prop where
  once : HandedOutOnce s.log
  held : ∀ c p, (s.pc c).locked = some p → s.lock p = some c
  found : ∀ c p, s.pc c = .found p → s.state p = .unused ∧ ¬ s.Granted p
  back : ∀ p, s.state p = .unused → ¬ s.Granted p → Since (RanAndFreed p) p s.log
  ran : ∀ p, s.state p ≠ .unused → Since (.runnable p ∈ ·) p s.log

namespace ForkRace
variable {s t : ForkRace} {c d p q : Nat} {pc : ForkPc}

theorem goto_self : (s.goto c pc).pc c = pc := Function.update_self ..

theorem goto_other (h : d ≠ c) : (s.goto c pc).pc d = s.pc d := Function.update_of_ne h ..

theorem setState_self {state : ProcState} : (s.setState p state).state p = state :=
  Function.update_self ..

theorem setState_other {state : ProcState} (h : q ≠ p) :
    (s.setState p state).state q = s.state q := Function.update_of_ne h ..

/-- Only what call `c` has can change. -/
theorem granted_goto : (s.goto c pc).Granted p ↔
    pc.slot = some p ∨ ∃ d, d ≠ c ∧ (s.pc d).slot = some p := by
  constructor
  · rintro ⟨d, hd⟩
    by_cases hdc : d = c
    · subst hdc
      rw [goto_self] at hd
      exact .inl hd
    · rw [goto_other hdc] at hd
      exact .inr ⟨d, hdc, hd⟩
  · rintro (hpc | ⟨d, hdc, hd⟩)
    · exact ⟨c, by rwa [goto_self]⟩
    · exact ⟨d, by rwa [goto_other hdc]⟩

theorem granted_iff (c : Nat) : s.Granted p ↔
    (s.pc c).slot = some p ∨ ∃ d, d ≠ c ∧ (s.pc d).slot = some p := by
  have h : (s.goto c (s.pc c)).Granted p ↔ _ := granted_goto
  rwa [goto, Function.update_eq_self] at h

end ForkRace

section Steps
open ForkRace
variable {below : Bool} {s t : ForkRace} {c d p q : Nat} {pc old : ForkPc}

theorem ForkOk.holds (h : ForkOk s) (hpc : s.pc c = pc) (hlocked : pc.locked = some p) :
    s.lock p = some c := h.held c p (by rwa [hpc])

/-- A call that goes on with what it has. -/
theorem ForkOk.goto (h : ForkOk s) (hold : s.pc c = old) (hslot : pc.slot = old.slot)
    (hlocked : ∀ p, pc.locked = some p → s.lock p = some c)
    (hfound : ∀ p, pc = .found p → s.state p = .unused ∧ ¬ s.Granted p) :
    ForkOk (s.goto c pc) := by
  have hgranted : ∀ p, (s.goto c pc).Granted p ↔ s.Granted p := by
    intro p
    rw [granted_goto, granted_iff c, hold, hslot]
  refine ⟨h.once, fun d p hd => ?_, fun d p hd => ?_, fun p hp hnot => ?_, h.ran⟩
  · by_cases hdc : d = c
    · subst hdc
      rw [goto_self] at hd
      exact hlocked p hd
    · rw [goto_other hdc] at hd
      exact h.held d p hd
  · rw [hgranted]
    by_cases hdc : d = c
    · subst hdc
      rw [goto_self] at hd
      exact hfound p hd
    · rw [goto_other hdc] at hd
      exact h.found d p hd
  · rw [hgranted] at hnot
    exact h.back p hp hnot

theorem ForkOk.lock (h : ForkOk s) (hfree : s.lock p = none) (c : Nat) :
    ForkOk (s.setLock p (some c)) := by
  refine ⟨h.once, fun d q hd => ?_, h.found, h.back, h.ran⟩
  have hheld := h.held d q hd
  have hne : q ≠ p := by
    rintro rfl
    rw [hfree] at hheld
    cases hheld
  exact (Function.update_of_ne hne ..).trans hheld

/-- The call that has the lock gives it back. -/
theorem ForkOk.unlock (h : ForkOk s) (hlock : s.lock p = some c) (hpc : (s.pc c).locked = none) :
    ForkOk (s.setLock p none) := by
  refine ⟨h.once, fun d q hd => ?_, h.found, h.back, h.ran⟩
  have hheld := h.held d q hd
  have hne : q ≠ p := by
    rintro rfl
    cases hlock.symm.trans hheld
    cases hpc.symm.trans hd
  exact (Function.update_of_ne hne ..).trans hheld

/-- `allocproc` returns the slot that it has found. -/
theorem ForkOk.returned (h : ForkOk s) (hpc : s.pc c = .found p) :
    ForkOk ((s.event (.returned c p)).goto c (.copy p)) := by
  obtain ⟨hunused, hnot⟩ := h.found c p hpc
  have hgranted : ∀ q, q ≠ p →
      (((s.event (.returned c p)).goto c (.copy p)).Granted q ↔ s.Granted q) := by
    intro q hq
    rw [granted_goto, granted_iff c, hpc]
    simp [ForkPc.slot, event, Ne.symm hq]
  have hevent : ∀ q, q ≠ p → ∀ d, SlotEvent.returned c p ≠ .returned d q := by
    intro q hq d heq
    cases heq
    exact hq rfl
  refine ⟨h.once.returned (h.back p hunused hnot), fun d q hd => ?_, fun d q hd => ?_,
    fun q hq hnotq => ?_, fun q hq => ?_⟩
  · by_cases hdc : d = c
    · subst hdc
      rw [goto_self] at hd
      cases hd
    · rw [goto_other hdc] at hd
      exact h.held d q hd
  · by_cases hdc : d = c
    · subst hdc
      rw [goto_self] at hd
      cases hd
    · rw [goto_other hdc] at hd
      have hlock := h.holds hd rfl
      have hqp : q ≠ p := by
        rintro rfl
        rw [h.holds hpc rfl] at hlock
        cases hlock
        exact hdc rfl
      rw [hgranted q hqp]
      exact h.found d q hd
  · have hqp : q ≠ p := by
      rintro rfl
      exact hnotq (granted_goto.mpr (.inl rfl))
    rw [hgranted q hqp] at hnotq
    exact (h.back q hq hnotq).cons (hevent q hqp) fun newer hnewer => hnewer.cons _
  · have hqp : q ≠ p := by
      rintro rfl
      exact hq hunused
    exact (h.ran q hq).cons (hevent q hqp) fun newer hnewer => List.mem_cons_of_mem _ hnewer

/-- `child->state = RUNNABLE` -/
theorem ForkOk.runnable (h : ForkOk s) (hpc : s.pc c = .copy p) :
    ForkOk (((s.setState p .runnable).event (.runnable p)).goto c .done) := by
  have hp : s.Granted p := ⟨c, by rw [hpc]; rfl⟩
  have hgranted : ∀ q, q ≠ p →
      ((((s.setState p .runnable).event (.runnable p)).goto c .done).Granted q ↔ s.Granted q) := by
    intro q hq
    rw [granted_goto, granted_iff c, hpc]
    simp [ForkPc.slot, event, setState, Ne.symm hq]
  refine ⟨h.once.cons (by simp), fun d q hd => ?_, fun d q hd => ?_, fun q hq hnotq => ?_,
    fun q hq => ?_⟩
  · by_cases hdc : d = c
    · subst hdc
      rw [goto_self] at hd
      cases hd
    · rw [goto_other hdc] at hd
      exact h.held d q hd
  · by_cases hdc : d = c
    · subst hdc
      rw [goto_self] at hd
      cases hd
    · rw [goto_other hdc] at hd
      obtain ⟨hunused, hnot⟩ := h.found d q hd
      have hqp : q ≠ p := fun heq => hnot (heq ▸ hp)
      rw [hgranted q hqp]
      exact ⟨(setState_other hqp).trans hunused, hnot⟩
  · have hqp : q ≠ p := by
      rintro rfl
      have hnow : (s.setState q .runnable).state q = .unused := hq
      rw [setState_self] at hnow
      cases hnow
    rw [hgranted q hqp] at hnotq
    exact (h.back q ((setState_other hqp).symm.trans hq) hnotq).cons (by simp)
      fun newer hnewer => hnewer.cons _
  · by_cases hqp : q = p
    · subst hqp
      exact since_runnable s.log q
    · have hold : s.state q ≠ .unused := fun heq => hq ((setState_other hqp).trans heq)
      exact (h.ran q hold).cons (by simp) fun newer hnewer => List.mem_cons_of_mem _ hnewer

/-- A slot in use stays in use. -/
theorem ForkOk.other {state : ProcState} (h : ForkOk s) (hused : s.state p ≠ .unused)
    (hstate : state ≠ .unused) : ForkOk (s.setState p state) := by
  have hiff : ∀ q, (s.setState p state).state q = .unused ↔ s.state q = .unused := by
    intro q
    by_cases hqp : q = p
    · subst hqp
      rw [setState_self]
      exact iff_of_false hstate hused
    · rw [setState_other hqp]
  refine ⟨h.once, h.held, fun d q hd => ?_, fun q hq => ?_, fun q hq => ?_⟩
  · rw [hiff]
    exact h.found d q hd
  · rw [hiff] at hq
    exact h.back q hq
  · rw [ne_eq, hiff] at hq
    exact h.ran q hq

theorem ForkOk.freed (h : ForkOk s) (hused : s.state p ≠ .unused) :
    ForkOk ((s.setState p .unused).event (.freed p)) := by
  refine ⟨h.once.cons (by simp), h.held, fun d q hd => ?_, fun q hq hnot => ?_, fun q hq => ?_⟩
  · obtain ⟨hunused, hnot⟩ := h.found d q hd
    have hqp : q ≠ p := fun heq => hused (heq ▸ hunused)
    exact ⟨(setState_other hqp).trans hunused, hnot⟩
  · by_cases hqp : q = p
    · subst hqp
      exact (h.ran q hused).cons (by simp) fun newer hnewer => ranAndFreed_freed hnewer
    · exact (h.back q ((setState_other hqp).symm.trans hq) hnot).cons (by simp)
        fun newer hnewer => hnewer.cons _
  · have hqp : q ≠ p := by
      rintro rfl
      exact hq setState_self
    have hold : s.state q ≠ .unused := fun heq => hq ((setState_other hqp).trans heq)
    exact (h.ran q hold).cons (by simp) fun newer hnewer => List.mem_cons_of_mem _ hnewer

theorem forkOk_step {a : ForkAction} (h : ForkOk s) (hok : TestsNoGranted s a)
    (hstep : s.step below a = some t) : ForkOk t := by
  cases a with
  | loop c =>
    simp only [step] at hstep
    cases hpc : s.pc c with
    | scan p =>
      simp only [hpc] at hstep
      split at hstep
      · cases hstep
        exact h.goto hpc rfl (by simp [ForkPc.locked]) (by simp)
      · split at hstep
        case isTrue hlock =>
          cases hstep
          refine (h.lock hlock.2 c).goto hpc rfl (fun q hq => ?_) (by simp)
          cases hq
          exact Function.update_self ..
        case isFalse => cases hstep
    | _ => simp [hpc] at hstep
  | test c =>
    simp only [step] at hstep
    cases hpc : s.pc c with
    | test p =>
      have hlock : s.lock p = some c := h.holds hpc rfl
      simp only [hpc] at hstep
      split at hstep
      case isTrue hunused =>
        cases hstep
        refine h.goto hpc rfl (fun q hq => ?_) fun q hq => ?_
        · cases hq
          exact hlock
        · cases hq
          exact ⟨hunused, hok p hpc⟩
      case isFalse =>
        cases hstep
        have hgo : ForkOk (s.goto c (.scan (p + 1))) :=
          h.goto hpc rfl (by simp [ForkPc.locked]) (by simp)
        exact hgo.unlock (c := c) hlock (by rw [goto_self]; rfl)
    | _ => simp [hpc] at hstep
  | kalloc c r =>
    simp only [step] at hstep
    cases hpc : s.pc c with
    | found p =>
      have hlock : s.lock p = some c := h.holds hpc rfl
      cases r with
      | panics =>
        simp only [hpc] at hstep
        cases hstep
        exact h.goto hpc rfl (by simp [ForkPc.locked]) (by simp)
      | null =>
        simp only [hpc] at hstep
        cases hstep
        have hgo : ForkOk (s.goto c .done) :=
          h.goto hpc rfl (by simp [ForkPc.locked]) (by simp)
        exact hgo.unlock (c := c) hlock (by rw [goto_self]; rfl)
      | page =>
        simp only [hpc] at hstep
        cases hstep
        exact (h.returned hpc).unlock (c := c) hlock (by rw [goto_self]; rfl)
    | _ => simp [hpc] at hstep
  | uvmcopy c ok =>
    simp only [step] at hstep
    cases hpc : s.pc c with
    | copy p =>
      cases ok with
      | true =>
        simp only [hpc, if_true] at hstep
        cases hstep
        exact h.runnable hpc
      | false =>
        simp only [hpc, Bool.false_eq_true, if_false] at hstep
        cases hstep
        exact h.goto hpc rfl (by simp [ForkPc.locked]) (by simp)
    | _ => simp [hpc] at hstep
  | other p state =>
    simp only [step] at hstep
    split at hstep
    case isTrue hused =>
      cases hstep
      exact h.other hused.1 hused.2
    case isFalse => cases hstep
  | freeproc p =>
    simp only [step] at hstep
    split at hstep
    case isTrue hzombie =>
      cases hstep
      exact h.freed (by simp [hzombie])
    case isFalse => cases hstep

theorem forkOk_start (h : s.Start) : ForkOk s := by
  refine ⟨?_, fun c p hc => ?_, fun c p hc => ?_, fun p _ _ => ?_, fun p _ => ?_⟩
  · rw [h.log]
    exact handedOutOnce_nil
  · rw [h.pc c] at hc
    cases hc
  · rw [h.pc c] at hc
    cases hc
  · rw [h.log]
    exact since_nil _ p
  · rw [h.log]
    exact since_nil _ p

end Steps

/-- `allocproc` does what it is to do only where the test of its loop fails at once and no slot
is free. In every run in which no call looks at a slot that another one has and has not made
`RUNNABLE`, no slot is handed out twice. -/
theorem allocproc_hands_out_iff {env : OtherHarts} {h p : Nat} {held : List LockId}
    {w : LockWorld} (henv : env.Spare h) (hentry : Entry h p held w.kern) :
    (AllocprocMeets env h w ↔ env.procBelow = false ∧
      ∀ i, 1 ≤ i → i < NPROC → (w.kern.procTable i).state ≠ .unused) ∧
    ∀ s, Run.Reach ForkRace.Start (fun s a t => s.step env.procBelow a = some t) TestsNoGranted s →
      HandedOutOnce s.log := by
  refine ⟨allocproc_meets_iff henv hentry, fun s hreach => ?_⟩
  exact (hreach.invariant (fun _ => forkOk_start) fun _ _ _ hI hok hstep =>
    forkOk_step hI hok hstep).once

/-- No slot is in use, and every call is in front of the loop. -/
def idleForks : ForkRace := ⟨fun _ => .unused, fun _ => none, fun _ => .scan 1, []⟩

theorem idleForks_start : idleForks.Start := ⟨fun _ => rfl, fun _ => rfl, rfl⟩

/-- Call 0 alone gets the first slot. -/
theorem allocproc_hands_out_alone :
    (AllocprocMeets quietHarts 0 soloWorld ↔ quietHarts.procBelow = false ∧
      ∀ i, 1 ≤ i → i < NPROC → (soloWorld.kern.procTable i).state ≠ .unused) ∧
    ∃ s : ForkRace, s.log = [.runnable 1, .returned 0 1] ∧ HandedOutOnce s.log := by
  have h := allocproc_hands_out_iff (quietHarts_spare 0) (w := soloWorld) soloKern_entry
  have h0 : Run.Reach ForkRace.Start (fun s a t => s.step quietHarts.procBelow a = some t)
      TestsNoGranted idleForks := .start idleForks_start
  have h1 := h0.next (a := ForkAction.loop 0) trivial rfl
  have h2 := h1.next (a := ForkAction.test 0) (fun p _ hgranted => by
    obtain ⟨c, hc⟩ := hgranted
    by_cases hc0 : c = 0
    · subst hc0
      cases hc
    · simp [ForkRace.goto, ForkRace.setLock, idleForks, hc0, ForkPc.slot] at hc) rfl
  have h3 := h2.next (a := ForkAction.kalloc 0 .page) trivial rfl
  have h4 := h3.next (a := ForkAction.uvmcopy 0 true) trivial rfl
  exact ⟨h.1, _, rfl, h.2 _ h4⟩

/-- Process 1 of `soloWorld` in a table without a free slot. -/
def fullWorld : LockWorld :=
  { soloWorld with kern := { soloKern with
      procTable := fun i => { soloKern.procTable i with state := .running } } }

theorem fullWorld_entry : Entry 0 1 [] fullWorld.kern :=
  ⟨soloKern_entry.current, soloKern_entry.inTable, soloKern_entry.holds, soloKern_entry.noff,
    soloKern_entry.off⟩

/-- Call 0 is interrupted in front of its `Uvmcopy`, and call 1 looks at the slot. -/
def forkRaceActions : List ForkAction :=
  [.loop 0, .test 0, .kalloc 0 .page, .loop 1, .test 1, .kalloc 1 .page]

/-- With a full table `allocproc` leaves it, and both calls get the first slot. -/
theorem fork_race : (∀ i, (fullWorld.kern.procTable i).state ≠ .unused) ∧
    ¬ AllocprocMeets quietHarts 0 fullWorld ∧
    ∃ s, Run.Reach ForkRace.Start (fun s a t => s.step quietHarts.procBelow a = some t)
      Run.anyStep s ∧ s.log = [.returned 1 1, .returned 0 1] ∧ ¬ HandedOutOnce s.log := by
  refine ⟨fun _ => ProcState.noConfusion, ?_, ?_⟩
  · rw [allocproc_meets_iff (quietHarts_spare 0) fullWorld_entry]
    simp [quietHarts]
  · have h0 : Run.Reach ForkRace.Start (fun s a t => s.step quietHarts.procBelow a = some t)
        Run.anyStep idleForks := .start idleForks_start
    refine ⟨_, h0.runSome forkRaceActions rfl, rfl, fun honce => ?_⟩
    obtain ⟨newer, between, older, heq⟩ := honce [] 1 [] 0 [] 1 rfl (by decide)
    simp at heq

end PageFaultOS
