import Mathlib.Tactic
import PageFaultOS.Lib.Run

/-! The sleep lock of `sync/sleeplock.cpp`. Any number of processes use one lock; a process is
the number in its `pid`. Between `acquire` and `release` or `sleep` a process goes on by itself,
one statement at a time, while the others wait for `lk`. `sleep` gives `lk` up and takes it back
before it returns. A sleeper may come back at any time, so `wakeup` changes nothing. -/

namespace PageFaultOS

/-- `struct sleeplock`, less its name and `lk`. -/
structure Sleeplock where
  locked : Nat
  pid : Nat
  deriving DecidableEq

/-- The lock after `initsleeplock`. -/
def Sleeplock.init : Sleeplock := ⟨0, 0⟩

/-- Where a process is: outside of the functions, or at a statement of one. -/
inductive SleeplockPc where
  | idle
  /-- `acquiresleep`: `while (slk->locked)`, `sleep`, the two stores and `release`. -/
  | acqTest | acqSleep | acqLock | acqPid | acqRelease
  /-- `releasesleep`: the two stores, `wakeup` and `release`. -/
  | relLock | relPid | relWakeup | relRelease
  /-- `holdingsleep`: the test, and `release` with its result. -/
  | holdTest
  | holdRelease (r : Bool)
  deriving DecidableEq

/-- `inside p` is a ghost: `p` has returned from `acquiresleep`, and not called `releasesleep`
since. -/
structure SleepWorld where
  slk : Sleeplock
  lk : Option Nat
  pc : Nat → SleeplockPc
  inside : Nat → Bool

namespace SleepWorld

def goto (w : SleepWorld) (p : Nat) (pc : SleeplockPc) : SleepWorld :=
  { w with pc := Function.update w.pc p pc }

/-- `acquire(&slk->lk)`, which waits while another process has it. -/
def acquire (w : SleepWorld) (p : Nat) (pc : SleeplockPc) : Option SleepWorld :=
  if w.lk = none then some ({ w with lk := some p }.goto p pc) else none

def release (w : SleepWorld) (p : Nat) (pc : SleeplockPc) : SleepWorld :=
  { w with lk := none }.goto p pc

def setInside (w : SleepWorld) (p : Nat) (b : Bool) : SleepWorld :=
  { w with inside := Function.update w.inside p b }

/-- The next statement of process `p`, if it is in a call. -/
def run (w : SleepWorld) (p : Nat) : Option SleepWorld :=
  match w.pc p with
  | .idle => none
  | .acqTest => some (if w.slk.locked ≠ 0 then w.release p .acqSleep else w.goto p .acqLock)
  | .acqSleep => w.acquire p .acqTest
  | .acqLock => some ({ w with slk := { w.slk with locked := 1 } }.goto p .acqPid)
  | .acqPid => some ({ w with slk := { w.slk with pid := p } }.goto p .acqRelease)
  | .acqRelease => some ((w.release p .idle).setInside p true)
  | .relLock => some ({ w with slk := { w.slk with locked := 0 } }.goto p .relPid)
  | .relPid => some ({ w with slk := { w.slk with pid := 0 } }.goto p .relWakeup)
  | .relWakeup => some (w.goto p .relRelease)
  | .relRelease => some (w.release p .idle)
  | .holdTest => some (w.goto p (.holdRelease (w.slk.locked ≠ 0 ∧ w.slk.pid = p)))
  | .holdRelease _ => some (w.release p .idle)

end SleepWorld

inductive SleepAction where
  | acquiresleep (p : Nat)
  | releasesleep (p : Nat)
  | holdingsleep (p : Nat)
  | run (p : Nat)

/-- A call begins when it gets `lk`. Only a process that has the lock calls `releasesleep`. -/
def sleepStep (w : SleepWorld) : SleepAction → Option SleepWorld
  | .acquiresleep p => if w.pc p = .idle then w.acquire p .acqTest else none
  | .releasesleep p =>
    if w.pc p = .idle ∧ w.inside p then (w.setInside p false).acquire p .relLock else none
  | .holdingsleep p => if w.pc p = .idle then w.acquire p .holdTest else none
  | .run p => w.run p

/-- A lock that has been initialised, and that nobody uses. -/
structure SleepStart (w : SleepWorld) : Prop where
  slk : w.slk = .init
  lk : w.lk = none
  idle : ∀ p, w.pc p = .idle
  outside : ∀ p, w.inside p = false

abbrev SleepReach : SleepWorld → Prop :=
  Run.Reach SleepStart (fun w a w' => sleepStep w a = some w') Run.anyStep

/-! ## Who has the lock -/

/-- Here a process has `lk`. -/
def SleeplockPc.critical : SleeplockPc → Bool
  | .idle => false
  | .acqSleep => false
  | _ => true

/-- Here `locked` is set for a process that has not returned from `acquiresleep` yet, or has
called `releasesleep` already. -/
def SleeplockPc.owning : SleeplockPc → Bool
  | .acqPid => true
  | .acqRelease => true
  | .relLock => true
  | _ => false

/-- The process for which `locked` is set. -/
def SleepWorld.Owner (w : SleepWorld) (p : Nat) : Prop := w.inside p = true ∨ (w.pc p).owning = true

/-- What holds in every state: `lk` is had by the one process that is behind an `acquire`, and
`locked` is set for one process, if any. -/
structure SleepInv (w : SleepWorld) : Prop where
  critical : ∀ p, (w.pc p).critical = true ↔ w.lk = some p
  unique : ∀ p q, w.Owner p → w.Owner q → p = q
  locked : w.slk.locked = 1 ∧ (∃ p, w.Owner p) ∨ w.slk.locked = 0 ∧ ∀ p, ¬ w.Owner p
  pid : ∀ p, w.Owner p → w.pc p ≠ .acqPid → w.slk.pid = p
  free : ∀ p, w.pc p = .acqLock ∨ w.pc p = .relPid → w.slk.locked = 0
  left : ∀ p, w.pc p = .relLock ∨ w.pc p = .acqPid → w.inside p = false
  answer : ∀ p r, w.pc p = .holdRelease r → r = w.inside p

theorem SleepStart.inv {w : SleepWorld} (h : SleepStart w) : SleepInv w := by
  have hnobody : ∀ p, ¬ w.Owner p := by
    intro p hp
    rw [SleepWorld.Owner, h.outside, h.idle] at hp
    simp [SleeplockPc.owning] at hp
  refine ⟨fun p => ?_, fun p _ hp => absurd hp (hnobody p), Or.inr ⟨?_, hnobody⟩,
    fun p hp => absurd hp (hnobody p), fun p hp => ?_, fun p _ => h.outside p, fun p r hp => ?_⟩
  · rw [h.idle, h.lk]
    simp [SleeplockPc.critical]
  · rw [h.slk]
    rfl
  · rw [h.idle] at hp
    simp at hp
  · rw [h.idle] at hp
    cases hp

/-- What a step of `p` makes of the lock: `p` has it afterwards, or nobody, or `p` has nothing to
do with it. -/
inductive Hands (w w' : SleepWorld) (p : Nat) : Prop where
  | taken (had : w.slk.locked = 0 ∨ w.Owner p) (has : w'.Owner p) (locked : w'.slk.locked = 1)
      (pid : w'.pc p ≠ .acqPid → w'.slk.pid = p)
  | freed (had : w.slk.locked = 0 ∨ w.Owner p) (has : ¬ w'.Owner p) (locked : w'.slk.locked = 0)
  | apart (had : ¬ w.Owner p) (has : ¬ w'.Owner p) (same : w'.slk = w.slk)

/-- A step of `p`, which has `lk` before it, or gets it. -/
structure StepOf (w w' : SleepWorld) (p : Nat) : Prop where
  others : ∀ q, q ≠ p → w'.pc q = w.pc q ∧ w'.inside q = w.inside q
  before : w.lk = none ∨ w.lk = some p
  after : w'.lk = if (w'.pc p).critical then some p else none
  hands : Hands w w' p
  free : w'.pc p = .acqLock ∨ w'.pc p = .relPid → w'.slk.locked = 0
  left : w'.pc p = .relLock ∨ w'.pc p = .acqPid → w'.inside p = false
  answer : ∀ r, w'.pc p = .holdRelease r → r = w'.inside p

section
variable {w w' : SleepWorld} {p q : Nat}

theorem SleepInv.nobody (h : SleepInv w) (hlocked : w.slk.locked = 0) : ¬ w.Owner q := by
  rcases h.locked with ⟨h1, _⟩ | ⟨_, hnone⟩
  · omega
  · exact hnone q

theorem StepOf.owner_iff (hs : StepOf w w' p) (hq : q ≠ p) : w'.Owner q ↔ w.Owner q := by
  rw [SleepWorld.Owner, SleepWorld.Owner, (hs.others q hq).1, (hs.others q hq).2]

/-- Where `p` gets the lock or gives it up, nobody else has it. -/
theorem StepOf.alone (h : SleepInv w) (hs : StepOf w w' p) (hq : q ≠ p)
    (had : w.slk.locked = 0 ∨ w.Owner p) : ¬ w'.Owner q := by
  rw [hs.owner_iff hq]
  intro ho
  rcases had with hlocked | hp
  · exact h.nobody hlocked ho
  · exact hq (h.unique q p ho hp)

/-- Others are not behind an `acquire`. -/
theorem StepOf.outside (h : SleepInv w) (hs : StepOf w w' p) (hq : q ≠ p) :
    (w'.pc q).critical = false := by
  rw [(hs.others q hq).1]
  cases hc : (w.pc q).critical with
  | false => rfl
  | true =>
    have hlk := (h.critical q).mp hc
    rcases hs.before with hnone | hp
    · rw [hnone] at hlk
      cases hlk
    · rw [hp] at hlk
      exact absurd (Option.some.inj hlk).symm hq

theorem SleepInv.step (h : SleepInv w) (hs : StepOf w w' p) : SleepInv w' := by
  refine ⟨fun q => ?_, fun q r hq hr => ?_, ?_, fun q hq hpc => ?_, fun q hq => ?_, fun q hq => ?_,
    fun q r hq => ?_⟩
  · by_cases heq : q = p
    · rw [heq, hs.after]
      cases (w'.pc p).critical <;> simp
    · rw [hs.outside h heq, hs.after]
      have hne : p ≠ q := fun he => heq he.symm
      cases (w'.pc p).critical <;> simp [hne]
  · -- two owners are the same
    by_cases hqp : q = p
    · by_cases hrp : r = p
      · rw [hqp, hrp]
      · rw [hqp] at hq
        cases hs.hands with
        | taken had _ _ _ => exact absurd hr (hs.alone h hrp had)
        | freed had _ _ => exact absurd hr (hs.alone h hrp had)
        | apart _ has _ => exact absurd hq has
    · by_cases hrp : r = p
      · rw [hrp] at hr
        cases hs.hands with
        | taken had _ _ _ => exact absurd hq (hs.alone h hqp had)
        | freed had _ _ => exact absurd hq (hs.alone h hqp had)
        | apart _ has _ => exact absurd hr has
      · exact h.unique q r ((hs.owner_iff hqp).mp hq) ((hs.owner_iff hrp).mp hr)
  · cases hs.hands with
    | taken had has locked _ => exact Or.inl ⟨locked, p, has⟩
    | freed had has locked =>
      refine Or.inr ⟨locked, fun q hq => ?_⟩
      by_cases hqp : q = p
      · exact has (hqp ▸ hq)
      · exact hs.alone h hqp had hq
    | apart had has same =>
      rw [same]
      refine h.locked.imp (fun ⟨h1, q, hq⟩ => ⟨h1, q, ?_⟩) (fun ⟨h0, hnone⟩ => ⟨h0, fun q hq => ?_⟩)
      · have hqp : q ≠ p := fun he => had (he ▸ hq)
        exact (hs.owner_iff hqp).mpr hq
      · by_cases hqp : q = p
        · exact has (hqp ▸ hq)
        · exact hnone q ((hs.owner_iff hqp).mp hq)
  · by_cases hqp : q = p
    · rw [hqp] at hq hpc ⊢
      cases hs.hands with
      | taken _ _ _ pid => exact pid hpc
      | freed _ has _ => exact absurd hq has
      | apart _ has _ => exact absurd hq has
    · cases hs.hands with
      | taken had _ _ _ => exact absurd hq (hs.alone h hqp had)
      | freed had _ _ => exact absurd hq (hs.alone h hqp had)
      | apart _ _ same =>
        rw [same]
        rw [(hs.others q hqp).1] at hpc
        exact h.pid q ((hs.owner_iff hqp).mp hq) hpc
  · by_cases hqp : q = p
    · exact hs.free (hqp ▸ hq)
    · have hout := hs.outside h hqp
      rcases hq with hq | hq
      · rw [hq] at hout
        cases hout
      · rw [hq] at hout
        cases hout
  · by_cases hqp : q = p
    · rw [hqp] at hq ⊢
      exact hs.left hq
    · have hout := hs.outside h hqp
      rcases hq with hq | hq
      · rw [hq] at hout
        cases hout
      · rw [hq] at hout
        cases hout
  · by_cases hqp : q = p
    · rw [hqp] at hq ⊢
      exact hs.answer r hq
    · have hout := hs.outside h hqp
      rw [hq] at hout
      cases hout

end

/-! ## Steps -/

namespace SleepWorld
variable {w w' : SleepWorld} {p : Nat} {c : SleeplockPc}

theorem owner_goto (hpc : w'.pc = Function.update w.pc p c) (hin : w'.inside = w.inside) :
    w'.Owner p ↔ w.inside p = true ∨ c.owning = true := by
  rw [Owner, hpc, hin, Function.update_self]

/-- A step of `p` that does not touch `inside`. -/
theorem stepOf_goto (hpc : w'.pc = Function.update w.pc p c) (hin : w'.inside = w.inside)
    (before : w.lk = none ∨ w.lk = some p) (after : w'.lk = if c.critical then some p else none)
    (hands : Hands w w' p) (free : c = .acqLock ∨ c = .relPid → w'.slk.locked = 0)
    (left : c = .relLock ∨ c = .acqPid → w.inside p = false)
    (answer : ∀ r, c = .holdRelease r → r = w.inside p) : StepOf w w' p := by
  have hself : w'.pc p = c := by rw [hpc, Function.update_self]
  refine ⟨fun q hq => ⟨?_, ?_⟩, before, ?_, hands, ?_, ?_, ?_⟩
  · rw [hpc, Function.update_of_ne hq]
  · rw [hin]
  · rw [hself, after]
  · rw [hself]
    exact free
  · rw [hself, hin]
    exact left
  · rw [hself, hin]
    exact answer

/-- A step that leaves `locked` and `pid` alone. -/
theorem stepOf_apart (h : SleepInv w) (hpc : w'.pc = Function.update w.pc p c)
    (hin : w'.inside = w.inside) (hslk : w'.slk = w.slk)
    (howning : (w.pc p).owning = false ∧ c.owning = false)
    (before : w.lk = none ∨ w.lk = some p) (after : w'.lk = if c.critical then some p else none)
    (free : c = .acqLock ∨ c = .relPid → w.slk.locked = 0)
    (answer : ∀ r, c = .holdRelease r → r = w.inside p) : StepOf w w' p := by
  have howner : w'.Owner p ↔ w.Owner p := by
    rw [owner_goto hpc hin, Owner, howning.1, howning.2]
  have hleft : c = .relLock ∨ c = .acqPid → w.inside p = false := by
    rintro (rfl | rfl)
    · cases howning.2
    · cases howning.2
  refine stepOf_goto hpc hin before after ?_ ?_ hleft answer
  · by_cases hp : w.Owner p
    · have hlocked : w.slk.locked = 1 := by
        rcases h.locked with ⟨h1, _⟩ | ⟨_, hnone⟩
        · exact h1
        · exact absurd hp (hnone p)
      refine .taken (Or.inr hp) (howner.mpr hp) (by rw [hslk]; exact hlocked) fun _ => ?_
      rw [hslk]
      refine h.pid p hp fun hacq => ?_
      rw [hacq] at howning
      cases howning.1
    · exact .apart hp (fun hp' => hp (howner.mp hp')) hslk
  · rw [hslk]
    exact free

theorem acquire_eq (h : w.acquire p c = some w') :
    w.lk = none ∧ w' = { w with lk := some p }.goto p c := by
  unfold acquire at h
  split at h
  · rename_i hlk
    exact ⟨hlk, (Option.some.inj h).symm⟩
  · cases h

/-- Getting `lk`. -/
theorem stepOf_acquire (h : SleepInv w) (hrun : w.acquire p c = some w')
    (howning : (w.pc p).owning = false ∧ c.owning = false) (hc : c.critical = true)
    (hnone : c ≠ .acqLock ∧ c ≠ .relPid ∧ ∀ r, c ≠ .holdRelease r) : StepOf w w' p := by
  obtain ⟨hlk, rfl⟩ := acquire_eq hrun
  refine stepOf_apart h rfl rfl rfl howning (Or.inl hlk) ?_ (fun hfree => ?_)
    fun r hr => absurd hr (hnone.2.2 r)
  · rw [hc]
    rfl
  · rcases hfree with hfree | hfree
    · exact absurd hfree hnone.1
    · exact absurd hfree hnone.2.1

/-- Giving up `lk`. -/
theorem stepOf_release (h : SleepInv w) (hlk : w.lk = some p) (hc : c = .idle ∨ c = .acqSleep)
    (howning : (w.pc p).owning = false) : StepOf w (w.release p c) p := by
  rcases hc with rfl | rfl
  · exact stepOf_apart h rfl rfl rfl ⟨howning, rfl⟩ (Or.inr hlk) rfl (by simp) (by simp)
  · exact stepOf_apart h rfl rfl rfl ⟨howning, rfl⟩ (Or.inr hlk) rfl (by simp) (by simp)

theorem locked_of_owner (h : SleepInv w) (hp : w.Owner p) : w.slk.locked = 1 := by
  rcases h.locked with ⟨h1, _⟩ | ⟨_, hnone⟩
  · exact h1
  · exact absurd hp (hnone p)

/-- What `holdingsleep` finds. -/
theorem held_iff (h : SleepInv w) (hpc : w.pc p = .holdTest) :
    (w.slk.locked ≠ 0 ∧ w.slk.pid = p) ↔ w.inside p = true := by
  have howning : (w.pc p).owning = false := by rw [hpc]; rfl
  constructor
  · rintro ⟨hlocked, hpid⟩
    rcases h.locked with ⟨_, q, hq⟩ | ⟨h0, _⟩
    · -- the owner is not between the two stores, as `p` has `lk`
      have hne : w.pc q ≠ .acqPid := by
        intro hq'
        have hlkq := (h.critical q).mp (by rw [hq']; rfl)
        have hlkp := (h.critical p).mp (by rw [hpc]; rfl)
        rw [hlkp] at hlkq
        rw [← Option.some.inj hlkq, hpc] at hq'
        cases hq'
      rw [h.pid q hq hne] at hpid
      rcases hpid ▸ hq with hin | hown
      · exact hin
      · rw [howning] at hown
        cases hown
    · exact absurd h0 hlocked
  · intro hin
    have hp : w.Owner p := Or.inl hin
    refine ⟨by rw [locked_of_owner h hp]; decide, h.pid p hp ?_⟩
    rw [hpc]
    decide

theorem run_stepOf (h : SleepInv w) (hrun : w.run p = some w') : StepOf w w' p := by
  have hlk : (w.pc p).critical = true → w.lk = some p := (h.critical p).mp
  unfold run at hrun
  cases hpc : w.pc p with
  | idle =>
    rw [hpc] at hrun
    cases hrun
  | acqSleep =>
    rw [hpc] at hrun
    exact stepOf_acquire h hrun (by rw [hpc]; decide) rfl (by decide)
  | acqTest =>
    rw [hpc] at hrun hlk
    simp only at hrun
    cases hrun
    split
    · exact stepOf_release h (hlk rfl) (Or.inr rfl) (by rw [hpc]; rfl)
    · rename_i hfree
      exact stepOf_apart h rfl rfl rfl ⟨by rw [hpc]; rfl, rfl⟩ (Or.inr (hlk rfl)) (hlk rfl)
        (fun _ => not_not.mp hfree) (by simp)
  | acqLock =>
    rw [hpc] at hrun hlk
    cases hrun
    have hfree := h.free p (Or.inl hpc)
    have hin : w.inside p = false := by
      cases hin : w.inside p with
      | false => rfl
      | true => exact absurd (Or.inl hin) (h.nobody hfree)
    refine stepOf_goto rfl rfl (Or.inr (hlk rfl)) (hlk rfl) ?_ (by simp) (fun _ => hin) (by simp)
    refine .taken (Or.inl hfree) (Or.inr ?_) rfl fun hne => absurd ?_ hne
    · show (Function.update w.pc p SleeplockPc.acqPid p).owning = true
      rw [Function.update_self]
      rfl
    · exact Function.update_self ..
  | acqPid =>
    rw [hpc] at hrun hlk
    cases hrun
    have hp : w.Owner p := Or.inr (by rw [hpc]; rfl)
    refine stepOf_goto rfl rfl (Or.inr (hlk rfl)) (hlk rfl) ?_ (by simp) (by simp) (by simp)
    have hlocked := locked_of_owner h hp
    refine .taken (Or.inr hp) (Or.inr ?_) hlocked fun _ => rfl
    show (Function.update w.pc p SleeplockPc.acqRelease p).owning = true
    rw [Function.update_self]
    rfl
  | acqRelease =>
    rw [hpc] at hrun hlk
    cases hrun
    have hp : w.Owner p := Or.inr (by rw [hpc]; rfl)
    have hlocked := locked_of_owner h hp
    have hself : ((w.release p .idle).setInside p true).pc p = .idle := Function.update_self ..
    have hin : ((w.release p .idle).setInside p true).inside p = true := Function.update_self ..
    refine ⟨fun q hq => ⟨Function.update_of_ne hq .., Function.update_of_ne hq ..⟩,
      Or.inr (hlk rfl), ?_, .taken (Or.inr hp) (Or.inl hin) hlocked fun _ => ?_,
      ?_, ?_, ?_⟩
    · rw [hself]
      rfl
    · exact h.pid p hp (by rw [hpc]; decide)
    · rw [hself]
      simp
    · rw [hself]
      simp
    · rw [hself]
      simp
  | relLock =>
    rw [hpc] at hrun hlk
    cases hrun
    have hp : w.Owner p := Or.inr (by rw [hpc]; rfl)
    refine stepOf_goto rfl rfl (Or.inr (hlk rfl)) (hlk rfl) ?_ (fun _ => rfl) (by simp) (by simp)
    refine .freed (Or.inr hp) (fun hp' => ?_) rfl
    rcases hp' with hin | hown
    · change w.inside p = true at hin
      rw [h.left p (Or.inl hpc)] at hin
      cases hin
    · change (Function.update w.pc p SleeplockPc.relPid p).owning = true at hown
      rw [Function.update_self] at hown
      cases hown
  | relPid =>
    rw [hpc] at hrun hlk
    cases hrun
    have hfree := h.free p (Or.inr hpc)
    refine stepOf_goto rfl rfl (Or.inr (hlk rfl)) (hlk rfl) ?_ (fun _ => hfree) (by simp) (by simp)
    refine .freed (Or.inl hfree) (fun hp' => ?_) hfree
    rcases hp' with hin | hown
    · exact h.nobody hfree (Or.inl hin)
    · change (Function.update w.pc p SleeplockPc.relWakeup p).owning = true at hown
      rw [Function.update_self] at hown
      cases hown
  | relWakeup =>
    rw [hpc] at hrun hlk
    cases hrun
    exact stepOf_apart h rfl rfl rfl ⟨by rw [hpc]; rfl, rfl⟩ (Or.inr (hlk rfl)) (hlk rfl) (by simp)
      (by simp)
  | relRelease =>
    rw [hpc] at hrun hlk
    cases hrun
    exact stepOf_release h (hlk rfl) (Or.inl rfl) (by rw [hpc]; rfl)
  | holdTest =>
    rw [hpc] at hrun hlk
    cases hrun
    refine stepOf_apart h rfl rfl rfl ⟨by rw [hpc]; rfl, rfl⟩ (Or.inr (hlk rfl)) (hlk rfl) (by simp)
      fun r hr => ?_
    rw [← SleeplockPc.holdRelease.inj hr, Bool.eq_iff_iff, decide_eq_true_iff]
    exact held_iff h hpc
  | holdRelease r =>
    rw [hpc] at hrun hlk
    cases hrun
    exact stepOf_release h (hlk rfl) (Or.inl rfl) (by rw [hpc]; rfl)

end SleepWorld

theorem sleepStep_inv {w w' : SleepWorld} {a : SleepAction} (h : SleepInv w)
    (hstep : sleepStep w a = some w') : SleepInv w' := by
  have hidle : ∀ p, w.pc p = .idle → (w.pc p).owning = false := fun p hp => by rw [hp]; rfl
  cases a with
  | run p => exact h.step (SleepWorld.run_stepOf h hstep)
  | acquiresleep p =>
    simp only [sleepStep] at hstep
    split at hstep
    · rename_i hpc
      exact h.step (SleepWorld.stepOf_acquire h hstep ⟨hidle p hpc, rfl⟩ rfl (by decide))
    · cases hstep
  | holdingsleep p =>
    simp only [sleepStep] at hstep
    split at hstep
    · rename_i hpc
      exact h.step (SleepWorld.stepOf_acquire h hstep ⟨hidle p hpc, rfl⟩ rfl (by decide))
    · cases hstep
  | releasesleep p =>
    simp only [sleepStep] at hstep
    split at hstep
    · rename_i hpc
      obtain ⟨hlk, rfl⟩ := SleepWorld.acquire_eq hstep
      have hp : w.Owner p := Or.inl hpc.2
      have hself : (({ w.setInside p false with lk := some p } : SleepWorld).goto p .relLock).pc p =
          .relLock := Function.update_self ..
      have hlocked := SleepWorld.locked_of_owner h hp
      refine h.step (p := p) ⟨fun q hq => ⟨Function.update_of_ne hq .., Function.update_of_ne hq ..⟩,
        Or.inl hlk, ?_, .taken (Or.inr hp) (Or.inr ?_) hlocked fun _ => ?_, ?_, ?_, ?_⟩
      · rw [hself]
        rfl
      · rw [hself]
        rfl
      · refine h.pid p hp ?_
        rw [hpc.1]
        decide
      · rw [hself]
        simp
      · exact fun _ => Function.update_self ..
      · rw [hself]
        simp
    · cases hstep

theorem SleepReach.inv {w : SleepWorld} (h : SleepReach w) : SleepInv w :=
  Run.Reach.invariant (fun _ h0 => h0.inv) (fun _ _ _ hw _ hstep => sleepStep_inv hw hstep) h

/-! ## Exclusion -/

/-- A process is between returning from `acquiresleep` and calling `releasesleep`, or, while it
has `lk`, between setting `locked` and returning, or between calling and clearing `locked`. Where
nobody has `lk`, only the first is possible. -/
theorem SleepInv.owner_free {w : SleepWorld} (h : SleepInv w) (hlk : w.lk = none) (p : Nat) :
    w.Owner p ↔ w.inside p = true := by
  refine ⟨fun hp => hp.elim id fun hown => ?_, Or.inl⟩
  have hcritical : (w.pc p).critical = true := by
    cases hpc : w.pc p <;> rw [hpc] at hown <;> first | rfl | cases hown
  rw [(h.critical p).mp hcritical] at hlk
  cases hlk

/-- At most one process has the lock. While it does, `locked` is `1` and `pid` is its `pid`; `locked`
is `1` exactly while a process has the lock, or is just getting it or giving it up, which nobody
sees without `lk`. `holdingsleep` is true for the process that has the lock, and for no other. -/
theorem sleeplock_excludes (w : SleepWorld) (h : SleepReach w) :
    (∀ p q, w.inside p = true → w.inside q = true → p = q) ∧
    (∀ p, w.inside p = true → w.slk.locked = 1 ∧ w.slk.pid = p) ∧
    (w.slk.locked = 1 ↔ ∃ p, w.Owner p) ∧
    (w.lk = none → (w.slk.locked = 1 ↔ ∃ p, w.inside p = true)) ∧
    (∀ p r, w.pc p = .holdRelease r → (r = true ↔ w.inside p = true)) := by
  have hinv := h.inv
  have hlocked : w.slk.locked = 1 ↔ ∃ p, w.Owner p := by
    refine ⟨fun h1 => ?_, fun ⟨p, hp⟩ => SleepWorld.locked_of_owner hinv hp⟩
    rcases hinv.locked with ⟨_, howner⟩ | ⟨h0, _⟩
    · exact howner
    · omega
  refine ⟨fun p q hp hq => hinv.unique p q (Or.inl hp) (Or.inl hq), fun p hp => ?_, hlocked,
    fun hlk => ?_, fun p r hpc => ?_⟩
  · have howner : w.Owner p := Or.inl hp
    refine ⟨SleepWorld.locked_of_owner hinv howner, hinv.pid p howner fun hacq => ?_⟩
    rw [hinv.left p (Or.inr hacq)] at hp
    cases hp
  · rw [hlocked]
    exact exists_congr (hinv.owner_free hlk)
  · rw [hinv.answer p r hpc]

/-- Process `1` takes the lock, and has it. -/
theorem sleeplock_excludes_taken : ∃ w : SleepWorld, w.inside 1 = true ∧ w.slk.locked = 1 ∧
    w.slk.pid = 1 := by
  have hstart : SleepStart ⟨.init, none, fun _ => .idle, fun _ => false⟩ :=
    ⟨rfl, rfl, fun _ => rfl, fun _ => rfl⟩
  have hvalue : (Run.runSome sleepStep [.acquiresleep 1, .run 1, .run 1, .run 1, .run 1]
      ⟨.init, none, fun _ => .idle, fun _ => false⟩).map (fun w => w.inside 1) = some true := by
    decide
  obtain ⟨w, hrun, hin⟩ := Option.map_eq_some_iff.mp hvalue
  have hreach : SleepReach w := Run.Reach.runSome _ (.start hstart) hrun
  exact ⟨w, hin, (sleeplock_excludes w hreach).2.1 1 hin⟩

end PageFaultOS
