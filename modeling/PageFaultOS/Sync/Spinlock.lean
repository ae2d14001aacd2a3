import Mathlib.Tactic
import PageFaultOS.Sync.Intr

/-! The spinlock of `sync/spinlock.cpp`. `acquire` and `release` are made of the
accesses to shared memory that another hart can come between. -/

namespace PageFaultOS
open Exec Exec.Comp

def setLock (l : LockId) (f : Spinlock → Spinlock) : KernComp Unit :=
  modify fun σ => { σ with locks := Function.update σ.locks l (f (σ.locks l)) }

/-- Lock `l` is locked and points to the `struct cpu` of hart `h`. -/
def Kern.Holds (σ : Kern) (h : Nat) (l : LockId) : Prop :=
  (σ.locks l).locked = true ∧ (σ.locks l).cpu = some h

instance (σ : Kern) (h : Nat) (l : LockId) : Decidable (σ.Holds h l) :=
  inferInstanceAs (Decidable (_ ∧ _))

def holding (h : Nat) (l : LockId) : KernComp Bool := do
  let σ ← read
  pure (decide (σ.Holds h l))

/-- `acquire` up to its loop. -/
def acquireEnter (h : Nat) (l : LockId) : KernComp Unit := do
  pushOff h
  if ← holding h l then
    Comp.panic "acquire"

/-- `__sync_lock_test_and_set(&lock->locked, 1)`. -/
def testAndSet (l : LockId) : KernComp Bool := do
  let σ ← read
  setLock l fun lock => { lock with locked := true }
  pure (σ.locks l).locked

def lockCpu (h : Nat) (l : LockId) : KernComp Unit :=
  setLock l fun lock => { lock with cpu := some h }

/-- The loop spins on a word that only another hart could clear. -/
def acquire (h : Nat) (l : LockId) : KernComp Unit := do
  acquireEnter h l
  if ← testAndSet l then
    fault .diverge
  else
    lockCpu h l

/-- `release` up to the store that frees the lock. -/
def releaseEnter (h : Nat) (l : LockId) : KernComp Unit := do
  if ← holding h l then
    setLock l fun lock => { lock with cpu := none }
  else
    Comp.panic "release"

def lockRelease (l : LockId) : KernComp Unit :=
  setLock l fun lock => { lock with locked := false }

def release (h : Nat) (l : LockId) : KernComp Unit := do
  releaseEnter h l
  lockRelease l
  popOff h

/-- The state after `acquire` of a lock that is free. -/
def acquired (σ : Kern) (h : Nat) (l : LockId) : Kern :=
  { pushed σ h with locks := Function.update σ.locks l ⟨true, some h⟩ }

theorem acquire_free {σ : Kern} {h : Nat} {l : LockId} (hmax : (σ.cpus h).noff ≠ intMax)
    (hfree : (σ.locks l).locked = false) : acquire h l σ = .ok () (acquired σ h l) := by
  have hlocks : (pushed σ h).locks = σ.locks := rfl
  have hnot : ¬ (pushed σ h).Holds h l := by
    rintro ⟨hlocked, _⟩
    rw [hlocks, hfree] at hlocked
    cases hlocked
  unfold acquire acquireEnter
  rw [bind_assoc_apply, bind_ok (pushOff_eq σ h hmax)]
  simp [holding, testAndSet, lockCpu, setLock, bind_apply, hnot, hlocks, hfree, acquired]

theorem acquire_max {σ : Kern} {h : Nat} (l : LockId) (hmax : (σ.cpus h).noff = intMax) :
    acquire h l σ = .fault (.undefined "noff += 1")
      { σ with sie := Function.update σ.sie h false } := by
  unfold acquire acquireEnter
  rw [bind_assoc_apply, bind_fault (pushOff_max σ h hmax)]

/-- A lock that is taken is not acquired on one hart alone. -/
theorem acquire_locked {σ : Kern} {h : Nat} {l : LockId} (hlocked : (σ.locks l).locked = true) :
    ∃ f s, acquire h l σ = .fault f s := by
  by_cases hmax : (σ.cpus h).noff = intMax
  · exact ⟨_, _, acquire_max l hmax⟩
  · have hlocks : (pushed σ h).locks = σ.locks := rfl
    unfold acquire acquireEnter
    rw [bind_assoc_apply, bind_ok (pushOff_eq σ h hmax)]
    by_cases hself : (pushed σ h).Holds h l
    · simp [holding, bind_apply, hself]
    · simp [holding, testAndSet, setLock, bind_apply, hself, hlocks, hlocked]

/-- `acquire` returns one level deeper. -/
theorem acquire_noff {σ σ' : Kern} {h : Nat} {l : LockId} (hrun : acquire h l σ = .ok () σ') :
    (σ'.cpus h).noff = (σ.cpus h).noff + 1 := by
  cases hlocked : (σ.locks l).locked with
  | true =>
    obtain ⟨f, s, hfault⟩ := acquire_locked (h := h) hlocked
    rw [hfault] at hrun
    cases hrun
  | false =>
    by_cases hmax : (σ.cpus h).noff = intMax
    · rw [acquire_max l hmax] at hrun
      cases hrun
    · rw [acquire_free hmax hlocked] at hrun
      cases hrun
      simp [acquired, pushed]

end PageFaultOS
