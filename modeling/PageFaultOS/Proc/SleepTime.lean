import Mathlib.Tactic
import PageFaultOS.Lib.Run

/-! `sleepTime` of `proc/proc.cpp` and the counter `ticks` of `sync/timer.cpp`. `sleep` gives
`tickslock` up, a sleeper may be woken at any time, and `timer_tick` waits while the call has the
lock. -/

namespace PageFaultOS

/-- Where the call is. In `test` and `release` it has `tickslock`, and `sleep` is the call of
`sleep`, which takes the lock back before it returns. -/
inductive SleepTimePc where
  | enter
  | acquire (now : BitVec 64)
  | test (now : BitVec 64)
  | sleep (now : BitVec 64)
  | release
  | returned

/-- `elapsed` is a ghost: the ticks since the call was entered. -/
structure SleepTimeWorld where
  ticks : BitVec 32
  pc : SleepTimePc
  elapsed : Nat

inductive SleepTimeAction where
  | timerTick
  | run

namespace SleepTimeWorld

/-- The next step of `sleepTime(sleepTicks)`. -/
def run (sleepTicks : BitVec 64) (w : SleepTimeWorld) : Option SleepTimeWorld :=
  match w.pc with
  | .enter => some { w with pc := .acquire (w.ticks.setWidth 64) }
  | .acquire now => some { w with pc := .test now }
  | .test now =>
    if w.ticks.setWidth 64 - now < sleepTicks then some { w with pc := .sleep now }
    else some { w with pc := .release }
  | .sleep now => some { w with pc := .acquire now }
  | .release => some { w with pc := .returned }
  | .returned => none

/-- `timer_tick`, where `wakeup` changes nothing that is kept here. -/
def timerTick (w : SleepTimeWorld) : Option SleepTimeWorld :=
  match w.pc with
  | .test _ | .release => none
  | _ => some { w with ticks := w.ticks + 1, elapsed := w.elapsed + 1 }

end SleepTimeWorld

def sleepTimeStep (sleepTicks : BitVec 64) (w : SleepTimeWorld) :
    SleepTimeAction → Option SleepTimeWorld
  | .timerTick => w.timerTick
  | .run => w.run sleepTicks

abbrev SleepTimeReach (entry : BitVec 32) (sleepTicks : BitVec 64) : SleepTimeWorld → Prop :=
  Run.Reach (fun w => w = ⟨entry, .enter, 0⟩)
    (fun w a w' => sleepTimeStep sleepTicks w a = some w') Run.anyStep

/-- Whenever the call returns, at least `sleepTicks` ticks have happened. -/
def SleepsLongEnough (entry : BitVec 32) (sleepTicks : BitVec 64) : Prop :=
  ∀ w, SleepTimeReach entry sleepTicks w → w.pc = .returned → sleepTicks.toNat ≤ w.elapsed

/-! ## Without a wrap -/

/-- The value that the call has read. -/
def SleepTimePc.now : SleepTimePc → Option (BitVec 64)
  | .acquire now | .test now | .sleep now => some now
  | _ => none

def SleepTimePc.leaves : SleepTimePc → Bool
  | .release | .returned => true
  | _ => false

/-- The counter has gone on by the ticks that have happened, and by no more of them when the call
read it. -/
structure SleepTimeInv (entry : BitVec 32) (sleepTicks : BitVec 64) (w : SleepTimeWorld) :
    Prop where
  ticks : w.ticks.toNat = (entry.toNat + w.elapsed) % 2 ^ 32
  now : ∀ now, w.pc.now = some now →
    ∃ k ≤ w.elapsed, now.toNat = (entry.toNat + k) % 2 ^ 32
  leaves : w.pc.leaves → sleepTicks.toNat ≤ w.elapsed

section
variable {entry : BitVec 32} {sleepTicks now : BitVec 64} {w w' : SleepTimeWorld}

/-- Until the counter wraps the difference is the number of ticks, and by then they are enough. -/
theorem elapsed_enough {k e : Nat} (hsum : entry.toNat + sleepTicks.toNat ≤ 2 ^ 32) (hk : k ≤ e)
    {ticks : BitVec 32} (hticks : ticks.toNat = (entry.toNat + e) % 2 ^ 32)
    (hnow : now.toNat = (entry.toNat + k) % 2 ^ 32)
    (hexit : ¬ ticks.setWidth 64 - now < sleepTicks) : sleepTicks.toNat ≤ e := by
  by_cases hwrap : entry.toNat + e < 2 ^ 32
  · have hdiff : (ticks.setWidth 64 - now).toNat = e - k := by
      rw [BitVec.toNat_sub, BitVec.toNat_setWidth, hticks, hnow]
      omega
    rw [BitVec.lt_def, hdiff] at hexit
    omega
  · omega

theorem SleepTimeInv.timerTick (h : SleepTimeInv entry sleepTicks w)
    (hstep : w.timerTick = some w') : SleepTimeInv entry sleepTicks w' := by
  have hnext : SleepTimeInv entry sleepTicks
      { w with ticks := w.ticks + 1, elapsed := w.elapsed + 1 } := by
    refine ⟨?_, fun now hnow => ?_, fun hleaves => Nat.le_succ_of_le (h.leaves hleaves)⟩
    · show (w.ticks + 1).toNat = (entry.toNat + (w.elapsed + 1)) % 2 ^ 32
      have hone : (1 : BitVec 32).toNat = 1 := rfl
      rw [BitVec.toNat_add, h.ticks, hone]
      omega
    · obtain ⟨k, hk, hval⟩ := h.now now hnow
      exact ⟨k, Nat.le_succ_of_le hk, hval⟩
  unfold SleepTimeWorld.timerTick at hstep
  split at hstep
  · cases hstep
  · cases hstep
  · cases hstep
    exact hnext

theorem SleepTimeInv.run (h : SleepTimeInv entry sleepTicks w)
    (hsum : entry.toNat + sleepTicks.toNat ≤ 2 ^ 32) (hstep : w.run sleepTicks = some w') :
    SleepTimeInv entry sleepTicks w' := by
  unfold SleepTimeWorld.run at hstep
  cases hpc : w.pc with
  | enter =>
    simp only [hpc] at hstep
    cases hstep
    refine ⟨h.ticks, fun now hnow => ⟨w.elapsed, Nat.le_refl _, ?_⟩, nofun⟩
    cases hnow
    rw [BitVec.toNat_setWidth, h.ticks]
    omega
  | acquire now =>
    simp only [hpc] at hstep
    cases hstep
    exact ⟨h.ticks, fun now' hnow => h.now now' (by rw [hpc]; exact hnow), nofun⟩
  | test now =>
    have hread := h.now now (by rw [hpc]; rfl)
    simp only [hpc] at hstep
    split at hstep
    case isTrue =>
      cases hstep
      exact ⟨h.ticks, fun now' hnow => h.now now' (by rw [hpc]; exact hnow), nofun⟩
    case isFalse hexit =>
      cases hstep
      obtain ⟨k, hk, hval⟩ := hread
      exact ⟨h.ticks, nofun, fun _ => elapsed_enough hsum hk h.ticks hval hexit⟩
  | sleep now =>
    simp only [hpc] at hstep
    cases hstep
    exact ⟨h.ticks, fun now' hnow => h.now now' (by rw [hpc]; exact hnow), nofun⟩
  | release =>
    simp only [hpc] at hstep
    cases hstep
    exact ⟨h.ticks, nofun, fun _ => h.leaves (by rw [hpc]; rfl)⟩
  | returned => simp [hpc] at hstep

theorem sleepsLongEnough_of_le (hsum : entry.toNat + sleepTicks.toNat ≤ 2 ^ 32) :
    SleepsLongEnough entry sleepTicks := by
  intro w hreach hpc
  have hinv : SleepTimeInv entry sleepTicks w := by
    refine hreach.invariant (fun s hs => ?_) fun s a t hI _ hstep => ?_
    · subst hs
      refine ⟨?_, nofun, nofun⟩
      have hlt := entry.isLt
      exact (Nat.mod_eq_of_lt hlt).symm
    · cases a with
      | timerTick => exact hI.timerTick hstep
      | run => exact hI.run hsum hstep
  exact hinv.leaves (by rw [hpc]; rfl)

/-! ## Across a wrap -/

/-- The call has read the counter, and ticks happen before it gets the lock. -/
theorem reach_ticks (entry : BitVec 32) (sleepTicks : BitVec 64) (k : Nat) :
    SleepTimeReach entry sleepTicks ⟨entry + BitVec.ofNat 32 k, .acquire (entry.setWidth 64), k⟩ := by
  induction k with
  | zero =>
    have hread : SleepTimeReach entry sleepTicks ⟨entry, .acquire (entry.setWidth 64), 0⟩ :=
      .next (a := SleepTimeAction.run) (.start rfl) trivial rfl
    rwa [show entry + BitVec.ofNat 32 0 = entry from BitVec.add_zero entry]
  | succ k ih =>
    refine ih.next (a := SleepTimeAction.timerTick) trivial ?_
    rw [BitVec.ofNat_add, ← BitVec.add_assoc]
    rfl

/-- The first tick that brings the counter to 0 makes the difference larger than any
`sleepTicks`. -/
theorem not_sleepsLongEnough (hn : sleepTicks.toNat < 2 ^ 32)
    (hsum : 2 ^ 32 < entry.toNat + sleepTicks.toNat) : ¬ SleepsLongEnough entry sleepTicks := by
  intro hlong
  have hentry := entry.isLt
  have hwrap : entry + BitVec.ofNat 32 (2 ^ 32 - entry.toNat) = 0 := by
    apply BitVec.eq_of_toNat_eq
    rw [BitVec.toNat_add, BitVec.toNat_ofNat]
    show _ = 0
    omega
  have hticks := reach_ticks entry sleepTicks (2 ^ 32 - entry.toNat)
  rw [hwrap] at hticks
  have hexit : ¬ (0 : BitVec 32).setWidth 64 - entry.setWidth 64 < sleepTicks := by
    rw [BitVec.lt_def, BitVec.toNat_sub, BitVec.toNat_setWidth, BitVec.toNat_setWidth]
    show ¬ (2 ^ 64 - entry.toNat % 2 ^ 64 + 0 % 2 ^ 64) % 2 ^ 64 < sleepTicks.toNat
    omega
  have htest := hticks.next (a := SleepTimeAction.run) trivial rfl
  have hleave : (⟨0, .test (entry.setWidth 64), 2 ^ 32 - entry.toNat⟩ : SleepTimeWorld).run
      sleepTicks = some ⟨0, .release, 2 ^ 32 - entry.toNat⟩ := if_neg hexit
  have hrelease := htest.next (a := SleepTimeAction.run) trivial hleave
  have hreturned := hrelease.next (a := SleepTimeAction.run) trivial rfl
  have henough := hlong _ hreturned rfl
  have hless : 2 ^ 32 - entry.toNat < sleepTicks.toNat := by omega
  exact absurd henough (Nat.not_le.mpr hless)

end

/-- The call sleeps long enough just when the counter does not wrap before its end. -/
theorem sleepTime_long_enough_iff (entry : BitVec 32) (sleepTicks : BitVec 64)
    (hn : sleepTicks.toNat < 2 ^ 32) :
    SleepsLongEnough entry sleepTicks ↔ entry.toNat + sleepTicks.toNat ≤ 2 ^ 32 := by
  constructor
  · intro hlong
    by_contra hsum
    exact not_sleepsLongEnough hn (Nat.not_le.mp hsum) hlong
  · exact sleepsLongEnough_of_le

/-- 100 ticks from 7 on. -/
theorem sleepTime_long_enough_hundred :
    SleepsLongEnough 7 100 ↔ (7 : BitVec 32).toNat + (100 : BitVec 64).toNat ≤ 2 ^ 32 :=
  sleepTime_long_enough_iff 7 100 (by decide)

/-- A call for five ticks returns after one. -/
theorem sleepTime_wraps : ¬ ∀ (entry : BitVec 32) (sleepTicks : BitVec 64),
    sleepTicks.toNat < 2 ^ 32 → SleepsLongEnough entry sleepTicks := by
  intro hall
  have hshort : ¬ SleepsLongEnough 0xffffffff 5 := not_sleepsLongEnough (by decide) (by decide)
  exact hshort (hall 0xffffffff 5 (by decide))

end PageFaultOS
