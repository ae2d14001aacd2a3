import Mathlib.Tactic
import PageFaultOS.Proc.Parents

/-! Exit statuses. `wait` hands out the status as `exit` stored it, `wait4` after it has
shifted it in the table, once for each time it has looked at the child. -/

namespace PageFaultOS

/-- The word that a status becomes when `wait4` has looked at the child `n` times. -/
def shifted (n : Nat) (code : Int) : Int := shiftXstate^[n] code

/-- The child whose status word process `p` is to get from the loop of `k`, and how often
`wait4` has looked at it by then. -/
def target (w : Family) (p : Nat) : WaitCall → Option (Nat × Nat)
  | .wait vaddr =>
    if vaddr = 0 then none
    else match waitScan w.table p (List.range NPROC) false with
      | .zombie i => some (i, w.shifts i)
      | _ => none
  | .wait4 pid vaddr =>
    if vaddr = 0 ∨ (w.table pid).state ≠ .zombie ∨ (w.table pid).parent ≠ some p then none
    else some (pid, w.shifts pid + 1)

/-- The loop that a step goes into, and for whom. -/
def loopOf (w : Family) : FamilyAction → Option (Nat × WaitCall)
  | .wait p k _ => some (p, k)
  | .sysWait p a0 _ => (sysWait a0).map (p, ·)
  | .sysWait4 p a0 a1 _ => (sysWait4 a0 a1).map (p, ·)
  | .resume p _ => match w.pending p with
    | .waiting k => some (p, k)
    | _ => none
  | _ => none

/-- The way of reaping that the others are to agree with. -/
inductive ReapPath where
  | wait | wait4
  deriving DecidableEq, Repr

def ReapPath.encode : ReapPath → Int → Int
  | .wait => id
  | .wait4 => shiftXstate

/-- How often `wait4` may have looked at a child whose status is `code`. A status of 0 is
not changed by a shift, and one that a shift makes 0 not by a second one. -/
def ReapPath.Agrees : ReapPath → Nat → Int → Prop
  | .wait, n, code => n = 0 ∨ code = 0
  | .wait4, n, code => n = 1 ∨ code = 0 ∨ 1 < n ∧ shiftXstate code = 0

/-- A step in which the word that is delivered, if any, has gone through as many shifts. -/
def AgreeingStep (path : ReapPath) (w : Family) (a : FamilyAction) : Prop :=
  ∀ p k i n serial code, loopOf w a = some (p, k) → target w p k = some (i, n) →
    w.exited i = some (serial, code) → path.Agrees n code

/-- What is to hold of the calls of `freeproc` so far: each is for an `exit` of its own, by
the parent of the time, and the words are `f` of the statuses. -/
structure ReapsOk (f : Int → Int) (w : Family) : Prop where
  exited : ∀ r ∈ w.reaped, r.exit.isSome
  once : (w.reaped.map fun r => r.exit.map Prod.fst).Nodup
  parent : ∀ r ∈ w.reaped, r.before.parent = some r.reaper
  word : ∀ r ∈ w.reaped, ∀ word, r.word = some word →
    ∃ serial code, r.exit = some (serial, code) ∧ word = f code

/-- Any table at all in which unused entries have no parent, as `freeproc` leaves them. The
zombies that it starts with count as exited. -/
structure FamilyStart (w : Family) : Prop where
  unused : ∀ i, (w.table i).state = .unused → (w.table i).parent = none
  pending : ∀ i, w.pending i = .none
  zombies : ∀ i, w.exited i =
    if (w.table i).state = .zombie then some (i, (w.table i).xstate) else none
  serial : ∀ i, (w.table i).state = .zombie → i < w.serial
  shifts : ∀ i, w.shifts i = 0
  reaped : w.reaped = []

structure ExitsInv (w : Family) : Prop where
  zombie : ∀ i, (w.table i).state = .zombie ↔ (w.exited i).isSome
  fresh : ∀ i e, w.exited i = some e → e.1 < w.serial
  distinct : ∀ i j e d, w.exited i = some e → w.exited j = some d → e.1 = d.1 → i = j
  xstate : ∀ i e, w.exited i = some e → (w.table i).xstate = shifted (w.shifts i) e.2
  old : ∀ r ∈ w.reaped, ∃ e, r.exit = some e ∧ e.1 < w.serial ∧
    ∀ i d, w.exited i = some d → d.1 ≠ e.1
  once : (w.reaped.map fun r => r.exit.map Prod.fst).Nodup
  parent : ∀ r ∈ w.reaped, r.before.parent = some r.reaper

section Change
variable {w w' : Family}

theorem exitsInv_start (h : FamilyStart w) : ExitsInv w := by
  have hsome : ∀ i e, w.exited i = some e →
      (w.table i).state = .zombie ∧ e = (i, (w.table i).xstate) := by
    intro i e he
    rw [h.zombies] at he
    split at he
    · rename_i hz
      exact ⟨hz, (Option.some.inj he).symm⟩
    · cases he
  refine ⟨fun i => ?_, fun i e he => ?_, fun i j e d he hd heq => ?_, fun i e he => ?_, ?_, ?_, ?_⟩
  · rw [h.zombies]
    split <;> simp_all
  · obtain ⟨hz, rfl⟩ := hsome i e he
    exact h.serial i hz
  · obtain ⟨_, rfl⟩ := hsome i e he
    obtain ⟨_, rfl⟩ := hsome j d hd
    exact heq
  · obtain ⟨_, rfl⟩ := hsome i e he
    rw [h.shifts]
    rfl
  · rw [h.reaped]
    simp
  · rw [h.reaped]
    simp
  · rw [h.reaped]
    simp

/-- A change of the table that makes and unmakes no zombies and keeps their statuses. -/
private theorem ExitsInv.of_table (hI : ExitsInv w) (hexited : w'.exited = w.exited)
    (hshifts : w'.shifts = w.shifts) (hserial : w'.serial = w.serial)
    (hreaped : w'.reaped = w.reaped)
    (hzombie : ∀ i, (w'.table i).state = .zombie ↔ (w.table i).state = .zombie)
    (hxstate : ∀ i, (w.table i).state = .zombie → (w'.table i).xstate = (w.table i).xstate) :
    ExitsInv w' := by
  refine ⟨fun i => ?_, ?_, ?_, fun i e he => ?_, ?_, ?_, ?_⟩
  · rw [hzombie, hexited]
    exact hI.zombie i
  · rw [hexited, hserial]
    exact hI.fresh
  · rw [hexited]
    exact hI.distinct
  · rw [hexited] at he
    rw [hshifts, hxstate i ((hI.zombie i).mpr (by rw [he]; rfl))]
    exact hI.xstate i e he
  · rw [hreaped, hexited, hserial]
    exact hI.old
  · rw [hreaped]
    exact hI.once
  · rw [hreaped]
    exact hI.parent

theorem exitsInv_change (hI : ExitsInv w) (h : FamilyChange w w') : ExitsInv w' := by
  cases h with
  | schedule h =>
    exact hI.of_table rfl rfl rfl rfl (fun i => (h i).zombie_iff) fun i _ => (h i).xstate
  | @fork p i hp hi =>
    refine hI.of_table rfl rfl rfl rfl (fun j => ?_) fun j hj => ?_
    · rw [fork_table]
      split
      · rename_i hji
        rw [hji, hi.2.2]
        exact ⟨(fun h => by cases h), (fun h => by cases h)⟩
      · exact Iff.rfl
    · rw [fork_table]
      split
      · rename_i hji
        rw [hji]
        rfl
      · rfl
  | @exitBegin p status hp =>
    have hent := fun i => exitBegin_entry w p i status
    exact hI.of_table rfl rfl rfl rfl (fun i => by rw [(hent i).1]) fun i _ => (hent i).2.1
  | @exitEnd p status hpend hrun =>
    have hent := fun i => (exitEnd_entry w p i status).2
    have hexited : (w.exitEnd p status).exited =
        Function.update w.exited p (some (w.serial, status)) := rfl
    have hserial : (w.exitEnd p status).serial = w.serial + 1 := rfl
    have hp : w.exited p = none := by
      have hnot : ¬ (w.exited p).isSome := by
        rw [← hI.zombie, hrun]
        exact fun h => by cases h
      simpa using hnot
    -- an exit that is recorded is the new one, or an old one of another entry
    have hcases : ∀ i e, (w.exitEnd p status).exited i = some e →
        (i = p ∧ e = (w.serial, status)) ∨ (i ≠ p ∧ w.exited i = some e) := by
      intro i e he
      rw [hexited, Function.update_apply] at he
      split at he
      · rename_i hip
        exact Or.inl ⟨hip, (Option.some.inj he).symm⟩
      · rename_i hip
        exact Or.inr ⟨hip, he⟩
    refine ⟨fun i => ?_, fun i e he => ?_, fun i j e d he hd heq => ?_, fun i e he => ?_,
      fun r hr => ?_, hI.once, hI.parent⟩
    · have h := hent i
      rw [hexited, Function.update_apply]
      split at h
      · rename_i hip
        rw [if_pos hip, h.1]
        simp
      · rename_i hip
        rw [if_neg hip, h.zombie_iff]
        exact hI.zombie i
    · rw [hserial]
      rcases hcases i e he with ⟨_, rfl⟩ | ⟨_, he'⟩
      · exact Nat.lt_succ_self _
      · exact Nat.lt_succ_of_lt (hI.fresh i e he')
    · rcases hcases i e he with ⟨hip, hnew⟩ | ⟨_, he'⟩
      · rcases hcases j d hd with ⟨hjp, _⟩ | ⟨_, hd'⟩
        · exact hip.trans hjp.symm
        · have hlt := hI.fresh j d hd'
          rw [← heq, hnew] at hlt
          exact absurd hlt (Nat.lt_irrefl _)
      · rcases hcases j d hd with ⟨_, hnew⟩ | ⟨_, hd'⟩
        · have hlt := hI.fresh i e he'
          rw [heq, hnew] at hlt
          exact absurd hlt (Nat.lt_irrefl _)
        · exact hI.distinct i j e d he' hd' heq
    · have h := hent i
      have hshifts : (w.exitEnd p status).shifts = Function.update w.shifts p 0 := rfl
      rw [hshifts, Function.update_apply]
      rcases hcases i e he with ⟨hip, hnew⟩ | ⟨hip, he'⟩
      · rw [if_pos hip] at h ⊢
        rw [h.2, hnew]
        rfl
      · rw [if_neg hip] at h ⊢
        rw [h.xstate]
        exact hI.xstate i e he'
    · obtain ⟨e, hr, hlt, hold⟩ := hI.old r hr
      refine ⟨e, hr, Nat.lt_succ_of_lt hlt, fun i d hd => ?_⟩
      rcases hcases i d hd with ⟨_, hnew⟩ | ⟨_, hd'⟩
      · rw [hnew]
        exact Nat.ne_of_gt hlt
      · exact hold i d hd'
  | @returns p r hrun =>
    exact hI.of_table rfl rfl rfl rfl (fun _ => Iff.rfl) fun _ _ => rfl
  | @sleepIn p k hrun hk =>
    have hsleep := fun i => sleepIn_rescheduled (k := k) hrun i
    exact hI.of_table rfl rfl rfl rfl (fun i => (hsleep i).zombie_iff) fun i _ => (hsleep i).xstate
  | shift i =>
    refine ⟨fun j => ?_, hI.fresh, hI.distinct, fun j e he => ?_, hI.old, hI.once, hI.parent⟩
    · rw [(shift_same w i j).1]
      exact hI.zombie j
    · have hshifts : (w.shift i).shifts = Function.update w.shifts i (w.shifts i + 1) := rfl
      rw [shift_table, hshifts, Function.update_apply]
      split
      · rename_i hji
        subst hji
        rw [shifted, Function.iterate_succ_apply', ← shifted, ← hI.xstate j e he]
      · exact hI.xstate j e he
  | @reap p i word hrun hz hparent =>
    obtain ⟨e, he⟩ := Option.isSome_iff_exists.mp ((hI.zombie i).mp hz)
    have hexited : (w.reap p i word).exited = Function.update w.exited i none := rfl
    have hcases : ∀ j d, (w.reap p i word).exited j = some d → j ≠ i ∧ w.exited j = some d := by
      intro j d hd
      rw [hexited, Function.update_apply] at hd
      split at hd
      · cases hd
      · rename_i hji
        exact ⟨hji, hd⟩
    have hnew : ∀ r ∈ w.reaped, r.exit.map Prod.fst ≠ (w.exited i).map Prod.fst := by
      intro r hr heq
      obtain ⟨d, hd, _, hold⟩ := hI.old r hr
      rw [hd, he] at heq
      exact hold i e he (Option.some.inj heq).symm
    refine ⟨fun j => ?_, fun j d hd => hI.fresh j d (hcases j d hd).2,
      fun j k d f hd hf => hI.distinct j k d f (hcases j d hd).2 (hcases k f hf).2,
      fun j d hd => ?_, fun r hr => ?_, ?_, fun r hr => ?_⟩
    · rw [reap_table, hexited, Function.update_apply]
      split
      · exact ⟨(fun h => by cases h), (fun h => by cases h)⟩
      · exact hI.zombie j
    · obtain ⟨hji, hd⟩ := hcases j d hd
      rw [reap_table, if_neg hji]
      exact hI.xstate j d hd
    · rcases List.mem_cons.mp hr with rfl | hr
      · refine ⟨e, he, hI.fresh i e he, fun j d hd heq => ?_⟩
        obtain ⟨hji, hd⟩ := hcases j d hd
        exact hji (hI.distinct j i d e hd he heq)
      · obtain ⟨d, hd, hlt, hold⟩ := hI.old r hr
        exact ⟨d, hd, hlt, fun j f hf => hold j f (hcases j f hf).2⟩
    · refine List.nodup_cons.mpr ⟨fun hmem => ?_, hI.once⟩
      obtain ⟨r, hr, heq⟩ := List.mem_map.mp hmem
      exact hnew r hr heq
    · rcases List.mem_cons.mp hr with rfl | hr
      · exact hparent
      · exact hI.parent r hr

theorem exitsInv_changes (hI : ExitsInv w) (h : FamilyChanges w w') : ExitsInv w' := by
  induction h with
  | refl => exact hI
  | tail _ hchange ih => exact exitsInv_change ih hchange

end Change

/-! ## The words -/

section Words
variable {w w' : Family} {p : Nat} {k : WaitCall}

/-- A call of `freeproc` from which `p` gets a word is one for the target of the loop. -/
def Delivers (w : Family) (p : Nat) (k : WaitCall) (r : Reaped) : Prop :=
  ∀ word, r.word = some word → ∃ i n, target w p k = some (i, n) ∧ r.exit = w.exited i ∧
    ∀ e, w.exited i = some e → word = shifted n e.2

private theorem collect_reaped {i vaddr : Nat} {copied : Bool} {r : Reaped}
    (hr : r ∈ (w.collect p i vaddr copied).reaped) :
    r ∈ w.reaped ∨ r.exit = w.exited i ∧
      ∀ word, r.word = some word → vaddr ≠ 0 ∧ word = (w.table i).xstate := by
  unfold Family.collect at hr
  split at hr
  · rename_i hv
    split at hr
    · rcases List.mem_cons.mp hr with rfl | hr
      · exact Or.inr ⟨rfl, fun word hword => ⟨hv, (Option.some.inj hword).symm⟩⟩
      · exact Or.inl hr
    · exact Or.inl hr
  · rcases List.mem_cons.mp hr with rfl | hr
    · exact Or.inr ⟨rfl, fun word hword => by cases hword⟩
    · exact Or.inl hr

private theorem waitRound_reaped (hI : ExitsInv w) {copied : Bool} {r : Reaped}
    (hk : ∀ pid vaddr, k = .wait4 pid vaddr → (w.table pid).parent = some p)
    (hr : r ∈ (w.waitRound p k copied).reaped) : r ∈ w.reaped ∨ Delivers w p k r := by
  cases k with
  | wait vaddr =>
    simp only [Family.waitRound] at hr
    cases hscan : waitScan w.table p (List.range NPROC) false with
    | zombie i =>
      rw [hscan] at hr
      rcases collect_reaped hr with hold | ⟨hexit, hword⟩
      · exact Or.inl hold
      · refine Or.inr fun word hw => ?_
        obtain ⟨hv, rfl⟩ := hword word hw
        refine ⟨i, w.shifts i, ?_, hexit, hI.xstate i⟩
        simp [target, hv, hscan]
    | alive =>
      rw [hscan] at hr
      exact Or.inl hr
    | childless =>
      rw [hscan] at hr
      exact Or.inl hr
  | wait4 pid vaddr =>
    simp only [Family.waitRound] at hr
    split at hr
    · rename_i hz
      rcases collect_reaped hr with hold | ⟨hexit, hword⟩
      · exact Or.inl hold
      · refine Or.inr fun word hw => ?_
        obtain ⟨hv, rfl⟩ := hword word hw
        refine ⟨pid, w.shifts pid + 1, ?_, hexit, fun e he => ?_⟩
        · simp [target, hv, hz, hk pid vaddr rfl]
        · rw [shift_table, if_pos rfl, hI.xstate pid e he, shifted, shifted,
            Function.iterate_succ_apply']
    · exact Or.inl hr

private theorem waitCall_reaped (hI : ExitsInv w) {copied : Bool} {r : Reaped}
    (hr : r ∈ (w.waitCall p k copied).reaped) : r ∈ w.reaped ∨ Delivers w p k r := by
  cases k with
  | wait vaddr => exact waitRound_reaped (k := .wait vaddr) hI (fun _ _ h => by cases h) hr
  | wait4 pid vaddr =>
    simp only [Family.waitCall] at hr
    split at hr
    · exact Or.inl hr
    · split at hr
      · exact Or.inl hr
      · rename_i hmine
        refine waitRound_reaped hI (fun pid' vaddr' heq => ?_) hr
        cases heq
        exact not_not.mp hmine

private theorem waitScan_congr {t t' : Nat → Proc}
    (h : ∀ i, (t' i).state = (t i).state ∧ (t' i).parent = (t i).parent) :
    ∀ (l : List Nat) (b : Bool), waitScan t' p l b = waitScan t p l b := by
  intro l
  induction l with
  | nil =>
    intro b
    rfl
  | cons i l ih =>
    intro b
    simp only [waitScan, (h i).1, (h i).2, ih]

/-- `sleep` clears the channel when it returns. -/
private theorem clearChan_same (w : Family) (p i : Nat) :
    Rescheduled (w.table i) ((w.setEntry p fun q => { q with chan := .null }).table i) := by
  rw [setEntry_apply]
  split
  · rename_i hip
    rw [hip]
    exact ⟨rfl, rfl, Or.inl rfl⟩
  · exact rescheduled_refl _

private theorem target_clearChan (w : Family) (p : Nat) (k : WaitCall) :
    target (w.setEntry p fun q => { q with chan := .null }) p k = target w p k := by
  have hsame : ∀ i,
      ((w.setEntry p fun q => { q with chan := .null }).table i).state = (w.table i).state ∧
      ((w.setEntry p fun q => { q with chan := .null }).table i).parent = (w.table i).parent := by
    intro i
    rw [setEntry_apply]
    by_cases hip : i = p
    · subst hip
      simp
    · simp [hip]
  cases k with
  | wait vaddr =>
    simp only [target, waitScan_congr hsame]
    rfl
  | wait4 pid vaddr =>
    simp only [target, hsame]
    rfl

theorem familyStep_reaped (hI : ExitsInv w) (hw : WaitsForOwn w) {a : FamilyAction}
    (hstep : familyStep w a = some w') {r : Reaped} (hr : r ∈ w'.reaped) :
    r ∈ w.reaped ∨ ∃ p k, loopOf w a = some (p, k) ∧ Delivers w p k r := by
  have hcall : ∀ {p k copied}, loopOf w a = some (p, k) → r ∈ (w.waitCall p k copied).reaped →
      r ∈ w.reaped ∨ ∃ p k, loopOf w a = some (p, k) ∧ Delivers w p k r := by
    intro p k copied hloop hmem
    rcases waitCall_reaped hI hmem with hold | hnew
    · exact Or.inl hold
    · exact Or.inr ⟨p, k, hloop, hnew⟩
  cases a with
  | wait p k copied =>
    simp only [familyStep] at hstep
    split at hstep
    · cases hstep
      exact hcall rfl hr
    · cases hstep
  | sysWait p a0 copied =>
    simp only [familyStep] at hstep
    split at hstep
    · obtain ⟨k, hk, rfl⟩ := Option.map_eq_some_iff.mp hstep
      exact hcall (by simp [loopOf, hk]) hr
    · cases hstep
  | sysWait4 p a0 a1 copied =>
    simp only [familyStep] at hstep
    split at hstep
    · obtain ⟨k, hk, rfl⟩ := Option.map_eq_some_iff.mp hstep
      exact hcall (by simp [loopOf, hk]) hr
    · cases hstep
  | resume p copied =>
    cases hpend : w.pending p with
    | waiting k =>
      simp only [familyStep, hpend] at hstep
      split at hstep
      · cases hstep
        have hI' := exitsInv_change hI (.schedule (clearChan_same w p))
        have hmine : ∀ pid vaddr, k = .wait4 pid vaddr →
            ((w.setEntry p fun q => { q with chan := .null }).table pid).parent = some p := by
          intro pid vaddr heq
          rw [(clearChan_same w p pid).parent]
          exact hw p pid vaddr (heq ▸ hpend)
        rcases waitRound_reaped hI' hmine hr with hold | hnew
        · exact Or.inl hold
        · refine Or.inr ⟨p, k, by simp [loopOf, hpend], fun word hword => ?_⟩
          obtain ⟨i, n, htarget, hexit⟩ := hnew word hword
          exact ⟨i, n, (target_clearChan w p k).symm.trans htarget, hexit⟩
      · cases hstep
    | _ => simp [familyStep, hpend] at hstep
  | exitEnd p =>
    cases hpend : w.pending p with
    | exiting status =>
      simp only [familyStep, hpend] at hstep
      split at hstep
      · cases hstep
        exact Or.inl hr
      · cases hstep
    | _ => simp [familyStep, hpend] at hstep
  | wakeup chan =>
    cases hstep
    exact Or.inl hr
  | _ =>
    simp only [familyStep] at hstep
    split at hstep
    · cases hstep
      exact Or.inl hr
    · cases hstep

private theorem shiftXstate_iterate_zero (n : Nat) : shifted n 0 = 0 := by
  induction n with
  | zero => rfl
  | succ n ih => rw [shifted, Function.iterate_succ_apply', ← shifted, ih]; rfl

theorem ReapPath.Agrees.word {path : ReapPath} {n : Nat} {code : Int}
    (h : path.Agrees n code) : shifted n code = path.encode code := by
  cases path with
  | wait =>
    rcases h with rfl | rfl
    · rfl
    · exact shiftXstate_iterate_zero n
  | wait4 =>
    rcases h with rfl | rfl | ⟨hn, hzero⟩
    · rfl
    · exact shiftXstate_iterate_zero n
    · obtain ⟨m, rfl⟩ := Nat.exists_eq_add_of_lt (Nat.zero_lt_of_lt hn)
      rw [Nat.zero_add, shifted, Function.iterate_succ_apply, hzero, ← shifted,
        shiftXstate_iterate_zero]
      exact hzero.symm

end Words

/-- The parts of the invariant that hold in every run. -/
private structure StatusInv (w : Family) : Prop extends ExitsInv w, FamilyInv w

private theorem statusInv_start {w : Family} (h : FamilyStart w) : StatusInv w := by
  refine { exitsInv_start h with unused := h.unused, waits := fun p pid vaddr hp => ?_ }
  rw [h.pending] at hp
  cases hp

private theorem statusInv_step {w w' : Family} {a : FamilyAction} (hI : StatusInv w)
    (hstep : familyStep w a = some w') : StatusInv w' := by
  have hchanges := familyStep_changes hI.waits hstep
  exact { exitsInv_changes hI.toExitsInv hchanges,
    familyInv_changes hI.toFamilyInv hchanges with }

/-- In a run whose steps deliver words that have gone through as many shifts, each exit is
reaped at most once, by the parent, and the words are one function of the exit codes. -/
theorem reaps_agree (path : ReapPath) {w : Family}
    (h : Run.Reach FamilyStart (fun w a w' => familyStep w a = some w') (AgreeingStep path) w) :
    ReapsOk path.encode w := by
  have hI : StatusInv w ∧ ∀ r ∈ w.reaped, ∀ word, r.word = some word →
      ∃ serial code, r.exit = some (serial, code) ∧ word = path.encode code := by
    refine h.invariant
      (I := fun w => StatusInv w ∧ ∀ r ∈ w.reaped, ∀ word, r.word = some word →
        ∃ serial code, r.exit = some (serial, code) ∧ word = path.encode code)
      (fun w h0 => ⟨statusInv_start h0, ?_⟩) fun w a w' hI hok hstep => ?_
    · rw [h0.reaped]
      simp
    · obtain ⟨hI, hwords⟩ := hI
      have hI' := statusInv_step hI hstep
      refine ⟨hI', fun r hr word hword => ?_⟩
      rcases familyStep_reaped hI.toExitsInv hI.waits hstep hr with hold | ⟨p, k, hloop, hnew⟩
      · exact hwords r hold word hword
      · obtain ⟨i, n, htarget, hexit, hshifted⟩ := hnew word hword
        obtain ⟨⟨serial, code⟩, he, _⟩ := hI'.old r hr
        rw [hexit] at he
        refine ⟨serial, code, hexit.trans he, ?_⟩
        rw [hshifted _ he]
        exact (hok p k i n serial code hloop htarget he).word
  refine ⟨fun r hr => ?_, hI.1.once, hI.1.parent, hI.2⟩
  obtain ⟨e, he, _⟩ := hI.1.old r hr
  rw [he]
  rfl

theorem bootFamily_start : FamilyStart bootFamily := by
  have hstate : ∀ i, (bootFamily.table i).state ≠ .zombie := by
    intro i
    show (if i = 1 then ProcState.runnable else .unused) ≠ .zombie
    split <;> exact fun h => by cases h
  refine ⟨fun i _ => rfl, fun i => rfl, fun i => ?_, fun i hi => absurd hi (hstate i),
    fun i => rfl, rfl⟩
  rw [if_neg (hstate i)]
  rfl

/-- `initproc` forks processes 2 and 3, which exit with code 1. -/
def exitOnes : List FamilyAction :=
  [.dispatch 1, .fork 1 2, .fork 1 3, .dispatch 2, .exit 2 1, .exitEnd 2,
    .dispatch 3, .exit 3 1, .exitEnd 3]

private theorem exitOnes_agreeing (path : ReapPath) :
    ∀ a ∈ exitOnes, ∀ w, AgreeingStep path w a := by
  intro a ha w p k i n serial code hloop
  have hnone : loopOf w a = none := by
    simp only [exitOnes, List.mem_cons, List.not_mem_nil, or_false] at ha
    rcases ha with rfl | rfl | rfl | rfl | rfl | rfl | rfl | rfl | rfl <;> rfl
  rw [hnone] at hloop
  cases hloop

/-- `wait` delivers the code of process 2 as it is. -/
theorem reaps_agree_first : ∃ w : Family, w.reaped.map Reaped.word = [some 1] ∧
    ReapsOk ReapPath.wait.encode w := by
  obtain ⟨w, hrun, htarget2, w', hstep, hword⟩ : ∃ w,
      Run.runSome familyStep exitOnes bootFamily = some w ∧
      target w 1 (.wait 4096) = some (2, 0) ∧
      ∃ w', familyStep w (.wait 1 (.wait 4096) true) = some w' ∧
        w'.reaped.map Reaped.word = [some 1] :=
    ⟨_, rfl, rfl, _, rfl, rfl⟩
  have hagree : AgreeingStep .wait w (.wait 1 (.wait 4096) true) := by
    intro p k i n serial code hloop htarget _
    cases hloop
    rw [htarget2] at htarget
    cases htarget
    exact Or.inl rfl
  exact ⟨w', hword, reaps_agree .wait
    (.next (.runSomeOk exitOnes (exitOnes_agreeing .wait) (.start bootFamily_start) hrun) hagree
      hstep)⟩

/-- Process 2 is reaped by `wait`, process 3 by `wait4`: the one word is 1, the other 256. -/
theorem reaps_disagree : ¬ ∃ f : Int → Int, ∀ w,
    Run.Reach FamilyStart (fun w a w' => familyStep w a = some w') Run.anyStep w →
      ReapsOk f w := by
  rintro ⟨f, hf⟩
  obtain ⟨w, hrun, r3, r2, hr, h3, h2, hw3, hw2⟩ : ∃ w,
      Run.runSome familyStep
        (exitOnes ++ [.wait 1 (.wait 4096) true, .wait 1 (.wait4 3 4096) true]) bootFamily =
        some w ∧
      ∃ r3 r2, w.reaped = [r3, r2] ∧ r3.exit = some (1, 1) ∧ r2.exit = some (0, 1) ∧
        r3.word = some 256 ∧ r2.word = some 1 :=
    ⟨_, rfl, _, _, rfl, rfl, rfl, rfl, rfl⟩
  have hok := hf w (.runSome _ (.start bootFamily_start) hrun)
  obtain ⟨_, c3, he3, hf3⟩ := hok.word r3 (by rw [hr]; simp) 256 hw3
  obtain ⟨_, c2, he2, hf2⟩ := hok.word r2 (by rw [hr]; simp) 1 hw2
  rw [h3] at he3
  rw [h2] at he2
  cases he3
  cases he2
  omega

end PageFaultOS
