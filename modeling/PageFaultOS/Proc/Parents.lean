import Mathlib.Tactic
import PageFaultOS.Proc.Family

/-! Parents. Every process but `initproc` has a parent in the table, and what is reaped is
a zombie that is nobody's parent. -/

namespace PageFaultOS

structure FamilyInv (w : Family) : Prop where
  unused : ∀ i, (w.table i).state = .unused → (w.table i).parent = none
  waits : WaitsForOwn w

section Change
variable {w w' : Family}

/-- A change that keeps the parents, and leaves no entry unused that was not. -/
private theorem FamilyInv.of_parents (hI : FamilyInv w)
    (hparent : ∀ i, (w'.table i).parent = (w.table i).parent)
    (hunused : ∀ i, (w'.table i).state = .unused → (w.table i).state = .unused)
    (hwaits : ∀ p pid vaddr, w'.pending p = .waiting (.wait4 pid vaddr) →
      (w.table pid).parent = some p) : FamilyInv w' := by
  refine ⟨fun i hi => ?_, fun p pid vaddr hp => ?_⟩
  · rw [hparent]
    exact hI.unused i (hunused i hi)
  · rw [hparent]
    exact hwaits p pid vaddr hp

theorem familyInv_change (hI : FamilyInv w) (h : FamilyChange w w') : FamilyInv w' := by
  cases h with
  | schedule h =>
    exact hI.of_parents (fun i => (h i).parent) (fun i => (h i).unused_iff.mp) hI.waits
  | @fork p i hp hi =>
    have hnone := hI.unused i hi.2.2
    refine ⟨fun j hj => ?_, fun q pid vaddr hq => ?_⟩
    · rw [fork_table] at hj ⊢
      split at hj
      · cases hj
      · rename_i hji
        rw [if_neg hji]
        exact hI.unused j hj
    · rw [fork_pending] at hq
      split at hq
      · cases hq
      · have hpid := hI.waits q pid vaddr hq
        rw [fork_table, if_neg, hpid]
        intro heq
        rw [heq, hnone] at hpid
        cases hpid
  | @exitBegin p status hp =>
    refine ⟨fun i hi => ?_, fun q pid vaddr hq => ?_⟩
    · obtain ⟨hstate, _, hparent⟩ := exitBegin_entry w p i status
      rw [hstate] at hi
      have hnone := hI.unused i hi
      rw [hparent, hnone]
      simp
    · have hqp : q ≠ p := by
        intro heq
        subst heq
        simp [Family.exitBegin, Family.setPending] at hq
      have hq' : w.pending q = .waiting (.wait4 pid vaddr) := by
        simpa [Family.exitBegin, Family.setPending, Family.setEntry, hqp] using hq
      have hpid := hI.waits q pid vaddr hq'
      rw [(exitBegin_entry w p pid status).2.2, hpid, if_neg]
      rintro ⟨_, heq⟩
      exact hqp (Option.some.inj heq)
  | @exitEnd p status hpend hrun =>
    refine hI.of_parents (fun i => (exitEnd_entry w p i status).1) (fun i hi => ?_)
      fun q pid vaddr hq => ?_
    · have h := (exitEnd_entry w p i status).2
      split at h
      · rw [h.1] at hi
        cases hi
      · exact h.unused_iff.mp hi
    · have hq' : (w.setPending p .none).pending q = .waiting (.wait4 pid vaddr) := hq
      rw [setPending_apply] at hq'
      split at hq'
      · cases hq'
      · exact hI.waits q pid vaddr hq'
  | @returns p r hrun =>
    refine hI.of_parents (fun _ => rfl) (fun _ h => h) fun q pid vaddr hq => ?_
    have hq' : (w.setPending p .none).pending q = .waiting (.wait4 pid vaddr) := hq
    rw [setPending_apply] at hq'
    split at hq'
    · cases hq'
    · exact hI.waits q pid vaddr hq'
  | @sleepIn p k hrun hk =>
    have hsleep := fun i => sleepIn_rescheduled (k := k) hrun i
    refine hI.of_parents (fun i => (hsleep i).parent) (fun i => (hsleep i).unused_iff.mp)
      fun q pid vaddr hq => ?_
    · have hq' : (w.setPending p (.waiting k)).pending q = .waiting (.wait4 pid vaddr) := hq
      rw [setPending_apply] at hq'
      split at hq'
      · rename_i hqp
        cases hq'
        rw [hqp]
        exact hk pid vaddr rfl
      · exact hI.waits q pid vaddr hq'
  | shift i =>
    exact hI.of_parents (fun j => (shift_same w i j).2)
      (fun j hj => by rwa [(shift_same w i j).1] at hj) hI.waits
  | @reap p i word hrun hz hparent =>
    refine ⟨fun j hj => ?_, fun q pid vaddr hq => ?_⟩
    · rw [reap_table] at hj ⊢
      split
      · rfl
      · rename_i hji
        rw [if_neg hji] at hj
        exact hI.unused j hj
    · have hq' : (w.setPending p .none).pending q = .waiting (.wait4 pid vaddr) := hq
      rw [setPending_apply] at hq'
      split at hq'
      · cases hq'
      · rename_i hqp
        have hpid := hI.waits q pid vaddr hq'
        rw [reap_table, if_neg, hpid]
        intro heq
        rw [heq, hparent] at hpid
        exact hqp (Option.some.inj hpid).symm

theorem familyInv_changes (hI : FamilyInv w) (h : FamilyChanges w w') : FamilyInv w' := by
  induction h with
  | refl => exact hI
  | tail _ hchange ih => exact familyInv_change ih hchange

end Change

/-! ## Every parent is alive -/

def Pending.Exiting (k : Pending) : Prop := ∃ status, k = .exiting status

structure ParentsInv (w : Family) : Prop extends FamilyInv w where
  range : ∀ i, NPROC ≤ i → (w.table i).state = .unused
  init : (w.table w.initproc).parent = none ∧ (w.table w.initproc).state ≠ .unused
  hasParent : ∀ i, i ≠ w.initproc → (w.table i).state ≠ .unused →
    ∃ j, (w.table i).parent = some j
  parentUsed : ∀ i j, (w.table i).parent = some j → (w.table j).state ≠ .unused
  /-- Once it is in `exit`, a process other than `initproc` is nobody's parent. -/
  childless : ∀ i j, (w.table i).parent = some j → j ≠ w.initproc →
    (w.table j).state ≠ .zombie ∧ ¬ (w.pending j).Exiting
  reaped : ∀ r ∈ w.reaped, r.before.state = .zombie ∧ r.pointing = []

section Parents
variable {w w' : Family}

/-- A change that keeps the parents and which entries are used, and makes no zombie and puts
nobody into `exit`. -/
private theorem ParentsInv.of_parents (hI : ParentsInv w) (hF : FamilyInv w')
    (hinit : w'.initproc = w.initproc)
    (hparent : ∀ i, (w'.table i).parent = (w.table i).parent)
    (hunused : ∀ i, (w'.table i).state = .unused ↔ (w.table i).state = .unused)
    (hzombie : ∀ i, (w'.table i).state = .zombie → (w.table i).state = .zombie)
    (hexit : ∀ i, (w'.pending i).Exiting → (w.pending i).Exiting)
    (hreaped : w'.reaped = w.reaped) : ParentsInv w' := by
  refine { hF with
    range := fun i hi => (hunused i).mpr (hI.range i hi)
    init := ?_
    hasParent := fun i hi hu => ?_
    parentUsed := fun i j hij => ?_
    childless := fun i j hij hj => ?_
    reaped := ?_ }
  · rw [hinit, hparent]
    exact ⟨hI.init.1, fun h => hI.init.2 ((hunused _).mp h)⟩
  · rw [hparent]
    rw [hinit] at hi
    exact hI.hasParent i hi fun h => hu ((hunused i).mpr h)
  · rw [hparent] at hij
    exact fun h => hI.parentUsed i j hij ((hunused j).mp h)
  · rw [hparent] at hij
    rw [hinit] at hj
    obtain ⟨h1, h2⟩ := hI.childless i j hij hj
    exact ⟨fun h => h1 (hzombie j h), fun h => h2 (hexit j h)⟩
  · rw [hreaped]
    exact hI.reaped

private theorem not_exiting_none : ¬ Pending.Exiting .none := by
  rintro ⟨_, h⟩
  cases h

/-- Ending a call, or going to sleep in `wait`, puts nobody into `exit`. -/
private theorem exiting_of_set {p i : Nat} {k : Pending} (hk : ¬ k.Exiting)
    (h : ((w.setPending p k).pending i).Exiting) : (w.pending i).Exiting := by
  rw [setPending_apply] at h
  split at h
  · exact absurd h hk
  · exact h

/-- Nobody's parent is a zombie that has a parent itself. -/
private theorem ParentsInv.pointing_nil (hI : ParentsInv w) {i p : Nat}
    (hz : (w.table i).state = .zombie) (hparent : (w.table i).parent = some p) :
    ∀ j, (w.table j).parent ≠ some i := by
  intro j hj
  have hne : i ≠ w.initproc := by
    intro heq
    rw [heq, hI.init.1] at hparent
    cases hparent
  exact (hI.childless j i hj hne).1 hz

theorem parentsInv_change (hI : ParentsInv w) (h : FamilyChange w w') : ParentsInv w' := by
  have hF := familyInv_change hI.toFamilyInv h
  cases h with
  | schedule h =>
    exact hI.of_parents hF rfl (fun i => (h i).parent) (fun i => (h i).unused_iff)
      (fun i => (h i).zombie_iff.mp) (fun _ h => h) rfl
  | @fork p i hp hi =>
    have hnone := hI.unused i hi.2.2
    have hpi : p ≠ i := by
      intro heq
      have h1 := hp.1
      rw [heq, hi.2.2] at h1
      cases h1
    have hnot : ∀ j, (w.table j).parent ≠ some i := fun j hj => hI.parentUsed j i hj hi.2.2
    have hiinit : i ≠ w.initproc := fun heq => hI.init.2 (heq ▸ hi.2.2)
    refine { hF with
      range := fun j hj => ?_
      init := ?_
      hasParent := fun j hj hu => ?_
      parentUsed := fun j k hjk => ?_
      childless := fun j k hjk hk => ?_
      reaped := hI.reaped }
    · rw [fork_table, if_neg (by have := hi.2.1; omega)]
      exact hI.range j hj
    · show ((w.fork p i).table w.initproc).parent = none ∧
        ((w.fork p i).table w.initproc).state ≠ .unused
      rw [fork_table, if_neg hiinit.symm]
      exact hI.init
    · rw [fork_table] at hu ⊢
      split
      · exact ⟨p, rfl⟩
      · rename_i hji
        rw [if_neg hji] at hu
        exact hI.hasParent j hj hu
    · have hk : k = p ∨ (w.table j).parent = some k := by
        rw [fork_table] at hjk
        split at hjk
        · cases hjk
          exact Or.inl rfl
        · exact Or.inr hjk
      rw [fork_table]
      split
      · exact fun h => by cases h
      · rcases hk with rfl | hk
        · rw [hp.1]
          exact fun h => by cases h
        · exact hI.parentUsed j k hk
    · have hk' : k = p ∨ (w.table j).parent = some k := by
        rw [fork_table] at hjk
        split at hjk
        · cases hjk
          exact Or.inl rfl
        · exact Or.inr hjk
      have hki : k ≠ i := by
        rcases hk' with rfl | hk'
        · exact hpi
        · exact fun heq => hnot j (heq ▸ hk')
      rw [fork_table, if_neg hki, fork_pending]
      rcases hk' with rfl | hk'
      · rw [hp.1, if_pos (Or.inl rfl)]
        exact ⟨(fun h => by cases h), not_exiting_none⟩
      · obtain ⟨h1, h2⟩ := hI.childless j k hk' hk
        refine ⟨h1, ?_⟩
        split
        · exact not_exiting_none
        · exact h2
  | @exitBegin p status hp =>
    have hent := fun i => exitBegin_entry w p i status
    -- a parent that is not `initproc` afterwards was one before, and is not `p`
    have hold : ∀ i j, ((w.exitBegin p status).table i).parent = some j → j ≠ w.initproc →
        (w.table i).parent = some j ∧ j ≠ p := by
      intro i j hij hj
      rw [(hent i).2.2] at hij
      split at hij
      · exact absurd (Option.some.inj hij).symm hj
      · rename_i hnot
        refine ⟨hij, fun heq => hnot ⟨?_, heq ▸ hij⟩⟩
        by_contra hrange
        have hnone := hI.unused i (hI.range i (by omega))
        rw [hnone] at hij
        cases hij
    refine { hF with
      range := fun i hi => (hent i).1.trans (hI.range i hi)
      init := ?_
      hasParent := fun i hi hu => ?_
      parentUsed := fun i j hij => ?_
      childless := fun i j hij hj => ?_
      reaped := hI.reaped }
    · show ((w.exitBegin p status).table w.initproc).parent = none ∧
        ((w.exitBegin p status).table w.initproc).state ≠ .unused
      rw [(hent _).1, (hent _).2.2, hI.init.1]
      exact ⟨by simp, hI.init.2⟩
    · rw [(hent i).1] at hu
      obtain ⟨j, hj⟩ := hI.hasParent i hi hu
      rw [(hent i).2.2]
      split
      · exact ⟨_, rfl⟩
      · exact ⟨j, hj⟩
    · rw [(hent j).1]
      by_cases hj : j = w.initproc
      · rw [hj]
        exact hI.init.2
      · exact hI.parentUsed i j (hold i j hij hj).1
    · obtain ⟨hij', hjp⟩ := hold i j hij hj
      rw [(hent j).1]
      obtain ⟨h1, h2⟩ := hI.childless i j hij' hj
      refine ⟨h1, fun hex => h2 ?_⟩
      have hpend : (w.exitBegin p status).pending j = w.pending j := by
        simp [Family.exitBegin, Family.setPending, Family.setEntry, hjp]
      rwa [hpend] at hex
  | @exitEnd p status hpend hrun =>
    have hent := fun i => exitEnd_entry w p i status
    have hno : ∀ i j, (w.table i).parent = some j → j ≠ w.initproc → j ≠ p := by
      intro i j hij hj heq
      exact (hI.childless i j hij hj).2 ⟨status, heq ▸ hpend⟩
    have hstate : ∀ i, i ≠ p → Rescheduled (w.table i) ((w.exitEnd p status).table i) := by
      intro i hi
      have h := (hent i).2
      rwa [if_neg hi] at h
    have hp : ((w.exitEnd p status).table p).state = .zombie := by
      have h := (hent p).2
      rw [if_pos rfl] at h
      exact h.1
    have hused : ∀ i, (w.table i).state ≠ .unused →
        ((w.exitEnd p status).table i).state ≠ .unused := by
      intro i hu
      by_cases hi : i = p
      · rw [hi, hp]
        exact fun h => by cases h
      · exact fun h => hu ((hstate i hi).unused_iff.mp h)
    refine { hF with
      range := fun i hi => ?_
      init := ?_
      hasParent := fun i hi hu => ?_
      parentUsed := fun i j hij => ?_
      childless := fun i j hij hj => ?_
      reaped := hI.reaped }
    · have hip : i ≠ p := by
        intro heq
        have h1 := hI.range i hi
        rw [heq, hrun] at h1
        cases h1
      exact (hstate i hip).unused_iff.mpr (hI.range i hi)
    · exact ⟨(hent _).1.trans hI.init.1, hused _ hI.init.2⟩
    · rw [(hent i).1]
      refine hI.hasParent i hi fun hu' => ?_
      by_cases hip : i = p
      · rw [hip, hrun] at hu'
        cases hu'
      · exact hu ((hstate i hip).unused_iff.mpr hu')
    · rw [(hent i).1] at hij
      exact hused j (hI.parentUsed i j hij)
    · rw [(hent i).1] at hij
      have hjp := hno i j hij hj
      obtain ⟨h1, h2⟩ := hI.childless i j hij hj
      refine ⟨fun h => h1 ((hstate j hjp).zombie_iff.mp h),
        fun h => h2 (exiting_of_set not_exiting_none h)⟩
  | @returns p r hrun =>
    exact hI.of_parents hF rfl (fun _ => rfl) (fun _ => Iff.rfl) (fun _ h => h)
      (fun i h => exiting_of_set not_exiting_none h) rfl
  | @sleepIn p k hrun hk =>
    have hsleep := fun i => sleepIn_rescheduled (k := k) hrun i
    exact hI.of_parents hF rfl (fun i => (hsleep i).parent) (fun i => (hsleep i).unused_iff)
      (fun i => (hsleep i).zombie_iff.mp)
      (fun i h => exiting_of_set (k := .waiting k) (by rintro ⟨_, h⟩; cases h) h) rfl
  | shift i =>
    exact hI.of_parents hF rfl (fun j => (shift_same w i j).2)
      (fun j => by rw [(shift_same w i j).1]) (fun j h => by rwa [(shift_same w i j).1] at h)
      (fun _ h => h) rfl
  | @reap p i word hrun hz hparent =>
    have hnot := hI.pointing_nil hz hparent
    have hinit : w.initproc ≠ i := by
      intro heq
      rw [← heq, hI.init.1] at hparent
      cases hparent
    refine { hF with
      range := fun j hj => ?_
      init := ?_
      hasParent := fun j hj hu => ?_
      parentUsed := fun j k hjk => ?_
      childless := fun j k hjk hk => ?_
      reaped := ?_ }
    · rw [reap_table]
      split
      · rfl
      · exact hI.range j hj
    · show ((w.reap p i word).table w.initproc).parent = none ∧
        ((w.reap p i word).table w.initproc).state ≠ .unused
      rw [reap_table, if_neg hinit]
      exact hI.init
    · rw [reap_table] at hu ⊢
      split
      · rename_i hji
        rw [if_pos hji] at hu
        exact absurd rfl hu
      · rename_i hji
        rw [if_neg hji] at hu
        exact hI.hasParent j hj hu
    · have hjk' : (w.table j).parent = some k := by
        rw [reap_table] at hjk
        split at hjk
        · cases hjk
        · exact hjk
      have hki : k ≠ i := fun heq => hnot j (heq ▸ hjk')
      rw [reap_table, if_neg hki]
      exact hI.parentUsed j k hjk'
    · have hjk' : (w.table j).parent = some k := by
        rw [reap_table] at hjk
        split at hjk
        · cases hjk
        · exact hjk
      have hki : k ≠ i := fun heq => hnot j (heq ▸ hjk')
      rw [reap_table, if_neg hki]
      obtain ⟨h1, h2⟩ := hI.childless j k hjk' hk
      exact ⟨h1, fun h => h2 (exiting_of_set not_exiting_none h)⟩
    · intro r hr
      rcases List.mem_cons.mp hr with rfl | hr
      · refine ⟨hz, ?_⟩
        simp only [Family.pointing, List.filter_eq_nil_iff, List.mem_range, decide_eq_true_eq]
        exact fun j _ => hnot j
      · exact hI.reaped r hr

theorem parentsInv_changes (hI : ParentsInv w) (h : FamilyChanges w w') : ParentsInv w' := by
  induction h with
  | refl => exact hI
  | tail _ hchange ih => exact parentsInv_change ih hchange

end Parents

/-- The table after `initFirstProc`: only `initproc` is there. -/
structure FamilyBoot (w : Family) : Prop where
  init : w.initproc < NPROC ∧ (w.table w.initproc).state = .runnable
  others : ∀ i, i ≠ w.initproc → (w.table i).state = .unused
  parent : ∀ i, (w.table i).parent = none
  pending : ∀ i, w.pending i = .none
  reaped : w.reaped = []

theorem parentsInv_boot {w : Family} (h : FamilyBoot w) : ParentsInv w := by
  have hno : ∀ {i j : Nat} {P : Prop}, (w.table i).parent = some j → P := by
    intro i j P hij
    rw [h.parent] at hij
    cases hij
  refine
    { unused := fun i _ => h.parent i
      waits := fun p pid vaddr hp => ?_
      range := fun i hi => h.others i fun heq => ?_
      init := ⟨h.parent _, ?_⟩
      hasParent := fun i hi hu => absurd (h.others i hi) hu
      parentUsed := fun i j hij => hno hij
      childless := fun i j hij => hno hij
      reaped := ?_ }
  · rw [h.pending] at hp
    cases hp
  · have := h.init.1
    omega
  · rw [h.init.2]
    exact fun h => by cases h
  · rw [h.reaped]
    simp

/-- In every state that `fork`, `clone`, `exit`, `wait` and `wait4` reach, whoever is in the
table has a parent there, and `freeproc` was applied to zombies that nobody points to. -/
theorem parents_alive {w : Family}
    (h : Run.Reach FamilyBoot (fun w a w' => familyStep w a = some w') Run.anyStep w) :
    (∀ i, i ≠ w.initproc → (w.table i).state ≠ .unused →
      ∃ j, (w.table i).parent = some j ∧ (w.table j).state ≠ .unused) ∧
    ∀ r ∈ w.reaped, r.before.state = .zombie ∧ r.pointing = [] := by
  have hI : ParentsInv w := h.invariant (fun _ => parentsInv_boot)
    fun _ _ _ hI _ hstep => parentsInv_changes hI (familyStep_changes hI.waits hstep)
  refine ⟨fun i hi hu => ?_, hI.reaped⟩
  obtain ⟨j, hj⟩ := hI.hasParent i hi hu
  exact ⟨j, hj, hI.parentUsed i j hj⟩

/-- The table as `initFirstProc` leaves it, with `initproc` in entry 1. -/
def bootFamily : Family where
  table i := ⟨if i = 1 then .runnable else .unused, none, .null, 0, [], fun _ => none, fun _ => none⟩
  initproc := 1
  pending _ := .none
  ret _ := 0
  exited _ := none
  shifts _ := 0
  serial := 0
  reaped := []

theorem bootFamily_boot : FamilyBoot bootFamily := by
  refine ⟨⟨by decide, rfl⟩, fun i hi => ?_, fun _ => rfl, fun _ => rfl, rfl⟩
  exact if_neg hi

/-- `initproc` runs and forks. -/
theorem parents_alive_forked : ∃ w : Family, (w.table 2).state = .runnable ∧
    (∀ i, i ≠ w.initproc → (w.table i).state ≠ .unused →
      ∃ j, (w.table i).parent = some j ∧ (w.table j).state ≠ .unused) ∧
    ∀ r ∈ w.reaped, r.before.state = .zombie ∧ r.pointing = [] :=
  ⟨_, rfl, parents_alive (.runSome [.dispatch 1, .fork 1 2] (.start bootFamily_boot) rfl)⟩

end PageFaultOS
