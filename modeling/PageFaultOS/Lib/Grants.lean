import Mathlib.Tactic

/-! Slots that are handed out and given back. A process finds a slot that looks free, and hands
it out in a later step: between the two it is pending. The log of a run, newest event first,
says whether a slot was handed out twice without being given back in between. -/

namespace Grants
variable {π ι : Type}

inductive Event (π ι : Type) where
  | grant (p : π) (i : ι)
  | giveBack (i : ι)
  deriving DecidableEq

/-- The slot has been handed out and not been given back since. -/
def Live (log : List (Event π ι)) (i : ι) : Prop :=
  ∃ newer p older, log = newer ++ .grant p i :: older ∧ .giveBack i ∉ newer

/-- Between two grants of a slot it is given back. -/
def Exclusive (log : List (Event π ι)) : Prop :=
  ∀ newest q i between p oldest,
    log = newest ++ .grant q i :: (between ++ .grant p i :: oldest) → .giveBack i ∈ between

variable {log : List (Event π ι)} {i j : ι} {p : π} {e : Event π ι}

theorem exclusive_nil : Exclusive ([] : List (Event π ι)) := by
  intro newest q i between p oldest h
  simp at h

theorem not_live_nil (i : ι) : ¬ Live ([] : List (Event π ι)) i := by
  rintro ⟨newer, p, older, h, _⟩
  simp at h

theorem live_cons_iff : Live (e :: log) i ↔
    (∃ p, e = .grant p i) ∨ e ≠ .giveBack i ∧ Live log i := by
  constructor
  · rintro ⟨newer, p, older, h, hback⟩
    cases newer with
    | nil =>
      cases h
      exact .inl ⟨p, rfl⟩
    | cons f newer =>
      cases h
      refine .inr ⟨fun he => hback (he ▸ List.mem_cons_self), newer, p, older, rfl, fun hmem => ?_⟩
      exact hback (List.mem_cons_of_mem _ hmem)
  · rintro (⟨p, rfl⟩ | ⟨hne, newer, p, older, rfl, hback⟩)
    · exact ⟨[], p, log, rfl, List.not_mem_nil⟩
    · refine ⟨e :: newer, p, older, rfl, fun hmem => ?_⟩
      rcases List.mem_cons.mp hmem with h | h
      · exact hne h.symm
      · exact hback h

theorem live_giveBack (h : Live (.giveBack j :: log) i) : Live log i := by
  rcases live_cons_iff.mp h with ⟨p, hp⟩ | ⟨_, h⟩
  · cases hp
  · exact h

theorem not_live_giveBack (log : List (Event π ι)) (i : ι) : ¬ Live (.giveBack i :: log) i := by
  intro h
  rcases live_cons_iff.mp h with ⟨p, hp⟩ | ⟨hne, _⟩
  · cases hp
  · exact hne rfl

theorem live_grant_of_ne (hne : i ≠ j) (h : Live (.grant p j :: log) i) : Live log i := by
  rcases live_cons_iff.mp h with ⟨q, hq⟩ | ⟨_, h⟩
  · cases hq
    exact absurd rfl hne
  · exact h

theorem Exclusive.tail (h : Exclusive (e :: log)) : Exclusive log :=
  fun newest q i between p oldest heq => h (e :: newest) q i between p oldest (by rw [heq]; rfl)

theorem Exclusive.grant (h : Exclusive log) (hnot : ¬ Live log i) :
    Exclusive (.grant p i :: log) := by
  intro newest q k between r oldest heq
  cases newest with
  | nil =>
    cases heq
    by_contra hback
    exact hnot ⟨between, r, oldest, rfl, hback⟩
  | cons f newest =>
    cases heq
    exact h newest q k between r oldest rfl

theorem Exclusive.giveBack (h : Exclusive log) (i : ι) : Exclusive (.giveBack i :: log) := by
  intro newest q k between r oldest heq
  cases newest with
  | nil => cases heq
  | cons f newest =>
    cases heq
    exact h newest q k between r oldest rfl

/-- A grant of a slot that is live hands it out twice. -/
theorem not_exclusive_grant (h : Live log i) : ¬ Exclusive (.grant p i :: log) := by
  rintro hex
  obtain ⟨newer, q, older, rfl, hback⟩ := h
  exact hback (hex [] p i newer q older rfl)

/-! ## Searching and handing out -/

/-- No slot is pending for two processes, or pending while it is live, and no slot that is live
looks free. -/
structure Ok (free : ι → Prop) (pending : π → ι → Prop) (log : List (Event π ι)) : Prop where
  one : ∀ p q i, pending p i → pending q i → p = q
  apart : ∀ p i, pending p i → ¬ Live log i
  marked : ∀ i, Live log i → ¬ free i
  exclusive : Exclusive log

variable {free free' : ι → Prop} {pending pending' : π → ι → Prop}

theorem ok_start (hpending : ∀ p i, ¬ pending p i) : Ok free pending [] :=
  ⟨fun p _ i h => absurd h (hpending p i), fun p i h => absurd h (hpending p i),
    fun i h => absurd h (not_live_nil i), exclusive_nil⟩

/-- A step that makes no slot pending, and none that is live look free. -/
theorem Ok.mono (h : Ok free pending log) (hpending : ∀ p i, pending' p i → pending p i)
    (hfree : ∀ i, free' i → Live log i → free i) : Ok free' pending' log :=
  ⟨fun p q i hp hq => h.one p q i (hpending p i hp) (hpending q i hq),
    fun p i hp => h.apart p i (hpending p i hp),
    fun i hlive hf => h.marked i hlive (hfree i hf hlive), h.exclusive⟩

/-- Process `p` finds a slot that looks free and is pending for no other. -/
theorem Ok.find (h : Ok free pending log) (hi : free i) (hwindow : ∀ q, q ≠ p → ¬ pending q i)
    (hpending : ∀ q k, pending' q k → q = p ∧ k = i ∨ pending q k) : Ok free pending' log := by
  refine ⟨fun q r k hq hr => ?_, fun q k hq => ?_, h.marked, h.exclusive⟩
  · rcases hpending q k hq with ⟨rfl, rfl⟩ | hq'
    · rcases hpending r k hr with ⟨rfl, _⟩ | hr'
      · rfl
      · by_contra hne
        exact hwindow r (Ne.symm hne) hr'
    · rcases hpending r k hr with ⟨rfl, rfl⟩ | hr'
      · by_contra hne
        exact hwindow q hne hq'
      · exact h.one q r k hq' hr'
  · rcases hpending q k hq with ⟨rfl, rfl⟩ | hq'
    · exact fun hlive => h.marked k hlive hi
    · exact h.apart q k hq'

/-- Process `p` marks the slot that is pending for it, and hands it out. -/
theorem Ok.handOut (h : Ok free pending log) (hp : pending p i) (hmarked : ¬ free' i)
    (hpending : ∀ q k, pending' q k → pending q k ∧ q ≠ p)
    (hfree : ∀ k, k ≠ i → free' k → free k) : Ok free' pending' (.grant p i :: log) := by
  refine ⟨fun q r k hq hr => h.one q r k (hpending q k hq).1 (hpending r k hr).1,
    fun q k hq hlive => ?_, fun k hlive hk => ?_, h.exclusive.grant (h.apart p i hp)⟩
  · obtain ⟨hq', hne⟩ := hpending q k hq
    by_cases hk : k = i
    · subst hk
      exact hne (h.one q p k hq' hp)
    · exact h.apart q k hq' (live_grant_of_ne hk hlive)
  · by_cases hki : k = i
    · subst hki
      exact hmarked hk
    · exact h.marked k (live_grant_of_ne hki hlive) (hfree k hki hk)

/-- A slot is given back. -/
theorem Ok.giveBack (h : Ok free pending log) (i : ι)
    (hpending : ∀ q k, pending' q k → pending q k) (hfree : ∀ k, k ≠ i → free' k → free k) :
    Ok free' pending' (.giveBack i :: log) := by
  refine ⟨fun q r k hq hr => h.one q r k (hpending q k hq) (hpending r k hr),
    fun q k hq hlive => h.apart q k (hpending q k hq) (live_giveBack hlive),
    fun k hlive hk => ?_, h.exclusive.giveBack i⟩
  by_cases hki : k = i
  · subst hki
    exact not_live_giveBack log k hlive
  · exact h.marked k (live_giveBack hlive) (hfree k hki hk)

end Grants
