import Mathlib.Tactic

/-! Machines that emit outputs from step to step, until they stop with a result. -/

namespace Emit
variable {σ ω ρ : Type} {step : σ → List ω × (σ ⊕ ρ)} {p q : σ} {l : List ω} {r : ρ}

/-- The machine goes from `p` to its end, emits `l` and stops with `r`. -/
inductive Emits (step : σ → List ω × (σ ⊕ ρ)) : σ → List ω → ρ → Prop where
  | stop {p : σ} {l : List ω} {r : ρ} (h : step p = (l, .inr r)) : Emits step p l r
  | next {p q : σ} {l l' : List ω} {r : ρ} (h : step p = (l, .inl q)) (hrest : Emits step q l' r) :
      Emits step p (l ++ l') r

/-- The machine comes from one state to another. -/
def Comes (step : σ → List ω × (σ ⊕ ρ)) : σ → σ → Prop :=
  Relation.ReflTransGen fun p q => (step p).2 = .inl q

theorem Comes.invariant {I : σ → Prop} (hstep : ∀ p q, I p → (step p).2 = .inl q → I q)
    (h : Comes step p q) (hp : I p) : I q := by
  induction h with
  | refl => exact hp
  | tail _ hto ih => exact hstep _ _ ih hto

/-- A machine whose steps go down comes to its end. -/
theorem emits_of_measure {I : σ → Prop} (μ : σ → Nat)
    (hstep : ∀ p q, I p → (step p).2 = .inl q → I q ∧ μ q < μ p) (hp : I p) :
    ∃ l r, Emits step p l r := by
  induction hn : μ p using Nat.strong_induction_on generalizing p with
  | _ n ih =>
    subst hn
    rcases hp' : step p with ⟨l, q | r⟩
    · obtain ⟨hq, hlt⟩ := hstep p q hp (by rw [hp'])
      obtain ⟨l', r, hrest⟩ := ih _ hlt hq rfl
      exact ⟨l ++ l', r, .next hp' hrest⟩
    · exact ⟨l, r, .stop hp'⟩

/-- What is emitted is emitted at some state that the machine comes to. -/
theorem Emits.mem_iff {x : ω} (h : Emits step p l r) :
    x ∈ l ↔ ∃ q, Comes step p q ∧ x ∈ (step q).1 := by
  induction h with
  | @stop p l r hstop =>
    constructor
    · intro hx
      exact ⟨p, .refl, by rwa [hstop]⟩
    · rintro ⟨q, hcomes, hx⟩
      rcases hcomes.cases_head with rfl | ⟨q', hto, _⟩
      · rwa [hstop] at hx
      · rw [hstop] at hto
        cases hto
  | @next p q l l' r hnext _ ih =>
    rw [List.mem_append, ih]
    constructor
    · rintro (hx | ⟨q', hcomes, hx⟩)
      · exact ⟨p, .refl, by rwa [hnext]⟩
      · exact ⟨q', hcomes.head (by rw [hnext]), hx⟩
    · rintro ⟨q', hcomes, hx⟩
      rcases hcomes.cases_head with rfl | ⟨p', hto, hrest⟩
      · left
        rwa [hnext] at hx
      · right
        rw [hnext] at hto
        cases hto
        exact ⟨q', hrest, hx⟩

/-- From each state that it comes to, the machine goes on to the same end. -/
theorem Emits.rest (h : Emits step p l r) (hcomes : Comes step p q) : ∃ l', Emits step q l' r := by
  induction hcomes with
  | refl => exact ⟨l, h⟩
  | tail _ hto ih =>
    obtain ⟨l', hrest⟩ := ih
    cases hrest with
    | stop hstop =>
      rw [hstop] at hto
      cases hto
    | next hnext hrest =>
      rw [hnext] at hto
      cases hto
      exact ⟨_, hrest⟩

/-- The result is that of the last state. -/
theorem Emits.ends (h : Emits step p l r) : ∃ q, Comes step p q ∧ (step q).2 = .inr r := by
  induction h with
  | @stop p l r hstop => exact ⟨p, .refl, by rw [hstop]⟩
  | next hnext _ ih =>
    obtain ⟨q, hcomes, hend⟩ := ih
    exact ⟨q, hcomes.head (by rw [hnext]), hend⟩

end Emit
