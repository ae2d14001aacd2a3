import Mathlib.Tactic
import PageFaultOS.Lib.Exec

/-! Simulation up to a stop: a computation does on its state what an abstract one does on
another, until the abstract one stops. From there on nothing is said but what every
computation keeps. -/

namespace Exec

/-- What a simulation of `τ` by `σ` is about: `R` relates the states, and `stop` is the fault
with which the abstract side gives up. On `Good` states all computations keep `G`, so that
what holds behind a stop, `Stopped`, goes on to hold. -/
structure Setting (σ τ : Type) where
  R : σ → τ → Prop
  Good : σ → Prop
  G : σ → σ → Prop
  stop : Fault
  Stopped : τ → σ → Prop
  good : ∀ {s c}, R s c → Good s
  refl : ∀ s, G s s
  trans : ∀ {s t u}, G s t → G t u → G s u
  stopped_good : ∀ {c s}, Stopped c s → Good s
  stopped_mono : ∀ {c s t}, Stopped c s → Good t → G s t → Stopped c t

namespace Setting
variable {σ τ α β ι : Type} (S : Setting σ τ)

/-- The result of the one side, where that of the abstract side is `y`. A fault leaves the
states related. -/
def Agrees (y : Res τ α) : Res σ α → Prop
  | .ok b s =>
    match y with
    | .ok a c => b = a ∧ S.R s c
    | .fault e c => e = S.stop ∧ S.Stopped c s
  | .fault _ s => (∃ c, y = .fault S.stop c) ∨ ∃ c, S.R s c

/-- `x` does what `y` does, until `y` stops. -/
structure Sim (x : Comp σ α) (y : Comp τ α) : Prop where
  run : ∀ s c, S.R s c → S.Agrees (y c) (x s)
  keeps : ∀ s a t, S.Good s → x s = .ok a t → S.Good t ∧ S.G s t

variable {S}

theorem sim_pure (a : α) : S.Sim (pure a) (pure a) where
  run _ _ h := ⟨rfl, h⟩
  keeps s b t hs hrun := by
    cases hrun
    exact ⟨hs, S.refl s⟩

theorem sim_fault (e : Fault) (y : Comp τ α) : S.Sim (Comp.fault e) y where
  run _ c h := Or.inr ⟨c, h⟩
  keeps s b t _ hrun := by cases hrun

theorem sim_bind {x : Comp σ α} {y : Comp τ α} {k : α → Comp σ β} {l : α → Comp τ β}
    (hx : S.Sim x y) (hk : ∀ a, S.Sim (k a) (l a)) : S.Sim (x >>= k) (y >>= l) where
  run s c h := by
    have hrun := hx.run s c h
    cases hxs : x s with
    | fault e t =>
      rw [hxs] at hrun
      rw [Comp.bind_fault hxs]
      rcases hrun with ⟨d, hstop⟩ | hrel
      · exact Or.inl ⟨d, Comp.bind_fault hstop l⟩
      · exact Or.inr hrel
    | ok b t =>
      rw [hxs] at hrun
      rw [Comp.bind_ok hxs]
      cases hyc : y c with
      | ok a d =>
        rw [hyc] at hrun
        obtain ⟨hval, hrel⟩ := hrun
        rw [Comp.bind_ok hyc, hval]
        exact (hk a).run t d hrel
      | fault e d =>
        rw [hyc] at hrun
        obtain ⟨hstop, hstopped⟩ := hrun
        rw [Comp.bind_fault hyc]
        -- behind the stop only what all computations keep is known
        cases hkt : k b t with
        | ok b' u =>
          have hkeep := (hk b).keeps t b' u (S.stopped_good hstopped) hkt
          exact ⟨hstop, S.stopped_mono hstopped hkeep.1 hkeep.2⟩
        | fault e' u => exact Or.inl ⟨d, by rw [hstop]⟩
  keeps s b t hs hrun := by
    obtain ⟨a, u, hxs, hkt⟩ := Comp.bind_eq_ok.mp hrun
    have h1 := hx.keeps s a u hs hxs
    have h2 := (hk a).keeps u b t h1.1 hkt
    exact ⟨h2.1, S.trans h1.2 h2.2⟩

theorem sim_ite {p : Prop} [Decidable p] {x x' : Comp σ α} {y y' : Comp τ α}
    (h : S.Sim x y) (h' : S.Sim x' y') : S.Sim (if p then x else x') (if p then y else y') := by
  split
  · exact h
  · exact h'

/-- A part of the state that is the same in all good states. -/
theorem sim_read {k : σ → Comp σ β} {y : Comp τ β} (h : ∀ s, S.Good s → S.Sim (k s) y) :
    S.Sim (Comp.read >>= k) y where
  run s c hrel := (h s (S.good hrel)).run s c hrel
  keeps s b t hs hrun := (h s hs).keeps s b t hs hrun

theorem sim_loop {body : ι → Comp σ (ι ⊕ α)} {body' : ι → Comp τ (ι ⊕ α)}
    (h : ∀ i, S.Sim (body i) (body' i)) (n : Nat) (i : ι) :
    S.Sim (Comp.loop body n i) (Comp.loop body' n i) := by
  induction n generalizing i with
  | zero => exact sim_fault _ _
  | succ n ih =>
    refine sim_bind (h i) fun r => ?_
    cases r with
    | inl j => exact ih j
    | inr a => exact sim_pure a

/-- A computation that the abstract side does not see. -/
theorem sim_skip {x : Comp σ α} {k : α → Comp σ β} {y : Comp τ β}
    (hx : ∀ s, S.Good s → (x s).Holds (fun _ t => S.Good t ∧ S.G s t ∧ ∀ c, S.R s c → S.R t c)
      fun _ t => ∀ c, S.R s c → S.R t c)
    (hk : ∀ a, S.Sim (k a) y) : S.Sim (x >>= k) y where
  run s c h := by
    have hrun := hx s (S.good h)
    cases hxs : x s with
    | ok a t =>
      rw [hxs] at hrun
      rw [Comp.bind_ok hxs]
      exact (hk a).run t c (hrun.2.2 c h)
    | fault e t =>
      rw [hxs] at hrun
      rw [Comp.bind_fault hxs]
      exact Or.inr ⟨c, hrun c h⟩
  keeps s b t hs hrun := by
    obtain ⟨a, u, hxs, hku⟩ := Comp.bind_eq_ok.mp hrun
    have h1 := hx s hs
    rw [hxs] at h1
    have h2 := (hk a).keeps u b t h1.1 hku
    exact ⟨h2.1, S.trans h1.2.1 h2.2⟩

/-! ## Computations that end -/

/-- Where `y` ends, `x` ends with the same result. -/
def Covers (S : Setting σ τ) (x : Comp σ α) (y : Comp τ α) : Prop :=
  ∀ s c a d, S.R s c → y c = .ok a d → ∃ t, x s = .ok a t ∧ S.R t d

theorem covers_pure (a : α) : S.Covers (pure a) (pure a) := by
  intro s c b d h hrun
  cases hrun
  exact ⟨s, rfl, h⟩

theorem covers_fault (e e' : Fault) : S.Covers (Comp.fault e) (Comp.fault e' : Comp τ α) := by
  intro s c b d h hrun
  cases hrun

theorem covers_bind {x : Comp σ α} {y : Comp τ α} {k : α → Comp σ β} {l : α → Comp τ β}
    (hx : S.Covers x y) (hk : ∀ a, S.Covers (k a) (l a)) : S.Covers (x >>= k) (y >>= l) := by
  intro s c b d h hrun
  obtain ⟨a, e, hy, hl⟩ := Comp.bind_eq_ok.mp hrun
  obtain ⟨t, hxt, ht⟩ := hx s c a e h hy
  rw [Comp.bind_ok hxt]
  exact hk a t e b d ht hl

theorem covers_ite {p : Prop} [Decidable p] {x x' : Comp σ α} {y y' : Comp τ α}
    (h : S.Covers x y) (h' : S.Covers x' y') :
    S.Covers (if p then x else x') (if p then y else y') := by
  split
  · exact h
  · exact h'

/-- A part of the state that is the same in all good states. -/
theorem covers_read {k : σ → Comp σ β} {y : Comp τ β} (h : ∀ s, S.Good s → S.Covers (k s) y) :
    S.Covers (Comp.read >>= k) y := fun s c b d hrel hrun =>
  h s (S.good hrel) s c b d hrel hrun

theorem covers_loop {body : ι → Comp σ (ι ⊕ α)} {body' : ι → Comp τ (ι ⊕ α)}
    (h : ∀ i, S.Covers (body i) (body' i)) (n : Nat) (i : ι) :
    S.Covers (Comp.loop body n i) (Comp.loop body' n i) := by
  induction n generalizing i with
  | zero => exact covers_fault _ _
  | succ n ih =>
    refine covers_bind (h i) fun r => ?_
    cases r with
    | inl j => exact ih j
    | inr a => exact covers_pure a

end Setting

end Exec
