import Mathlib.Tactic
import PageFaultOS.Lib.Exec

/-! Computations that a change of the state does not disturb: where the change is made first, the
computation returns the same, and the change is in the state that it leaves. -/

namespace Exec.Comp
variable {σ α β ι : Type} {f : σ → σ}

/-- Where `x` returns, it returns the same behind the change `f`. -/
def Commutes (f : σ → σ) (x : Comp σ α) : Prop := ∀ s a t, x s = .ok a t → x (f s) = .ok a (f t)

theorem commutes_pure (f : σ → σ) (a : α) : Commutes f (pure a : Comp σ α) := by
  intro s b t h
  cases h
  rfl

theorem commutes_fault (f : σ → σ) (e : Fault) : Commutes f (fault e : Comp σ α) := by
  intro s b t h
  cases h

theorem commutes_modify {g : σ → σ} (h : ∀ s, g (f s) = f (g s)) : Commutes f (modify g) := by
  intro s b t hrun
  cases hrun
  rw [modify_apply, h]

theorem commutes_bind {x : Comp σ α} {k : α → Comp σ β} (hx : Commutes f x)
    (hk : ∀ a, Commutes f (k a)) : Commutes f (x >>= k) := by
  intro s b t h
  obtain ⟨a, u, h1, h2⟩ := bind_eq_ok.mp h
  rw [bind_ok (hx s a u h1)]
  exact hk a u b t h2

/-- A part of the state that the change leaves as it is. -/
theorem commutes_read {k : σ → Comp σ β} (hsame : ∀ s, k (f s) = k s)
    (hk : ∀ s, Commutes f (k s)) : Commutes f (read >>= k) := by
  intro s b t h
  rw [read_bind] at h ⊢
  rw [hsame]
  exact hk s s b t h

theorem commutes_ite {c : Prop} [Decidable c] {x y : Comp σ α} (hx : Commutes f x)
    (hy : Commutes f y) : Commutes f (if c then x else y) := by
  split
  · exact hx
  · exact hy

theorem commutes_loop {body : ι → Comp σ (ι ⊕ α)} (h : ∀ i, Commutes f (body i)) (n : Nat)
    (i : ι) : Commutes f (loop body n i) := by
  induction n generalizing i with
  | zero => exact commutes_fault f _
  | succ n ih =>
    refine commutes_bind (h i) fun r => ?_
    cases r with
    | inl j => exact ih j
    | inr a => exact commutes_pure f a

end Exec.Comp
