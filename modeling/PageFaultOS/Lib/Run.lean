import Mathlib.Tactic

/-! Labelled transition systems. `Reach` collects the states of the runs whose steps all
meet a condition; the rules are induction on the run and the comparison of two systems. -/

namespace Run
variable {σ τ α β : Type}

/-- The states that a run from `init` reaches whose steps all meet `ok`. -/
inductive Reach (init : σ → Prop) (step : σ → α → σ → Prop) (ok : σ → α → Prop) : σ → Prop where
  | start {s : σ} (h : init s) : Reach init step ok s
  | next {s t : σ} {a : α} (h : Reach init step ok s) (hok : ok s a) (hstep : step s a t) :
      Reach init step ok t

/-- No condition on the steps. -/
def anyStep : σ → α → Prop := fun _ _ => True

variable {init : σ → Prop} {step : σ → α → σ → Prop} {ok : σ → α → Prop} {s t : σ}

/-- What holds at the start and is kept by each step holds in every state reached. -/
theorem Reach.invariant {I : σ → Prop} (h0 : ∀ s, init s → I s)
    (hstep : ∀ s a t, I s → ok s a → step s a t → I t) (h : Reach init step ok s) : I s := by
  induction h with
  | start h => exact h0 _ h
  | next _ hok hst ih => exact hstep _ _ _ ih hok hst

/-- The run of given actions, where each step is a partial function. -/
def runSome (f : σ → α → Option σ) : List α → σ → Option σ
  | [], s => some s
  | a :: as, s => (f s a).bind (runSome f as)

theorem Reach.runSomeOk {f : σ → α → Option σ} (as : List α) (hok : ∀ a ∈ as, ∀ s, ok s a)
    (h : Reach init (fun s a t => f s a = some t) ok s) (hrun : runSome f as s = some t) :
    Reach init (fun s a t => f s a = some t) ok t := by
  induction as generalizing s with
  | nil =>
    cases hrun
    exact h
  | cons a as ih =>
    obtain ⟨u, hu, hrest⟩ := Option.bind_eq_some_iff.mp hrun
    exact ih (fun b hb => hok b (List.mem_cons_of_mem _ hb))
      (.next h (hok a List.mem_cons_self s) hu) hrest

theorem Reach.runSome {f : σ → α → Option σ} (as : List α)
    (h : Reach init (fun s a t => f s a = some t) anyStep s) (hrun : runSome f as s = some t) :
    Reach init (fun s a t => f s a = some t) anyStep t :=
  .runSomeOk as (fun _ _ _ => trivial) h hrun

end Run
