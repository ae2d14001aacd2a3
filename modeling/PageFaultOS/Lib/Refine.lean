import Mathlib.Tactic

/-! Refinement of one system by another. A step of a system shows an event or none, and what a run
shows is its history. Where each step of the one is a step of the other with the same event, or
shows nothing and leaves the state of the other as it is, every history of the one is a history of
the other. -/

namespace Refine
variable {σ τ ε α : Type}

/-- The runs from `s`, with their histories, oldest event first. -/
inductive Shows (step : σ → Option ε → σ → Prop) (s : σ) : List ε → σ → Prop where
  | start : Shows step s [] s
  | next {h : List ε} {o : Option ε} {t u : σ} (hrun : Shows step s h t) (hstep : step t o u) :
      Shows step s (h ++ o.toList) u

/-- `abs` reads a state of the other system off one for which `I` holds. -/
structure Simulates (step : σ → Option ε → σ → Prop) (spec : τ → Option ε → τ → Prop)
    (I : σ → Prop) (abs : σ → τ) : Prop where
  keeps : ∀ {s o t}, I s → step s o t → I t
  step : ∀ {s o t}, I s → step s o t → spec (abs s) o (abs t) ∨ o = none ∧ abs t = abs s

variable {step : σ → Option ε → σ → Prop} {spec : τ → Option ε → τ → Prop} {I : σ → Prop}
  {abs : σ → τ} {s t : σ} {h : List ε}

theorem Shows.invariant (hkeeps : ∀ {s o t}, I s → step s o t → I t) (hs : I s)
    (hrun : Shows step s h t) : I t := by
  induction hrun with
  | start => exact hs
  | next _ hstep ih => exact hkeeps ih hstep

/-- What the one shows the other shows. -/
theorem Simulates.shows (hsim : Simulates step spec I abs) (hs : I s) (hrun : Shows step s h t) :
    Shows spec (abs s) h (abs t) := by
  induction hrun with
  | start => exact .start
  | next hrun hstep ih =>
    rcases hsim.step (hrun.invariant hsim.keeps hs) hstep with hspec | ⟨rfl, heq⟩
    · exact .next ih hspec
    · rw [heq, Option.toList_none, List.append_nil]
      exact ih

/-- The run of given actions, where each step is a partial function. -/
def runShows (f : σ → α → Option (Option ε × σ)) : List α → σ → Option (List ε × σ)
  | [], s => some ([], s)
  | a :: as, s => (f s a).bind fun (o, t) => (runShows f as t).map fun (h, u) => (o.toList ++ h, u)

theorem Shows.append {u : σ} {h' : List ε} (hrun : Shows step s h t) (hrun' : Shows step t h' u) :
    Shows step s (h ++ h') u := by
  induction hrun' with
  | start => rwa [List.append_nil]
  | next _ hstep ih =>
    rw [← List.append_assoc]
    exact .next ih hstep

theorem Shows.of_runShows {f : σ → α → Option (Option ε × σ)} {as : List α}
    (hstep : ∀ s a o t, a ∈ as → f s a = some (o, t) → step s o t)
    (hrun : runShows f as s = some (h, t)) : Shows step s h t := by
  induction as generalizing s h with
  | nil =>
    cases hrun
    exact .start
  | cons a as ih =>
    obtain ⟨⟨o, u⟩, hu, hrest⟩ := Option.bind_eq_some_iff.mp hrun
    obtain ⟨⟨h', v⟩, hv, heq⟩ := Option.map_eq_some_iff.mp hrest
    cases heq
    have hfirst : Shows step s ([] ++ o.toList) u :=
      .next .start (hstep s a o u List.mem_cons_self hu)
    exact hfirst.append (ih (fun s b o t hb => hstep s b o t (List.mem_cons_of_mem _ hb)) hv)

end Refine
