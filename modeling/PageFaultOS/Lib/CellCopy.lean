import Mathlib.Tactic

/-! Cells that are copied one after the other, in any order. Where no cell is written before it
is read, each gets what its source held at the start. -/

namespace CellCopy
variable {α β ι κ : Type} [DecidableEq α]

/-- Cell `d i` gets what cell `s i` holds, for each `i` of the list. -/
def copy (m : α → β) (d s : ι → α) : List ι → α → β
  | [] => m
  | i :: l => copy (Function.update m (d i) (m (s i))) d s l

/-- No cell is written before it is read, and none twice. -/
def Safe (d s : ι → α) (l : List ι) : Prop := l.Pairwise fun i j => s j ≠ d i ∧ d j ≠ d i

variable {m : α → β} {d s : ι → α} {l : List ι}

theorem copy_map (f : κ → ι) (m : α → β) (l : List κ) :
    copy m d s (l.map f) = copy m (fun i => d (f i)) (fun i => s (f i)) l := by
  induction l generalizing m with
  | nil => rfl
  | cons i l ih => exact ih _

theorem copy_other {a : α} (h : ∀ i ∈ l, a ≠ d i) : copy m d s l a = m a := by
  induction l generalizing m with
  | nil => rfl
  | cons i l ih =>
    rw [copy, ih fun j hj => h j (List.mem_cons_of_mem _ hj)]
    exact Function.update_of_ne (h i List.mem_cons_self) ..

theorem Safe.copied (h : Safe d s l) : ∀ i ∈ l, copy m d s l (d i) = m (s i) := by
  induction l generalizing m with
  | nil => simp
  | cons i l ih =>
    obtain ⟨hi, hl⟩ := List.pairwise_cons.mp h
    intro j hj
    rw [copy]
    rcases List.mem_cons.mp hj with rfl | hj
    · rw [copy_other fun k hk => (hi k hk).2.symm, Function.update_self]
    · rw [ih hl j hj, Function.update_of_ne (hi j hj).1]

end CellCopy
