import Mathlib.Tactic

/-! Sequential C computations: a state, a result or a fault, and bounded loops.
A fault keeps the state in which the computation stopped. The rules at the end
are the ones a proof about a program uses: `Res.Holds` for a postcondition,
`holds_bind` for sequencing and `holds_loop` for a loop invariant. -/

namespace Exec

/-- The ways a computation stops without a value. -/
inductive Fault where
  | panic (msg : String)
  | undefined (why : String)
  | diverge
  deriving DecidableEq, Repr

inductive Res (σ α : Type) where
  | ok (a : α) (s : σ)
  | fault (f : Fault) (s : σ)

/-- A computation over the state `σ` with a value in `α`. -/
def Comp (σ α : Type) : Type := σ → Res σ α

namespace Comp
variable {σ α β γ ι : Type}

protected def pure (a : α) : Comp σ α := fun s => .ok a s

protected def bind (x : Comp σ α) (f : α → Comp σ β) : Comp σ β := fun s =>
  match x s with
  | .ok a s' => f a s'
  | .fault e s' => .fault e s'

instance : Monad (Comp σ) where
  pure := Comp.pure
  bind := Comp.bind

/-- The state. -/
def read : Comp σ σ := fun s => .ok s s

def modify (f : σ → σ) : Comp σ Unit := fun s => .ok () (f s)

def fault (f : Fault) : Comp σ α := fun s => .fault f s

/-- The kernel's `panic`, which never returns. -/
protected def panic (msg : String) : Comp σ α := fault (.panic msg)

@[simp] theorem pure_apply (a : α) (s : σ) : (pure a : Comp σ α) s = .ok a s := rfl

@[simp] theorem read_apply (s : σ) : (read : Comp σ σ) s = .ok s s := rfl

@[simp] theorem modify_apply (f : σ → σ) (s : σ) : modify f s = .ok () (f s) := rfl

@[simp] theorem fault_apply (f : Fault) (s : σ) : (fault f : Comp σ α) s = .fault f s := rfl

@[simp] theorem panic_apply (msg : String) (s : σ) :
    (Comp.panic msg : Comp σ α) s = .fault (.panic msg) s := rfl

theorem bind_apply (x : Comp σ α) (f : α → Comp σ β) (s : σ) :
    (x >>= f) s = match x s with
      | .ok a s' => f a s'
      | .fault e s' => .fault e s' := rfl

/-- A first half that returns hands its value and state to the second. -/
theorem bind_ok {x : Comp σ α} {s s' : σ} {a : α} (h : x s = .ok a s')
    (f : α → Comp σ β) : (x >>= f) s = f a s' := by
  rw [bind_apply, h]

theorem bind_fault {x : Comp σ α} {s s' : σ} {e : Fault} (h : x s = .fault e s')
    (f : α → Comp σ β) : (x >>= f) s = .fault e s' := by
  rw [bind_apply, h]

@[simp] theorem read_bind (f : σ → Comp σ β) (s : σ) : (read >>= f) s = f s s := rfl

@[simp] theorem modify_bind (g : σ → σ) (f : Unit → Comp σ β) (s : σ) :
    (modify g >>= f) s = f () (g s) := rfl

@[simp] theorem pure_bind_apply (a : α) (f : α → Comp σ β) (s : σ) :
    ((pure a : Comp σ α) >>= f) s = f a s := rfl

@[simp] theorem panic_bind (msg : String) (f : α → Comp σ β) (s : σ) :
    ((Comp.panic msg : Comp σ α) >>= f) s = .fault (.panic msg) s := rfl

@[simp] theorem fault_bind (e : Fault) (f : α → Comp σ β) (s : σ) :
    ((fault e : Comp σ α) >>= f) s = .fault e s := rfl

theorem bind_eq_ok {x : Comp σ α} {f : α → Comp σ β} {s t : σ} {b : β} :
    (x >>= f) s = .ok b t ↔ ∃ a s', x s = .ok a s' ∧ f a s' = .ok b t := by
  rw [bind_apply]
  cases hx : x s with
  | ok a s' => simp
  | fault e s' => simp

/-- Two ways to go on that are the same where the first half ends. -/
theorem bind_congr_apply {x : Comp σ α} {f g : α → Comp σ β} {s : σ}
    (h : ∀ a t, x s = .ok a t → f a t = g a t) : (x >>= f) s = (x >>= g) s := by
  rw [bind_apply, bind_apply]
  cases hx : x s with
  | ok a t => exact h a t hx
  | fault e t => rfl

theorem bind_assoc_apply (x : Comp σ α) (f : α → Comp σ β) (g : β → Comp σ γ) (s : σ) :
    ((x >>= f) >>= g) s = (x >>= fun a => f a >>= g) s := by
  simp only [bind_apply]
  cases x s <;> rfl

/-- `loop body n i` runs `body` at most `n` times from the loop variables `i`;
`.inl` goes round again and `.inr` leaves. A loop that uses up `n` diverges, so
a statement that it returns is also one that `n` was large enough. -/
def loop (body : ι → Comp σ (ι ⊕ α)) : Nat → ι → Comp σ α
  | 0, _ => fault .diverge
  | n + 1, i => body i >>= fun
    | .inl j => loop body n j
    | .inr a => pure a

theorem loop_succ (body : ι → Comp σ (ι ⊕ α)) (n : Nat) (i : ι) (s : σ) :
    loop body (n + 1) i s = (body i >>= fun
      | .inl j => loop body n j
      | .inr a => pure a) s := rfl

theorem loop_again {body : ι → Comp σ (ι ⊕ α)} {i j : ι} {s s' : σ}
    (h : body i s = .ok (.inl j) s') (n : Nat) :
    loop body (n + 1) i s = loop body n j s' := by
  rw [loop_succ, bind_ok h]

theorem loop_done {body : ι → Comp σ (ι ⊕ α)} {i : ι} {a : α} {s s' : σ}
    (h : body i s = .ok (.inr a) s') (n : Nat) :
    loop body (n + 1) i s = .ok a s' := by
  rw [loop_succ, bind_ok h]; rfl

theorem loop_fault {body : ι → Comp σ (ι ⊕ α)} {i : ι} {e : Fault} {s s' : σ}
    (h : body i s = .fault e s') (n : Nat) :
    loop body (n + 1) i s = .fault e s' := by
  rw [loop_succ, bind_fault h]

/-- A loop whose rounds all go on does not return, however many there may be. -/
theorem loop_never {body : ι → Comp σ (ι ⊕ α)} {I : ι → σ → Prop}
    (h : ∀ i s, I i s → ∃ j t, body i s = .ok (.inl j) t ∧ I j t) (n : Nat) {i : ι} {s : σ}
    (hi : I i s) (a : α) (t : σ) : loop body n i s ≠ .ok a t := by
  induction n generalizing i s with
  | zero =>
    intro hrun
    cases hrun
  | succ n ih =>
    obtain ⟨j, u, hround, hj⟩ := h i s hi
    rw [loop_again hround]
    exact ih hj

/-- A loop returns that has fewer rounds to go from each round to the next. -/
theorem loop_returns {body : ι → Comp σ (ι ⊕ α)} {I : Nat → ι → σ → Prop}
    (h : ∀ m i s, I m i s → (∃ a t, body i s = .ok (.inr a) t) ∨
      ∃ j t k, body i s = .ok (.inl j) t ∧ I k j t ∧ k < m) {m n : Nat} {i : ι} {s : σ}
    (hi : I m i s) (hn : m < n) : ∃ a t, loop body n i s = .ok a t := by
  induction n generalizing m i s with
  | zero => omega
  | succ n ih =>
    rcases h m i s hi with ⟨a, t, hround⟩ | ⟨j, t, k, hround, hj, hk⟩
    · exact ⟨a, t, loop_done hround n⟩
    · rw [loop_again hround]
      exact ih hj (by omega)

/-- `forEach l f` runs `f` on the members of `l`, first to last. -/
def forEach : List ι → (ι → Comp σ Unit) → Comp σ Unit
  | [], _ => pure ()
  | i :: l, f => f i >>= fun _ => forEach l f

/-- What each round keeps, the loop keeps. -/
theorem forEach_inv {I : σ → Prop} {f : ι → Comp σ Unit} {l : List ι}
    (h : ∀ i ∈ l, ∀ s s', I s → f i s = .ok () s' → I s') {s s' : σ} (hs : I s)
    (hrun : forEach l f s = .ok () s') : I s' := by
  induction l generalizing s with
  | nil =>
    cases hrun
    exact hs
  | cons i l ih =>
    obtain ⟨_, t, hi, hrest⟩ := bind_eq_ok.mp hrun
    exact ih (fun j hj => h j (List.mem_cons_of_mem _ hj)) (h i List.mem_cons_self s t hs hi) hrest

theorem forEach_append (l l' : List ι) (f : ι → Comp σ Unit) (s : σ) :
    forEach (l ++ l') f s = (forEach l f >>= fun _ => forEach l' f) s := by
  induction l generalizing s with
  | nil => rfl
  | cons i l ih =>
    show (f i >>= fun _ => forEach (l ++ l') f) s = _
    rw [forEach, bind_assoc_apply, bind_apply, bind_apply]
    cases f i s with
    | ok a t => exact ih t
    | fault e t => rfl

theorem forEach_single (i : ι) (f : ι → Comp σ Unit) (s : σ) : forEach [i] f s = f i s := by
  show (f i >>= fun _ => forEach [] f) s = f i s
  rw [bind_apply]
  cases f i s with
  | ok u s' => rfl
  | fault e s' => rfl

/-- A loop whose rounds do nothing. -/
theorem forEach_skip {f : ι → Comp σ Unit} {l : List ι} {s : σ}
    (h : ∀ i ∈ l, f i s = .ok () s) : forEach l f s = .ok () s := by
  induction l with
  | nil => rfl
  | cons i l ih =>
    exact (bind_ok (h i List.mem_cons_self) _).trans (ih fun j hj => h j (List.mem_cons_of_mem _ hj))

/-- A loop that only modifies the state. -/
theorem forEach_modify (g : ι → σ → σ) (l : List ι) (s : σ) :
    forEach l (fun i => modify (g i)) s = .ok () (l.foldl (fun s i => g i s) s) := by
  induction l generalizing s with
  | nil => rfl
  | cons i l ih => exact ih (g i s)

/-- Only the number of rounds matters where all of them are the same. -/
theorem forEach_const {κ : Type} (x : Comp σ Unit) :
    ∀ {l : List ι} {l' : List κ}, l.length = l'.length →
      forEach l (fun _ => x) = forEach l' fun _ => x
  | [], [], _ => rfl
  | _ :: l, _ :: l', h => by
    rw [forEach, forEach, forEach_const x (Nat.succ.inj h)]

/-! ### What a computation leaves as it is -/

/-- Where `x` returns, it leaves `f` of the state as it was. -/
def Keeps (f : σ → γ) (x : Comp σ α) : Prop := ∀ s a s', x s = .ok a s' → f s' = f s

theorem keeps_pure (f : σ → γ) (a : α) : Keeps f (pure a : Comp σ α) := by
  intro s b s' h
  cases h
  rfl

theorem keeps_read (f : σ → γ) : Keeps f (read : Comp σ σ) := by
  intro s b s' h
  cases h
  rfl

theorem keeps_fault (f : σ → γ) (e : Fault) : Keeps f (fault e : Comp σ α) := by
  intro s b s' h
  cases h

theorem keeps_modify {f : σ → γ} {g : σ → σ} (h : ∀ s, f (g s) = f s) :
    Keeps f (modify g) := by
  intro s b s' hrun
  cases hrun
  exact h s

theorem keeps_bind {f : σ → γ} {x : Comp σ α} {k : α → Comp σ β} (hx : Keeps f x)
    (hk : ∀ a, Keeps f (k a)) : Keeps f (x >>= k) := by
  intro s b s' h
  obtain ⟨a, t, h1, h2⟩ := bind_eq_ok.mp h
  exact (hk a t b s' h2).trans (hx s a t h1)

theorem keeps_ite {f : σ → γ} {c : Prop} [Decidable c] {x y : Comp σ α} (hx : Keeps f x)
    (hy : Keeps f y) : Keeps f (if c then x else y) := by
  split
  · exact hx
  · exact hy

theorem keeps_forEach {f : σ → γ} {g : ι → Comp σ Unit} (h : ∀ i, Keeps f (g i)) (l : List ι) :
    Keeps f (forEach l g) := by
  induction l with
  | nil => exact keeps_pure f ()
  | cons i l ih => exact keeps_bind (h i) fun _ => ih

theorem keeps_loop {f : σ → γ} {body : ι → Comp σ (ι ⊕ α)} (h : ∀ i, Keeps f (body i))
    (n : Nat) (i : ι) : Keeps f (loop body n i) := by
  induction n generalizing i with
  | zero => exact keeps_fault f _
  | succ n ih =>
    refine keeps_bind (h i) fun r => ?_
    cases r with
    | inl j => exact ih j
    | inr a => exact keeps_pure f a

end Comp

namespace Res
variable {σ α β ι : Type}

/-- `Q` holds of the value and state of a computation that returns, and `E` of
the fault and state of one that does not. -/
def Holds (Q : α → σ → Prop) (E : Fault → σ → Prop) : Res σ α → Prop
  | .ok a s => Q a s
  | .fault f s => E f s

/-- The value of a computation that returns. -/
def value : Res σ α → Option α
  | .ok a _ => some a
  | .fault _ _ => none

theorem eq_ok_of_value {r : Res σ α} {a : α} (h : r.value = some a) : ∃ s, r = .ok a s := by
  cases r with
  | ok b s =>
    cases h
    exact ⟨s, rfl⟩
  | fault e s => cases h

@[simp] theorem holds_ok (Q : α → σ → Prop) (E : Fault → σ → Prop) (a : α) (s : σ) :
    (Res.ok a s).Holds Q E ↔ Q a s := Iff.rfl

@[simp] theorem holds_fault (Q : α → σ → Prop) (E : Fault → σ → Prop) (f : Fault) (s : σ) :
    (Res.fault f s : Res σ α).Holds Q E ↔ E f s := Iff.rfl

theorem Holds.mono {Q Q' : α → σ → Prop} {E E' : Fault → σ → Prop} {r : Res σ α}
    (h : r.Holds Q E) (hQ : ∀ a s, Q a s → Q' a s) (hE : ∀ f s, E f s → E' f s) :
    r.Holds Q' E' := by
  cases r with
  | ok a s => exact hQ a s h
  | fault f s => exact hE f s h

/-- Sequencing: what the first half leaves is what the second half starts from. -/
theorem holds_bind {x : Comp σ α} {f : α → Comp σ β} {s : σ}
    {P : α → σ → Prop} {Q : β → σ → Prop} {E : Fault → σ → Prop}
    (hx : (x s).Holds P E) (hf : ∀ a s', P a s' → (f a s').Holds Q E) :
    ((x >>= f) s).Holds Q E := by
  rw [Comp.bind_apply]
  cases h : x s with
  | ok a s' => rw [h] at hx; exact hf a s' hx
  | fault e s' => rw [h] at hx; exact hx

/-- Loops: `I` is the invariant, and `E` must allow for running out of rounds. -/
theorem holds_loop {body : ι → Comp σ (ι ⊕ α)} {I : ι → σ → Prop}
    {Q : α → σ → Prop} {E : Fault → σ → Prop}
    (hbody : ∀ i s, I i s → (body i s).Holds
      (fun r s' => match r with | .inl j => I j s' | .inr a => Q a s') E)
    (hspin : ∀ i s, I i s → E .diverge s) :
    ∀ (n : Nat) (i : ι) (s : σ), I i s → (Comp.loop body n i s).Holds Q E := by
  intro n
  induction n with
  | zero => intro i s hI; exact hspin i s hI
  | succ n ih =>
    intro i s hI
    have h := hbody i s hI
    cases hb : body i s with
    | ok r s' =>
      rw [hb] at h
      cases r with
      | inl j => rw [Comp.loop_again hb]; exact ih j s' h
      | inr a => rw [Comp.loop_done hb]; exact h
    | fault e s' => rw [hb] at h; rw [Comp.loop_fault hb]; exact h

/-- Loops that come to an end: `μ` decreases, so `n > μ i` rounds are enough and
`E` need not allow for running out of them. -/
theorem holds_loop_measure {body : ι → Comp σ (ι ⊕ α)} {I : ι → σ → Prop} {μ : ι → Nat}
    {Q : α → σ → Prop} {E : Fault → σ → Prop}
    (hbody : ∀ i s, I i s → (body i s).Holds
      (fun r s' => match r with | .inl j => I j s' ∧ μ j < μ i | .inr a => Q a s') E) :
    ∀ (n : Nat) (i : ι) (s : σ), μ i < n → I i s → (Comp.loop body n i s).Holds Q E := by
  intro n
  induction n with
  | zero => intro i s hn; omega
  | succ n ih =>
    intro i s hn hI
    have h := hbody i s hI
    cases hb : body i s with
    | ok r s' =>
      rw [hb] at h
      cases r with
      | inl j => rw [Comp.loop_again hb]; exact ih j s' (by have := h.2; omega) h.1
      | inr a => rw [Comp.loop_done hb]; exact h
    | fault e s' => rw [hb] at h; rw [Comp.loop_fault hb]; exact h

/-- `x` leaves `f` of the state as it was, where it faults too. -/
def Frames {γ : Type} (f : σ → γ) (x : Comp σ α) : Prop :=
  ∀ s, (x s).Holds (fun _ t => f t = f s) (fun _ t => f t = f s)

section Frames
variable {γ : Type} {f : σ → γ}

theorem frames_pure (a : α) : Frames f (pure a : Comp σ α) := fun _ => rfl

theorem frames_fault (e : Fault) : Frames f (Comp.fault e : Comp σ α) := fun _ => rfl

theorem frames_modify {g : σ → σ} (h : ∀ s, f (g s) = f s) : Frames f (Comp.modify g) :=
  fun s => h s

theorem frames_bind {x : Comp σ α} {k : α → Comp σ β} (hx : Frames f x)
    (hk : ∀ a, Frames f (k a)) : Frames f (x >>= k) := by
  intro s
  refine holds_bind (hx s) fun a t ht => ?_
  refine (hk a t).mono (fun b u hu => hu.trans ht) (fun e u hu => hu.trans ht)

theorem frames_read_bind {k : σ → Comp σ β} (hk : ∀ s, Frames f (k s)) :
    Frames f (Comp.read >>= k) := fun s => hk s s

theorem frames_ite {c : Prop} [Decidable c] {x y : Comp σ α} (hx : Frames f x)
    (hy : Frames f y) : Frames f (if c then x else y) := by
  split
  · exact hx
  · exact hy

end Frames

/-- `x` goes from each state to one that `R` relates to it, and stops only with faults in
`E`. -/
def Follows (R : σ → σ → Prop) (E : Fault → Prop) (x : Comp σ α) : Prop :=
  ∀ s, (x s).Holds (fun _ t => R s t) (fun e t => E e ∧ R s t)

section Follows
variable {R : σ → σ → Prop} {E : Fault → Prop}

theorem follows_modify {g : σ → σ} (h : ∀ s, R s (g s)) : Follows R E (Comp.modify g) :=
  fun s => h s

theorem follows_ite {c : Prop} [Decidable c] {x y : Comp σ α} (hx : Follows R E x)
    (hy : Follows R E y) : Follows R E (if c then x else y) := by
  split
  · exact hx
  · exact hy

theorem follows_bind [IsTrans σ R] {x : Comp σ α} {k : α → Comp σ β} (hx : Follows R E x)
    (hk : ∀ a, Follows R E (k a)) : Follows R E (x >>= k) := by
  intro s
  refine holds_bind (hx s) fun a t ht => ?_
  refine (hk a t).mono (fun b u hu => trans_of R ht hu) (fun e u hu => ⟨hu.1, trans_of R ht hu.2⟩)

section
variable [Std.Refl R]

theorem follows_pure (a : α) : Follows R E (pure a : Comp σ α) := fun s => refl_of R s

theorem follows_read : Follows R E (Comp.read : Comp σ σ) := fun s => refl_of R s

theorem follows_fault {e : Fault} (h : E e) : Follows R E (Comp.fault e : Comp σ α) :=
  fun s => ⟨h, refl_of R s⟩

end

theorem follows_forEach [Std.Refl R] [IsTrans σ R] {g : ι → Comp σ Unit}
    (h : ∀ i, Follows R E (g i)) (l : List ι) : Follows R E (Comp.forEach l g) := by
  induction l with
  | nil => exact follows_pure ()
  | cons i l ih => exact follows_bind (h i) fun _ => ih

theorem follows_loop [Std.Refl R] [IsTrans σ R] {body : ι → Comp σ (ι ⊕ α)} (hE : E .diverge)
    (h : ∀ i, Follows R E (body i)) (n : Nat) (i : ι) : Follows R E (Comp.loop body n i) := by
  induction n generalizing i with
  | zero => exact follows_fault hE
  | succ n ih =>
    refine follows_bind (h i) fun r => ?_
    cases r with
    | inl j => exact ih j
    | inr a => exact follows_pure a

end Follows

end Res

end Exec
