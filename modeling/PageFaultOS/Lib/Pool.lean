import Mathlib.Tactic

/-! A pool of items that are marked as free or handed out. An owner holds a list of items, which
it takes and gives back as a whole. -/

namespace Pool
variable {ι π : Type}

/-- What is marked as taken has one owner, and what has an owner is marked as taken. -/
structure Conserved (D : ι → Prop) (free : ι → Bool) (held : π → List ι) : Prop where
  taken : ∀ d, D d → free d = false → ∃ p, d ∈ held p
  owned : ∀ p d, d ∈ held p → D d ∧ free d = false
  nodup : ∀ p, (held p).Nodup
  one : ∀ p q d, d ∈ held p → d ∈ held q → p = q

variable {D : ι → Prop} {free : ι → Bool} {held : π → List ι}

theorem Conserved.free_or_held (h : Conserved D free held) {d : ι} (hd : D d) :
    (free d = true ∧ ∀ p, d ∉ held p) ∨ (free d = false ∧ ∃! p, d ∈ held p) := by
  cases hfree : free d with
  | true =>
    refine .inl ⟨rfl, fun p hp => ?_⟩
    rw [(h.owned p d hp).2] at hfree
    cases hfree
  | false =>
    obtain ⟨p, hp⟩ := h.taken d hd hfree
    exact .inr ⟨rfl, p, hp, fun q hq => h.one q p d hq hp⟩

section Marks
variable [DecidableEq ι]

/-- The marks after those of `l` are set to `b`. -/
def mark (l : List ι) (b : Bool) (free : ι → Bool) : ι → Bool :=
  fun d => if d ∈ l then b else free d

theorem update_eq_mark (d : ι) (b : Bool) (free : ι → Bool) :
    Function.update free d b = mark [d] b free := by
  funext e
  by_cases he : e = d <;> simp [mark, he]

theorem update_mark (d : ι) (l : List ι) (b : Bool) (free : ι → Bool) :
    Function.update (mark l b free) d b = mark (d :: l) b free := by
  funext e
  by_cases he : e = d <;> simp [mark, he]

/-- Marking what was free as taken and then as free again changes nothing. -/
theorem mark_back {l : List ι} (h : ∀ d ∈ l, free d = true) :
    mark l true (mark l false free) = free := by
  funext d
  by_cases hd : d ∈ l
  · simp [mark, hd, h d hd]
  · simp [mark, hd]

variable [DecidableEq π] {p : π} {l : List ι}

/-- An owner without items takes free ones. -/
theorem Conserved.take (h : Conserved D free held) (hp : held p = []) (hl : l.Nodup)
    (hfree : ∀ d ∈ l, D d ∧ free d = true) :
    Conserved D (mark l false free) (Function.update held p l) := by
  have hout : ∀ q d, d ∈ held q → d ∉ l := by
    intro q d hq hd
    have h1 := (h.owned q d hq).2
    rw [(hfree d hd).2] at h1
    cases h1
  refine ⟨fun d hd hm => ?_, fun q d hq => ?_, fun q => ?_, fun q r d hq hr => ?_⟩
  · by_cases hdl : d ∈ l
    · exact ⟨p, by rwa [Function.update_self]⟩
    · rw [mark, if_neg hdl] at hm
      obtain ⟨q, hq⟩ := h.taken d hd hm
      refine ⟨q, ?_⟩
      rwa [Function.update_of_ne]
      rintro rfl
      rw [hp] at hq
      cases hq
  · by_cases hqp : q = p
    · subst hqp
      rw [Function.update_self] at hq
      exact ⟨(hfree d hq).1, if_pos hq⟩
    · rw [Function.update_of_ne hqp] at hq
      exact ⟨(h.owned q d hq).1, (if_neg (hout q d hq)).trans (h.owned q d hq).2⟩
  · by_cases hqp : q = p
    · subst hqp
      rwa [Function.update_self]
    · rw [Function.update_of_ne hqp]
      exact h.nodup q
  · by_cases hqp : q = p <;> by_cases hrp : r = p
    · rw [hqp, hrp]
    · subst hqp
      rw [Function.update_self] at hq
      rw [Function.update_of_ne hrp] at hr
      exact absurd hq (hout r d hr)
    · subst hrp
      rw [Function.update_self] at hr
      rw [Function.update_of_ne hqp] at hq
      exact absurd hr (hout q d hq)
    · rw [Function.update_of_ne hqp] at hq
      rw [Function.update_of_ne hrp] at hr
      exact h.one q r d hq hr

/-- An owner gives all its items back. -/
theorem Conserved.give (h : Conserved D free held) (hp : held p = l) :
    Conserved D (mark l true free) (Function.update held p []) := by
  have hout : ∀ q d, q ≠ p → d ∈ held q → d ∉ l := by
    intro q d hqp hq hd
    rw [← hp] at hd
    exact hqp (h.one q p d hq hd)
  have hstays : ∀ q d, d ∈ Function.update held p [] q → q ≠ p ∧ d ∈ held q := by
    intro q d hq
    by_cases hqp : q = p
    · subst hqp
      rw [Function.update_self] at hq
      cases hq
    · rw [Function.update_of_ne hqp] at hq
      exact ⟨hqp, hq⟩
  refine ⟨fun d hd hm => ?_, fun q d hq => ?_, fun q => ?_, fun q r d hq hr => ?_⟩
  · have hdl : d ∉ l := by
      intro hdl
      rw [mark, if_pos hdl] at hm
      cases hm
    rw [mark, if_neg hdl] at hm
    obtain ⟨q, hq⟩ := h.taken d hd hm
    refine ⟨q, ?_⟩
    rwa [Function.update_of_ne]
    rintro rfl
    rw [hp] at hq
    exact hdl hq
  · obtain ⟨hqp, hq'⟩ := hstays q d hq
    exact ⟨(h.owned q d hq').1, (if_neg (hout q d hqp hq')).trans (h.owned q d hq').2⟩
  · by_cases hqp : q = p
    · subst hqp
      rw [Function.update_self]
      exact List.nodup_nil
    · rw [Function.update_of_ne hqp]
      exact h.nodup q
  · exact h.one q r d (hstays q d hq).2 (hstays r d hr).2

end Marks

end Pool
