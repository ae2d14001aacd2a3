import Mathlib.Tactic
import PageFaultOS.Fs.Completeness

/-! The short names that `tf_choose_sfn` tries. `tf_shorten_filename` writes over what it made the
time before, and has no number above four, so that there are only a few different names; and the
name that is looked for has the spaces of the eleven characters, which no entry is compared with. -/

namespace PageFaultOS
open Exec Exec.Comp ByteMem

/-! ## The names that are tried -/

/-- `temp` of `tf_choose_sfn`. -/
def trialName (dest : List UInt8) : CStr :=
  (dest.take 8 ++ dot :: dest.drop 8).takeWhile (· ≠ 0)

/-- The eleven characters at `dest` after `j` rounds. -/
def sfnCandidate (dest : List UInt8) (src : CStr) : Nat → List UInt8
  | 0 => dest
  | j + 1 => tfShortenFilename (sfnCandidate dest src j) src (UInt8.ofNat (j + 1))

/-- The basename after one pass over `dest`. -/
def basePass (src : CStr) (dest : List UInt8) : List UInt8 :=
  shortBasename src (strrchr src dot) (List.range 8) 0 dest

/-- The first eight characters after `j` rounds. -/
def baseCandidate (dest : List UInt8) (src : CStr) : Nat → List UInt8
  | 0 => dest.take 8
  | j + 1 => shortTail (basePass src (baseCandidate dest src j)) (UInt8.ofNat (j + 1))

/-- The extension, which is the same in all rounds. -/
def sfnExtension (src : CStr) : List UInt8 :=
  match strrchr src dot with
  | none => shortExtension 3 []
  | some k => shortExtension 3 (src.drop k)

variable {name src : CStr} {tmp : Option Nat} {k : Nat} {is : List Nat} {d dest : List UInt8}

/-! ## One pass -/

theorem shortExtension_length (n : Nat) (tmp : CStr) : (shortExtension n tmp).length = n := by
  induction n generalizing tmp with
  | zero => rfl
  | succ n ih =>
    rw [shortExtension]
    split <;> rw [List.length_cons, ih]

theorem sfnExtension_length (src : CStr) : (sfnExtension src).length = 3 := by
  unfold sfnExtension
  split <;> exact shortExtension_length 3 _

theorem shortBasename_length (is : List Nat) (k : Nat) (d : List UInt8) :
    (shortBasename name tmp is k d).length = d.length := by
  induction is generalizing k d with
  | nil => rfl
  | cons i is ih =>
    unfold shortBasename
    simp only
    split
    · rw [ih, List.length_set]
    · split
      · exact ih k d
      · split
        · rw [ih, List.length_set]
        · split
          · rw [ih, List.length_set]
          · rw [ih, List.length_set]

/-- At its last dot the name gives a space, and the loop stays there. -/
theorem shortBasename_dot (h : tmp = some k) (i : Nat) (is : List Nat) (d : List UInt8) :
    shortBasename name tmp (i :: is) k d = shortBasename name tmp is k (d.set i space) :=
  if_pos h

theorem shortBasename_blank (h : tmp ≠ some k) (hd : d.headD 0 = space) (i : Nat)
    (is : List Nat) : shortBasename name tmp (i :: is) k d = shortBasename name tmp is k d :=
  (if_neg h).trans (if_pos hd)

theorem shortBasename_kept (h : tmp ≠ some k) (hd : d.headD 0 ≠ space) (i : Nat)
    (is : List Nat) : shortBasename name tmp (i :: is) k d =
      match name[k + ((name.drop k).takeWhile (¬ keptChar ·)).length]? with
      | none => shortBasename name tmp is
          (k + ((name.drop k).takeWhile (¬ keptChar ·)).length) (d.set i space)
      | some c =>
        if c = 0x2c then shortBasename name tmp is
          (k + ((name.drop k).takeWhile (¬ keptChar ·)).length) (d.set i 0x5f)
        else shortBasename name tmp is
          (k + ((name.drop k).takeWhile (¬ keptChar ·)).length + 1) (d.set i (upper c)) :=
  (if_neg h).trans (if_neg hd)

theorem shortBasename_stuck (h : tmp = some k) (is : List Nat) (d : List UInt8) :
    shortBasename name tmp is k d = is.foldl (fun d i => d.set i space) d := by
  induction is generalizing d with
  | nil => rfl
  | cons i is ih => rw [shortBasename_dot h, ih, List.foldl_cons]

/-- Behind a space in the first place nothing is written. -/
theorem shortBasename_lossy (h : tmp ≠ some k) (hd : d.headD 0 = space) (is : List Nat) :
    shortBasename name tmp is k d = d := by
  induction is with
  | nil => rfl
  | cons i is ih => rw [shortBasename_blank h hd, ih]

theorem upper_ne_zero {c : UInt8} (h : c ≠ 0) : upper c ≠ 0 := by
  unfold upper
  split
  · rename_i hc
    intro hzero
    have h1 : (0x61 : UInt8).toNat ≤ c.toNat := hc.1
    have h3 := congrArg UInt8.toNat hzero
    rw [UInt8.toNat_sub_of_le _ _ (by
      show (32 : UInt8).toNat ≤ c.toNat
      exact le_trans (by decide) h1)] at h3
    have h1' : 0x61 ≤ c.toNat := h1
    have h3' : c.toNat - 32 = 0 := h3
    omega
  · exact h

/-- The character behind those that are left out is one that is kept. -/
theorem kept_ne_zero {c : UInt8}
    (h : name[k + ((name.drop k).takeWhile (¬ keptChar ·)).length]? = some c) : c ≠ 0 := by
  rw [← List.getElem?_drop] at h
  generalize name.drop k = rest at h
  have hsplit := List.takeWhile_append_dropWhile (p := fun x => decide (¬ keptChar x)) (l := rest)
  conv at h => lhs; arg 1; rw [← hsplit]
  rw [List.getElem?_append_right (Nat.le_refl _), Nat.sub_self] at h
  have hhead : (rest.dropWhile (¬ keptChar ·)).head? = some c := by
    rw [List.head?_eq_getElem?]
    exact h
  have hkept := List.head?_dropWhile_not (fun x => decide (¬ keptChar x)) rest
  rw [hhead] at hkept
  rintro rfl
  exact absurd hkept (by decide)

/-- Otherwise what is written, and where the loop goes on, do not depend on what was there. -/
theorem shortBasename_next (h : tmp ≠ some k) (i : Nat) (is : List Nat) :
    ∃ c k', c ≠ 0 ∧ ∀ d : List UInt8, d.headD 0 ≠ space →
      shortBasename name tmp (i :: is) k d = shortBasename name tmp is k' (d.set i c) := by
  let k' := k + ((name.drop k).takeWhile (¬ keptChar ·)).length
  cases hget : name[k']? with
  | none =>
    refine ⟨space, k', by decide, fun d hd => ?_⟩
    rw [shortBasename_kept h hd, hget]
  | some c =>
    have hkept : c ≠ 0 := kept_ne_zero hget
    by_cases hcomma : c = 0x2c
    · refine ⟨0x5f, k', by decide, fun d hd => ?_⟩
      rw [shortBasename_kept h hd, hget]
      exact if_pos hcomma
    · refine ⟨upper c, k' + 1, upper_ne_zero hkept, fun d hd => ?_⟩
      rw [shortBasename_kept h hd, hget]
      exact if_neg hcomma

theorem headD_set (d : List UInt8) {i : Nat} (hi : i ≠ 0) (c : UInt8) :
    (d.set i c).headD 0 = d.headD 0 := by
  cases d with
  | nil => rfl
  | cons x d =>
    cases i with
    | zero => exact absurd rfl hi
    | succ i => rfl

/-- The characters that the loop writes. -/
theorem shortBasename_writes (name : CStr) (tmp : Option Nat) (his : 0 ∉ is) (k : Nat) :
    ∃ cs : List UInt8, cs.length = is.length ∧ ∀ d : List UInt8, d.headD 0 ≠ space →
      shortBasename name tmp is k d = (is.zip cs).foldl (fun d p => d.set p.1 p.2) d := by
  induction is generalizing k with
  | nil => exact ⟨[], rfl, fun d _ => rfl⟩
  | cons i is ih =>
    have hi : i ≠ 0 := fun h => his (by rw [h]; exact List.mem_cons_self)
    have hrest : 0 ∉ is := fun h => his (List.mem_cons_of_mem _ h)
    have hstep : ∃ c k', ∀ d : List UInt8, d.headD 0 ≠ space →
        shortBasename name tmp (i :: is) k d = shortBasename name tmp is k' (d.set i c) := by
      by_cases hdot : tmp = some k
      · exact ⟨space, k, fun d _ => shortBasename_dot hdot i is d⟩
      · obtain ⟨c, k', -, hnext⟩ := shortBasename_next hdot i is
        exact ⟨c, k', hnext⟩
    obtain ⟨c, k', hc⟩ := hstep
    obtain ⟨cs, hlen, hcs⟩ := ih hrest k'
    refine ⟨c :: cs, by rw [List.length_cons, List.length_cons, hlen], fun d hd => ?_⟩
    rw [hc d hd, hcs _ (by rw [headD_set d hi]; exact hd), List.zip_cons_cons, List.foldl_cons]

/-- A basename of eight characters. -/
theorem eight_chars (hd : d.length = 8) :
    ∃ a b c e f g h i, d = [a, b, c, e, f, g, h, i] := by
  match d, hd with
  | [a, b, c, e, f, g, h, i], _ => exact ⟨a, b, c, e, f, g, h, i, rfl⟩

/-- What a pass does to a basename: it writes the same characters whatever was there; or, where
the name gives a space first, it writes spaces only or leaves the rest, and changes nothing from
then on. -/
structure Rewrites (pass : List UInt8 → List UInt8) (b : List UInt8) : Prop where
  length : b.length = 8
  first : b.headD 0 ≠ space ∧ b.headD 0 ≠ 0
  same : ∀ d : List UInt8, d.length = 8 → d.headD 0 ≠ space → pass d = b

/-- The pass gives up at the first character. -/
structure GivesUp (pass : List UInt8 → List UInt8) : Prop where
  stays : ∀ d : List UInt8, d.length = 8 → d.headD 0 = space → pass d = d
  blanks : (∀ d : List UInt8, d.length = 8 → d.headD 0 ≠ space → pass d = List.replicate 8 space) ∨
    ∀ d : List UInt8, d.length = 8 → d.headD 0 ≠ space → pass d = d.set 0 space

theorem basePass_cases (src : CStr) :
    (∃ b, Rewrites (basePass src) b) ∨
      (∀ d : List UInt8, d.length = 8 → basePass src d = List.replicate 8 space) ∨
      GivesUp (basePass src) := by
  by_cases hdot : strrchr src dot = some 0
  · refine Or.inr (Or.inl fun d hd => ?_)
    obtain ⟨a, b, c, e, f, g, h, i, rfl⟩ := eight_chars hd
    unfold basePass
    rw [shortBasename_stuck hdot]
    rfl
  -- the first character, and where the loop goes on
  have hstep : ∃ c k', c ≠ 0 ∧ ∀ d : List UInt8, d.headD 0 ≠ space →
      basePass src d =
        shortBasename src (strrchr src dot) [1, 2, 3, 4, 5, 6, 7] k' (d.set 0 c) :=
    shortBasename_next hdot 0 [1, 2, 3, 4, 5, 6, 7]
  obtain ⟨c, k', hzero, hpass⟩ := hstep
  by_cases hc : c = space
  · subst hc
    refine Or.inr (Or.inr ⟨fun d _ hd => ?_, ?_⟩)
    · exact shortBasename_lossy hdot hd _
    · by_cases hk : strrchr src dot = some k'
      · refine Or.inl fun d hd hfirst => ?_
        obtain ⟨a, b, c, e, f, g, h, i, rfl⟩ := eight_chars hd
        rw [hpass _ hfirst, shortBasename_stuck hk]
        rfl
      · refine Or.inr fun d hd hfirst => ?_
        obtain ⟨a, b, c, e, f, g, h, i, rfl⟩ := eight_chars hd
        rw [hpass _ hfirst, shortBasename_lossy hk rfl]
  · obtain ⟨cs, hlen, hcs⟩ := shortBasename_writes src (strrchr src dot)
      (by decide : 0 ∉ [1, 2, 3, 4, 5, 6, 7]) k'
    match cs, hlen with
    | [c1, c2, c3, c4, c5, c6, c7], _ =>
      refine Or.inl ⟨[c, c1, c2, c3, c4, c5, c6, c7], rfl, ⟨hc, hzero⟩, fun d hd hfirst => ?_⟩
      obtain ⟨a, b, c', e, f, g, h, i, rfl⟩ := eight_chars hd
      rw [hpass _ hfirst, hcs ([a, b, c', e, f, g, h, i].set 0 c) hc]
      rfl

/-! ## The tail -/

theorem shortTail_high (d : List UInt8) {num : UInt8} (h : 4 < num) :
    shortTail d num = d.set 7 0x31 := if_pos h

theorem shortTail_length (d : List UInt8) (num : UInt8) : (shortTail d num).length = d.length := by
  unfold shortTail
  split
  · exact List.length_set
  · simp only [List.length_set]

/-- The tail is within the basename. -/
theorem shortTail_append (hd : d.length = 8) (ext : List UInt8) (num : UInt8) :
    shortTail (d ++ ext) num = shortTail d num ++ ext := by
  unfold shortTail
  by_cases hnum : 4 < num
  · rw [if_pos hnum, if_pos hnum, List.set_append_left _ _ (by omega)]
  · rw [if_neg hnum, if_neg hnum]
    simp only
    have hq : (if (((d ++ ext).takeWhile fun c => c ≠ space ∧ c ≠ 0).length ≤ 6 ∧
          (d ++ ext).getD ((d ++ ext).takeWhile fun c => c ≠ space ∧ c ≠ 0).length 0 = space)
        then ((d ++ ext).takeWhile fun c => c ≠ space ∧ c ≠ 0).length else 6) =
        if ((d.takeWhile fun c => c ≠ space ∧ c ≠ 0).length ≤ 6 ∧
          d.getD (d.takeWhile fun c => c ≠ space ∧ c ≠ 0).length 0 = space)
        then (d.takeWhile fun c => c ≠ space ∧ c ≠ 0).length else 6 := by
      by_cases hall : (d.takeWhile fun c => c ≠ space ∧ c ≠ 0).length = d.length
      · rw [List.takeWhile_append, if_pos hall, if_neg (by rw [List.length_append]; omega),
          if_neg (by omega)]
      · have hle := (List.takeWhile_prefix (fun c => decide (c ≠ space ∧ c ≠ 0)) (l := d)).length_le
        rw [List.takeWhile_append, if_neg hall, List.getD_append _ _ _ _ (by omega)]
    rw [hq]
    split <;> rw [List.set_append_left _ _ (by omega),
      List.set_append_left _ _ (by rw [List.length_set]; omega)]

/-- A basename keeps its first character. -/
theorem shortTail_headD (hd : d.headD 0 ≠ space) (num : UInt8) :
    (shortTail d num).headD 0 = d.headD 0 := by
  cases d with
  | nil =>
    unfold shortTail
    split <;> simp
  | cons c d =>
    have hc : c ≠ space := hd
    unfold shortTail
    split
    · rfl
    · simp only
      split
      · rename_i hq
        by_cases hzero : c = 0
        · subst hzero
          exact absurd hq.2 (by simp [space])
        · rw [List.takeWhile_cons_of_pos (by simp [hc, hzero])]
          rfl
      · rfl

/-- Behind a space there is nothing in front of the tail. -/
theorem shortTail_space (c : UInt8) (l : List UInt8) {num : UInt8} (h : ¬ 4 < num) :
    shortTail (space :: c :: l) num = 0x7e :: (num + 0x30) :: l := by
  unfold shortTail
  rw [if_neg h]
  rfl

/-! ## All candidates -/

theorem tfShortenFilename_eq (dest : List UInt8) (src : CStr) (num : UInt8) :
    tfShortenFilename dest src num =
      shortTail (basePass src (dest.take 8) ++ sfnExtension src) num := rfl

theorem baseCandidate_length (hdest : 8 ≤ dest.length) (src : CStr) (j : Nat) :
    (baseCandidate dest src j).length = 8 := by
  induction j with
  | zero =>
    rw [baseCandidate, List.length_take]
    omega
  | succ j ih =>
    rw [baseCandidate, shortTail_length, basePass, shortBasename_length, ih]

theorem basePass_length (hdest : 8 ≤ dest.length) (src : CStr) (j : Nat) :
    (basePass src (baseCandidate dest src j)).length = 8 := by
  rw [basePass, shortBasename_length, baseCandidate_length hdest]

/-- A candidate is a basename and the extension. -/
theorem sfnCandidate_eq (hdest : 8 ≤ dest.length) (src : CStr) (j : Nat) :
    sfnCandidate dest src (j + 1) = baseCandidate dest src (j + 1) ++ sfnExtension src := by
  have htake : ∀ i, (sfnCandidate dest src i).take 8 = baseCandidate dest src i →
      sfnCandidate dest src (i + 1) = baseCandidate dest src (i + 1) ++ sfnExtension src := by
    intro i hi
    rw [sfnCandidate, tfShortenFilename_eq, hi, shortTail_append (basePass_length hdest src i)]
    rfl
  induction j with
  | zero => exact htake 0 rfl
  | succ j ih =>
    apply htake
    rw [ih, List.take_left' (baseCandidate_length hdest src (j + 1))]

theorem sfnCandidate_length (hdest : 8 ≤ dest.length) (src : CStr) (j : Nat) :
    (sfnCandidate dest src (j + 1)).length = 11 := by
  rw [sfnCandidate_eq hdest, List.length_append, baseCandidate_length hdest, sfnExtension_length]

/-- The number is a `char`. -/
theorem ofNat_add_period (j : Nat) : UInt8.ofNat (j + 256) = UInt8.ofNat j := by
  apply UInt8.toNat_inj.mp
  rw [UInt8.toNat_ofNat', UInt8.toNat_ofNat', Nat.add_mod_right]

/-- Where all passes give the same basename only the number counts. -/
theorem baseCandidate_const {b : List UInt8}
    (h : ∀ j, basePass src (baseCandidate dest src j) = b) (j : Nat) :
    baseCandidate dest src (j + 1) = shortTail b (UInt8.ofNat (j + 1)) := by
  rw [baseCandidate, h j]

theorem Rewrites.const {b : List UInt8} (h : Rewrites (basePass src) b) (hdest : 8 ≤ dest.length)
    (hfirst : dest.headD 0 ≠ space) (j : Nat) : basePass src (baseCandidate dest src j) = b := by
  refine h.same _ (baseCandidate_length hdest src j) ?_
  induction j with
  | zero =>
    cases dest with
    | nil => simp at hdest
    | cons c dest => exact hfirst
  | succ j ih =>
    rw [baseCandidate, h.same _ (baseCandidate_length hdest src j) ih,
      shortTail_headD h.first.1]
    exact h.first.1

section GivesUp
variable (h : GivesUp (basePass src)) (hdest : 8 ≤ dest.length)
include h hdest

/-- From a space in the first place the numbers above four lead nowhere. -/
theorem GivesUp.high {j : Nat} (hj : (baseCandidate dest src j).headD 0 = space)
    (hnum : 4 < UInt8.ofNat (j + 1)) :
    baseCandidate dest src (j + 1) = (baseCandidate dest src j).set 7 0x31 := by
  rw [baseCandidate, h.stays _ (baseCandidate_length hdest src j) hj, shortTail_high _ hnum]

/-- And the next small number is written at the front again. -/
theorem GivesUp.low {j : Nat} {c : UInt8} {l : List UInt8}
    (hj : baseCandidate dest src j = space :: c :: l) (hnum : ¬ 4 < UInt8.ofNat (j + 1)) :
    baseCandidate dest src (j + 1) = 0x7e :: (UInt8.ofNat (j + 1) + 0x30) :: l := by
  have hlen := baseCandidate_length hdest src j
  rw [baseCandidate, h.stays _ hlen (by rw [hj]; rfl), hj, shortTail_space c l hnum]

/-- The candidates `5` to `255` are the same. -/
theorem GivesUp.middle (hfive : (baseCandidate dest src 5).headD 0 = space)
    (hlast : (baseCandidate dest src 5).set 7 0x31 = baseCandidate dest src 5) {j : Nat}
    (hj : 5 ≤ j) (hj' : j ≤ 255) : baseCandidate dest src j = baseCandidate dest src 5 := by
  induction j, hj using Nat.le_induction with
  | base => rfl
  | succ j hle ih =>
    have heq := ih (by omega)
    have hnum : 4 < UInt8.ofNat (j + 1) := by
      rw [UInt8.lt_iff_toNat_lt, UInt8.toNat_ofNat']
      show 4 < (j + 1) % 2 ^ 8
      omega
    rw [h.high hdest (by rw [heq]; exact hfive) hnum, heq, hlast]

theorem GivesUp.period (hfirst : dest.headD 0 ≠ space) :
    baseCandidate dest src 261 = baseCandidate dest src 5 := by
  have hlen := baseCandidate_length hdest src
  have hstart : (baseCandidate dest src 0).headD 0 ≠ space := by
    cases dest with
    | nil => simp at hdest
    | cons c dest => exact hfirst
  rcases h.blanks with hblank | hloose
  · -- a pass over a candidate with a tail blanks all of it
    have hstep : ∀ j, (baseCandidate dest src j).headD 0 ≠ space →
        baseCandidate dest src (j + 1) =
          shortTail (List.replicate 8 space) (UInt8.ofNat (j + 1)) := by
      intro j hj
      rw [baseCandidate, hblank _ (hlen j) hj]
    have h1 := hstep 0 hstart
    have h2 := hstep 1 (by rw [h1]; decide)
    have h3 := hstep 2 (by rw [h2]; decide)
    have h4 := hstep 3 (by rw [h3]; decide)
    have h5 := hstep 4 (by rw [h4]; decide)
    have h255 := h.middle hdest (by rw [h5]; decide) (by rw [h5]; decide) (j := 255) (by decide)
      (by decide)
    have h256 := h.low hdest (j := 255) (c := space) (l := List.replicate 5 space ++ [0x31])
      (by rw [h255, h5]; decide) (by decide)
    have h257 := hstep 256 (by rw [h256]; decide)
    have h258 := hstep 257 (by rw [h257]; decide)
    have h259 := hstep 258 (by rw [h258]; decide)
    have h260 := hstep 259 (by rw [h259]; decide)
    rw [hstep 260 (by rw [h260]; decide), h5]
    decide
  · -- or only the first character, and the tail comes over the second one
    have hpass : ∀ j c b l, baseCandidate dest src j = c :: b :: l → c ≠ space →
        basePass src (baseCandidate dest src j) = space :: b :: l := by
      intro j c b l hj hc
      rw [hloose _ (hlen j) (by rw [hj]; exact hc), hj]
      rfl
    have hstep : ∀ j c b l, baseCandidate dest src j = c :: b :: l → c ≠ space →
        ¬ 4 < UInt8.ofNat (j + 1) →
        baseCandidate dest src (j + 1) = 0x7e :: (UInt8.ofNat (j + 1) + 0x30) :: l := by
      intro j c b l hj hc hnum
      rw [baseCandidate, hpass j c b l hj hc, shortTail_space b l hnum]
    obtain ⟨a0, a1, a2, a3, a4, a5, a6, a7, h0⟩ := eight_chars (hlen 0)
    rw [h0] at hstart
    have h1 := hstep 0 _ _ _ h0 hstart (by decide)
    have h2 := hstep 1 _ _ _ h1 (by decide) (by decide)
    have h3 := hstep 2 _ _ _ h2 (by decide) (by decide)
    have h4 := hstep 3 _ _ _ h3 (by decide) (by decide)
    have h5 : baseCandidate dest src 5 =
        [space, UInt8.ofNat 4 + 0x30, a2, a3, a4, a5, a6, 0x31] := by
      rw [baseCandidate, hpass 4 _ _ _ h4 (by decide), shortTail_high _ (by decide)]
      rfl
    have h255 := h.middle hdest (by rw [h5]; rfl) (by rw [h5]; rfl) (j := 255) (by decide)
      (by decide)
    have h256 := h.low hdest (h255.trans h5) (by decide)
    have h257 := hstep 256 _ _ _ h256 (by decide) (by decide)
    have h258 := hstep 257 _ _ _ h257 (by decide) (by decide)
    have h259 := hstep 258 _ _ _ h258 (by decide) (by decide)
    have h260 := hstep 259 _ _ _ h259 (by decide) (by decide)
    rw [h5, baseCandidate, hpass 260 _ _ _ h260 (by decide), shortTail_high _ (by decide)]
    rfl

end GivesUp

/-- Whatever the number of rounds, the candidate is one of the first 260. -/
theorem baseCandidate_repeats (hdest : 8 ≤ dest.length) (hfirst : dest.headD 0 ≠ space)
    (src : CStr) {j : Nat} (hj : 1 ≤ j) :
    ∃ i, 1 ≤ i ∧ i ≤ 260 ∧ baseCandidate dest src i = baseCandidate dest src j := by
  have hconst : ∀ b : List UInt8, (∀ i, basePass src (baseCandidate dest src i) = b) →
      ∃ i, 1 ≤ i ∧ i ≤ 260 ∧ baseCandidate dest src i = baseCandidate dest src j := by
    intro b hb
    refine ⟨(j - 1) % 256 + 1, by omega, by omega, ?_⟩
    obtain ⟨m, rfl⟩ := Nat.exists_eq_succ_of_ne_zero (Nat.ne_of_gt hj)
    rw [baseCandidate_const hb, baseCandidate_const hb]
    congr 1
    apply UInt8.toNat_inj.mp
    rw [UInt8.toNat_ofNat', UInt8.toNat_ofNat']
    omega
  rcases basePass_cases src with ⟨b, hb⟩ | hb | hgives
  · exact hconst b (hb.const hdest hfirst)
  · exact hconst _ fun i => hb _ (baseCandidate_length hdest src i)
  · have hperiod : ∀ m, 5 ≤ m → baseCandidate dest src (m + 256) = baseCandidate dest src m := by
      intro m hm
      induction m, hm using Nat.le_induction with
      | base => exact hgives.period hdest hfirst
      | succ m _ ih =>
        rw [Nat.add_right_comm, baseCandidate, ih, baseCandidate, Nat.add_right_comm,
          ofNat_add_period]
    have hback : ∀ n m, 5 ≤ m → baseCandidate dest src (m + 256 * n) = baseCandidate dest src m := by
      intro n
      induction n with
      | zero => exact fun m _ => rfl
      | succ n ih =>
        intro m hm
        rw [Nat.mul_succ, ← Nat.add_assoc, hperiod _ (by omega), ih m hm]
    by_cases hsmall : j ≤ 260
    · exact ⟨j, hj, hsmall, rfl⟩
    · refine ⟨5 + (j - 5) % 256, by omega, by omega, ?_⟩
      rw [← hback ((j - 5) / 256) _ (by omega)]
      congr 1
      omega

theorem sfnCandidate_repeats (hdest : 8 ≤ dest.length) (hfirst : dest.headD 0 ≠ space)
    (src : CStr) {j : Nat} (hj : 1 ≤ j) :
    ∃ i, 1 ≤ i ∧ i ≤ 260 ∧ sfnCandidate dest src i = sfnCandidate dest src j := by
  obtain ⟨i, hi, hle, heq⟩ := baseCandidate_repeats hdest hfirst src hj
  obtain ⟨m, rfl⟩ := Nat.exists_eq_succ_of_ne_zero (Nat.ne_of_gt hj)
  obtain ⟨i, rfl⟩ := Nat.exists_eq_succ_of_ne_zero (Nat.ne_of_gt hi)
  refine ⟨i + 1, hi, hle, ?_⟩
  rw [sfnCandidate_eq hdest, sfnCandidate_eq hdest, heq]

/-! ## Looking for a candidate -/

theorem shortTail_ne_zero (hd : d.headD 0 ≠ 0) (num : UInt8) : (shortTail d num).headD 0 ≠ 0 := by
  cases d with
  | nil => exact absurd rfl hd
  | cons c d =>
    unfold shortTail
    split
    · exact hd
    · simp only
      generalize (if ((c :: d).takeWhile fun c => c ≠ space ∧ c ≠ 0).length ≤ 6 ∧
        (c :: d).getD ((c :: d).takeWhile fun c => c ≠ space ∧ c ≠ 0).length 0 = space
        then ((c :: d).takeWhile fun c => c ≠ space ∧ c ≠ 0).length else 6) = p
      cases p with
      | zero => exact (by decide : (0x7e : UInt8) ≠ 0)
      | succ p => exact hd

theorem baseCandidate_ne_zero (hdest : 8 ≤ dest.length) (hfirst : dest.headD 0 ≠ space)
    (src : CStr) (j : Nat) : (baseCandidate dest src (j + 1)).headD 0 ≠ 0 := by
  rw [baseCandidate]
  apply shortTail_ne_zero
  have hlen := baseCandidate_length hdest src j
  rcases basePass_cases src with ⟨b, hb⟩ | hb | hgives
  · rw [hb.const hdest hfirst]
    exact hb.first.2
  · rw [hb _ hlen]
    decide
  · by_cases hspace : (baseCandidate dest src j).headD 0 = space
    · rw [hgives.stays _ hlen hspace, hspace]
      decide
    · rcases hgives.blanks with hblank | hloose
      · rw [hblank _ hlen hspace]
        decide
      · rw [hloose _ hlen hspace]
        obtain ⟨a, b, c, e, f, g, h, i, heq⟩ := eight_chars hlen
        rw [heq]
        exact (by decide : space ≠ 0)

theorem trialName_ne_nil (hdest : 8 ≤ dest.length) (hfirst : dest.headD 0 ≠ space) (src : CStr)
    (j : Nat) : trialName (sfnCandidate dest src (j + 1)) ≠ [] := by
  have hne := baseCandidate_ne_zero hdest hfirst src j
  rw [trialName, sfnCandidate_eq hdest, List.take_left' (baseCandidate_length hdest src (j + 1))]
  obtain ⟨a, b, c, e, f, g, h, i, heq⟩ := eight_chars (baseCandidate_length hdest src (j + 1))
  rw [heq] at hne ⊢
  rw [List.cons_append, List.takeWhile_cons_of_pos (by simpa using hne)]
  exact List.cons_ne_nil _ _

/-- The entry is one that the lookup of `dest` can recognise: the scan comes to it, and the eleven
characters have neither a space nor a slash. -/
structure Recognised (entry : Nat → FatFileEntry) (dest : List UInt8) (k : Nat) : Prop where
  scanned : ScansTo entry (trialName dest) k
  noSpace : space ∉ dest
  noSlash : slash ∉ dest

variable {entry : Nat → FatFileEntry} {e : FatFileEntry}

theorem getD_takeWhile_length (l : List UInt8) : l.getD (l.takeWhile (· ≠ 0)).length 0 = 0 := by
  induction l with
  | nil => rfl
  | cons c l ih =>
    by_cases hc : c = 0
    · subst hc
      rfl
    · rw [List.takeWhile_cons_of_pos (by simpa using hc), List.length_cons, List.getD_cons_succ]
      exact ih

/-- Without spaces and slashes the lookup is that of the short name itself. -/
theorem segment_trialName (hlen : dest.length = 11) (hshort : e.attributes ≠ tfAttrLongName)
    (he : e.take 11 = dest) (hspace : space ∉ dest) (hslash : slash ∉ dest) :
    tfCompareFilenameSegment e (trialName dest) = true := by
  have hbase : e.take 8 = dest.take 8 := by
    rw [← he, List.take_take]
    rfl
  have hext : (e.drop 8).take 3 = dest.drop 8 := by
    rw [← he, List.drop_take]
  have hkept : ∀ l : List UInt8, l ⊆ dest → l.filter (· ≠ space) = l := by
    intro l hl
    refine List.filter_eq_self.mpr fun c hc => ?_
    have hne : c ≠ space := fun heq => hspace (heq ▸ hl hc)
    simpa using hne
  have hname : reformattedFile e = dest.take 8 ++ dot :: dest.drop 8 := by
    have hne : dest.drop 8 ≠ [] := by
      intro hnil
      have := congrArg List.length hnil
      rw [List.length_drop, hlen] at this
      simp at this
    rw [reformattedFile, if_pos hshort]
    simp only [hbase, hext]
    rw [hkept _ (List.take_subset 8 dest), hkept _ (List.drop_subset 8 dest), if_neg hne]
  have hstart := List.takeWhile_prefix (· ≠ 0) (l := dest.take 8 ++ dot :: dest.drop 8)
  have hwhole : (trialName dest).takeWhile (· ≠ slash) = trialName dest := by
    apply takeWhile_noSlash
    intro hmem
    rcases List.mem_append.mp (List.takeWhile_subset _ hmem) with hin | hin
    · exact hslash (List.take_subset 8 dest hin)
    · rcases List.mem_cons.mp hin with heq | hin
      · cases heq
      · exact hslash (List.drop_subset 8 dest hin)
  have hle : (trialName dest).length ≤ 12 := by
    have := hstart.length_le
    rw [List.length_append, List.length_cons, List.length_take, List.length_drop, hlen] at this
    exact this
  simp only [tfCompareFilenameSegment, hwhole]
  rw [if_neg (by omega), decide_eq_true_eq, hname, strncasecmpZero_iff _ _ (Nat.le_refl _)]
  refine ⟨getD_takeWhile_length _, fun i hi => ?_⟩
  have hi' := lt_of_lt_of_le hi hstart.length_le
  rw [List.getD_eq_getElem _ _ hi, List.getD_eq_getElem _ _ hi']
  exact congrArg toLowCase (hstart.getElem hi)

/-- An entry with the candidate for its short name is found if it can be recognised. -/
theorem Recognised.found {k : Nat} (h : Recognised entry dest k) (hlen : dest.length = 11)
    (hused : entryByte (entry k) 0 ≠ 0) (hshort : (entry k).attributes ≠ tfAttrLongName)
    (he : (entry k).take 11 = dest) : FindsName entry (trialName dest) :=
  ⟨k, k, h.scanned, Or.inl ⟨⟨hused, hshort, segment_trialName hlen hshort he h.noSpace h.noSlash⟩,
    rfl⟩⟩

/-! ## Choosing -/

/-- The lookups of the candidates before the `j`-th find something, and that one's does not. -/
structure FirstMissing (entry : Nat → FatFileEntry) (dest : List UInt8) (src : CStr) (j : Nat) :
    Prop where
  pos : 1 ≤ j
  missing : ¬ FindsName entry (trialName (sfnCandidate dest src j))
  before : ∀ i, 1 ≤ i → i < j → FindsName entry (trialName (sfnCandidate dest src i))

/-- Nothing that the scans for the candidates look at is outside of the chain. -/
def CandidatesStay (shape : TFShape) (cs : List Nat) (entry : Nat → FatFileEntry)
    (dest : List UInt8) (src : CStr) : Prop :=
  ∀ j, 1 ≤ j → StaysIn shape cs entry (trialName (sfnCandidate dest src j))

variable {s : Fat32} {fp i j m n q : Nat} {f : TFFile} {cs : List Nat}

/-- One candidate. -/
theorem chooseSfnRound_run (h : InDir s xfile cs f i) (hdest : 8 ≤ dest.length)
    (hfirst : dest.headD 0 ≠ space)
    (hstays : CandidatesStay s.info.shape cs (dirEntry s.info.shape s.volume cs) dest src) (j : Nat) :
    ∃ t i', Moved s t xfile (moveTo s.info.shape cs (32 * i') f) ∧
      ((FindsName (dirEntry s.info.shape s.volume cs) (trialName (sfnCandidate dest src (j + 1))) ∧
        chooseSfnRound src (UInt8.ofNat (j + 1), sfnCandidate dest src j) s =
          .ok (.inl (UInt8.ofNat (j + 1 + 1), sfnCandidate dest src (j + 1))) t) ∨
      (¬ FindsName (dirEntry s.info.shape s.volume cs)
          (trialName (sfnCandidate dest src (j + 1))) ∧
        chooseSfnRound src (UInt8.ofNat (j + 1), sfnCandidate dest src j) s =
          .ok (.inr (sfnCandidate dest src (j + 1))) t)) := by
  have hrounds : (2 ^ 27 - 1) + 1 ≤ fileRounds := by decide
  have hne := trialName_ne_nil hdest hfirst src j
  have hnum : UInt8.ofNat (j + 1) + 1 = UInt8.ofNat (j + 1 + 1) := by
    apply UInt8.toNat_inj.mp
    rw [UInt8.toNat_add, UInt8.toNat_ofNat', UInt8.toNat_ofNat']
    show ((j + 1) % 2 ^ 8 + 1) % 2 ^ 8 = (j + 1 + 1) % 2 ^ 8
    omega
  rcases search_cases_of_stays (hstays (j + 1) (Nat.le_add_left _ _)) with
    ⟨hfinds, i', hsearch⟩ | ⟨hnot, hsearch⟩
  · obtain ⟨t, i'', hrun, hmoved, _⟩ := tfFindFile_run hne h hrounds hsearch (by simp)
    refine ⟨t, i'', hmoved, Or.inl ⟨hfinds, ?_⟩⟩
    unfold chooseSfnRound
    show (tfFindFile xfile (trialName (sfnCandidate dest src (j + 1))) >>= _) s = _
    rw [bind_ok hrun, ← hnum]
    rfl
  · obtain ⟨t, i'', hrun, hmoved, _⟩ := tfFindFile_run hne h hrounds hsearch (by simp)
    refine ⟨t, i'', hmoved, Or.inr ⟨hnot, ?_⟩⟩
    unfold chooseSfnRound
    show (tfFindFile xfile (trialName (sfnCandidate dest src (j + 1))) >>= _) s = _
    rw [bind_ok hrun]
    rfl

/-- The loop ends at the first candidate that is not found. -/
theorem chooseSfn_loop_run (h : InDir s xfile cs f i) (hdest : 8 ≤ dest.length)
    (hfirst : dest.headD 0 ≠ space)
    (hstays : CandidatesStay s.info.shape cs (dirEntry s.info.shape s.volume cs) dest src)
    (hmissing : FirstMissing (dirEntry s.info.shape s.volume cs) dest src (j + n + 1))
    (hfuel : n < q) :
    ∃ t, loop (chooseSfnRound src) q (UInt8.ofNat (j + 1), sfnCandidate dest src j) s =
      .ok (sfnCandidate dest src (j + n + 1)) t := by
  induction n generalizing s i j q with
  | zero =>
    obtain ⟨q, rfl⟩ := Nat.exists_eq_succ_of_ne_zero (Nat.ne_of_gt hfuel)
    obtain ⟨t, i', _, ⟨hfinds, _⟩ | ⟨_, hround⟩⟩ := chooseSfnRound_run h hdest hfirst hstays j
    · exact absurd hfinds hmissing.missing
    · exact ⟨t, loop_done hround q⟩
  | succ n ih =>
    obtain ⟨q, rfl⟩ := Nat.exists_eq_succ_of_ne_zero (Nat.ne_zero_of_lt hfuel)
    obtain ⟨t, i', hmoved, ⟨_, hround⟩ | ⟨hnot, _⟩⟩ := chooseSfnRound_run h hdest hfirst hstays j
    · have hindex : j + (n + 1) + 1 = j + 1 + n + 1 := by omega
      rw [hindex] at hmissing ⊢
      have hshape := hmoved.same.shape
      have hvolume := hmoved.same.volume
      obtain ⟨u, hloop⟩ := ih (q := q) (h.moved hmoved)
        (by rw [hshape, hvolume]; exact hstays) (by rw [hshape, hvolume]; exact hmissing) (by omega)
      exact ⟨u, (loop_again hround q).trans hloop⟩
    · exact absurd (hmissing.before (j + 1) (Nat.le_add_left _ _) (by omega)) hnot

/-- Where all candidates are found the loop does not end. -/
theorem chooseSfn_loop_never (h : InDir s xfile cs f i) (hdest : 8 ≤ dest.length)
    (hfirst : dest.headD 0 ≠ space)
    (hstays : CandidatesStay s.info.shape cs (dirEntry s.info.shape s.volume cs) dest src)
    (hall : ∀ j, 1 ≤ j →
      FindsName (dirEntry s.info.shape s.volume cs) (trialName (sfnCandidate dest src j)))
    (q : Nat) (c : List UInt8) (t : Fat32) :
    loop (chooseSfnRound src) q (UInt8.ofNat (j + 1), sfnCandidate dest src j) s ≠ .ok c t := by
  induction q generalizing s i j with
  | zero =>
    intro hloop
    cases hloop
  | succ q ih =>
    obtain ⟨u, i', hmoved, ⟨_, hround⟩ | ⟨hnot, _⟩⟩ := chooseSfnRound_run h hdest hfirst hstays j
    · have hshape := hmoved.same.shape
      have hvolume := hmoved.same.volume
      rw [loop_again hround q]
      exact ih (h.moved hmoved) (by rw [hshape, hvolume]; exact hstays)
        (by rw [hshape, hvolume]; exact hall)
    · exact absurd (hall (j + 1) (Nat.le_add_left _ _)) hnot

/-- The directory ends at entry `m`. -/
structure FirstEnd (entry : Nat → FatFileEntry) (m : Nat) : Prop where
  mark : entryByte (entry m) 0 = 0
  used : ∀ k < m, entryByte (entry k) 0 ≠ 0

/-- `tf_choose_sfn` returns with a short name that no entry of the directory has. -/
def ChoosesFresh (s : Fat32) (fp : Nat) (cs : List Nat) (m : Nat) (dest : List UInt8)
    (src : CStr) : Prop :=
  ∃ c t, tfChooseSfn dest src fp s = .ok c t ∧
    ∀ k < m, (dirEntry s.info.shape s.volume cs k).attributes ≠ tfAttrLongName →
      (dirEntry s.info.shape s.volume cs k).take 11 ≠ c

/-- Some candidate is not found. -/
def Supplied (entry : Nat → FatFileEntry) (dest : List UInt8) (src : CStr) : Prop :=
  ∃ j, 1 ≤ j ∧ ¬ FindsName entry (trialName (sfnCandidate dest src j))

/-- The entries that have the candidate which is not found for their short name can all be
recognised. -/
def CollisionsSeen (entry : Nat → FatFileEntry) (m : Nat) (dest : List UInt8) (src : CStr) : Prop :=
  ∀ j, FirstMissing entry dest src j → ∀ k < m, (entry k).attributes ≠ tfAttrLongName →
    (entry k).take 11 = sfnCandidate dest src j → Recognised entry (sfnCandidate dest src j) k

theorem FirstMissing.unique {i : Nat} (hi : FirstMissing entry dest src i)
    (hj : FirstMissing entry dest src j) : i = j := by
  rcases Nat.lt_trichotomy i j with hlt | heq | hgt
  · exact absurd (hj.before i hi.pos hlt) hi.missing
  · exact heq
  · exact absurd (hi.before j hj.pos hgt) hj.missing

/-- There are at most 260 rounds. -/
theorem Supplied.first (h : Supplied entry dest src) (hdest : 8 ≤ dest.length)
    (hfirst : dest.headD 0 ≠ space) : ∃ j, FirstMissing entry dest src j ∧ j ≤ 260 := by
  classical
  obtain ⟨hpos, hmissing⟩ := Nat.find_spec h
  refine ⟨Nat.find h, ⟨hpos, hmissing, fun i hi hlt => ?_⟩, ?_⟩
  · by_contra hnot
    exact Nat.find_min h hlt ⟨hi, hnot⟩
  · obtain ⟨j, hj, hnot⟩ := h
    obtain ⟨i, hi, hle, heq⟩ := sfnCandidate_repeats hdest hfirst src hj
    exact le_trans (Nat.find_min' _ ⟨hi, heq ▸ hnot⟩) hle

/-- `tf_choose_sfn` ends with a short name of its own if and only if some of its candidates is not
found in the directory, and no entry has the first of these for its short name without the lookup
being able to recognise it. -/
theorem tfChooseSfn_fresh_iff (h : InDir s fp cs f i)
    (hend : FirstEnd (dirEntry s.info.shape s.volume cs) m)
    (hdest : dest = (dirEntry s.info.shape s.volume cs m).take 11) (src : CStr)
    (hstays : CandidatesStay s.info.shape cs (dirEntry s.info.shape s.volume cs) dest src) :
    ChoosesFresh s fp cs m dest src ↔
      Supplied (dirEntry s.info.shape s.volume cs) dest src ∧
        CollisionsSeen (dirEntry s.info.shape s.volume cs) m dest src := by
  have hlen : dest.length = 11 := by
    rw [hdest, List.length_take, dirEntry, fileBytes_length]
    rfl
  have hlen8 : 8 ≤ dest.length := by omega
  have hfirst : dest.headD 0 ≠ space := by
    have hmark := hend.mark
    have hentry : (dirEntry s.info.shape s.volume cs m).length = 32 := fileBytes_length ..
    rw [hdest]
    cases hbytes : dirEntry s.info.shape s.volume cs m with
    | nil =>
      rw [hbytes] at hentry
      cases hentry
    | cons c l =>
      rw [hbytes] at hmark
      have hzero : c = 0 := hmark
      rw [hzero]
      exact (by decide : (0 : UInt8) ≠ space)
  -- the copy of the handle
  have hrun : tfChooseSfn dest src fp s = loop (chooseSfnRound src) fileRounds (1, dest)
      (s.setFile xfile (s.handles fp)) := rfl
  have hcopy : InDir (s.setFile xfile (s.handles fp)) xfile cs f i := by
    refine ⟨h.valid, h.coherent, h.chain, h.start, h.size, ?_⟩
    rw [Fat32.setFile_self]
    exact h.file
  have hone : (1 : UInt8) = UInt8.ofNat (0 + 1) := rfl
  constructor
  · rintro ⟨c, t, hchoose, hfresh⟩
    rw [hrun, hone] at hchoose
    have hsupplied : Supplied (dirEntry s.info.shape s.volume cs) dest src := by
      by_contra hnone
      refine chooseSfn_loop_never hcopy hlen8 hfirst hstays (fun j hj => ?_) fileRounds c t hchoose
      by_contra hnot
      exact hnone ⟨j, hj, hnot⟩
    refine ⟨hsupplied, fun j hj k hk hshort htaken => ?_⟩
    obtain ⟨j', hj', hle⟩ := hsupplied.first hlen8 hfirst
    cases hj.unique hj'
    obtain ⟨n, rfl⟩ := Nat.exists_eq_succ_of_ne_zero (Nat.ne_of_gt hj.pos)
    have hindex : 0 + n + 1 = n.succ := by omega
    obtain ⟨u, hloop⟩ := chooseSfn_loop_run (q := fileRounds) (n := n) (j := 0) hcopy hlen8
      hfirst hstays (by rw [hindex]; exact hj) (by simp only [fileRounds]; omega)
    rw [hindex] at hloop
    cases hchoose.symm.trans hloop
    exact absurd htaken (hfresh k hk hshort)
  · rintro ⟨hsupplied, hseen⟩
    obtain ⟨j, hj, hle⟩ := hsupplied.first hlen8 hfirst
    have hkeep := hseen j hj
    obtain ⟨n, rfl⟩ := Nat.exists_eq_succ_of_ne_zero (Nat.ne_of_gt hj.pos)
    have hindex : 0 + n + 1 = n.succ := by omega
    obtain ⟨u, hloop⟩ := chooseSfn_loop_run (q := fileRounds) (n := n) (j := 0) hcopy hlen8
      hfirst hstays (by rw [hindex]; exact hj) (by simp only [fileRounds]; omega)
    rw [hindex] at hloop
    refine ⟨_, u, hrun.trans hloop, fun k hk hshort htaken => ?_⟩
    exact hj.missing ((hkeep k hk hshort htaken).found (sfnCandidate_length hlen8 src n)
      (hend.used k hk) hshort htaken)

/-! ## Two names -/

/-- The short name that `tf_create` gives to `a.txt`. -/
def tildeEntry : FatFileEntry :=
  shortEntry [0x41, 0x7e, 0x31, 0x20, 0x20, 0x20, 0x20, 0x20, 0x54, 0x58, 0x54]

/-- A directory with that entry. -/
def tildeVolume : Fat32 := rootVolume [tildeEntry]

theorem tildeVolume_endsAt : EndsAt tildeVolume.info.shape [2]
    (dirEntry tildeVolume.info.shape tildeVolume.volume [2]) 1 := by
  refine ⟨by decide, by decide, fun k hk n hn => ?_⟩
  have hzero : k = 0 := by omega
  subst hzero
  exact absurd hn.long (by decide)

theorem tildeVolume_firstEnd :
    FirstEnd (dirEntry tildeVolume.info.shape tildeVolume.volume [2]) 1 :=
  ⟨by decide, by decide⟩

/-- A lookup that does not find anything. -/
theorem tildeVolume_missing {name : CStr} (h : search tildeVolume.info.shape [2]
    (dirEntry tildeVolume.info.shape tildeVolume.volume [2]) name (2 ^ 27) 0 = .missing) :
    ¬ FindsName (dirEntry tildeVolume.info.shape tildeVolume.volume [2]) name := by
  rcases search_cases_of_stays (tildeVolume_endsAt.staysIn name) with ⟨_, j, hfound⟩ | ⟨hnot, _⟩
  · cases h.symm.trans hfound
  · exact hnot

theorem tildeVolume_first (name : CStr) (h : search tildeVolume.info.shape [2]
    (dirEntry tildeVolume.info.shape tildeVolume.volume [2])
    (trialName (sfnCandidate (List.replicate 11 0) name 1)) (2 ^ 27) 0 = .missing) :
    FirstMissing (dirEntry tildeVolume.info.shape tildeVolume.volume [2]) (List.replicate 11 0)
      name 1 :=
  ⟨Nat.le_refl 1, tildeVolume_missing h, fun i hi hlt => by omega⟩

theorem tfChooseSfn_fresh_iff_other :
    ChoosesFresh tildeVolume 0 [2] 1 (List.replicate 11 0) [0x62, 0x2e, 0x74, 0x78, 0x74] := by
  have hfirst := tildeVolume_first [0x62, 0x2e, 0x74, 0x78, 0x74] (by decide +kernel)
  refine (tfChooseSfn_fresh_iff (rootVolume_inDir [tildeEntry]) tildeVolume_firstEnd
    (by decide +kernel) _ fun j _ => tildeVolume_endsAt.staysIn _).mpr
      ⟨⟨1, Nat.le_refl 1, hfirst.missing⟩, fun j hj k hk _ htaken => ?_⟩
  cases hj.unique hfirst
  have hzero : k = 0 := by omega
  subst hzero
  exact absurd htaken (by decide +kernel)

/-- A second `a.txt` gets the same short name. -/
theorem tfChooseSfn_collides : ¬ ∀ (s : Fat32) (fp : Nat) (cs : List Nat) (f : TFFile) (i m : Nat)
    (src : CStr), InDir s fp cs f i → HasRoom s.info.shape cs (m + 1) →
    FirstEnd (dirEntry s.info.shape s.volume cs) m → src ≠ [] →
    ChoosesFresh s fp cs m ((dirEntry s.info.shape s.volume cs m).take 11) src := by
  intro hall
  have hdest : (dirEntry tildeVolume.info.shape tildeVolume.volume [2] 1).take 11 =
      List.replicate 11 0 := by decide +kernel
  obtain ⟨c, t, hrun, hfresh⟩ := hall tildeVolume 0 [2] notesFile 0 1
    [0x61, 0x2e, 0x74, 0x78, 0x74] (rootVolume_inDir [tildeEntry]) (by decide +kernel)
    tildeVolume_firstEnd (by decide)
  rw [hdest] at hrun
  have hfirst := tildeVolume_first [0x61, 0x2e, 0x74, 0x78, 0x74] (by decide +kernel)
  have hcopy : InDir (tildeVolume.setFile xfile (tildeVolume.handles 0)) xfile [2] notesFile 0 := by
    have h := rootVolume_inDir [tildeEntry]
    refine ⟨h.valid, h.coherent, h.chain, h.start, h.size, ?_⟩
    rw [Fat32.setFile_self]
    exact h.file
  obtain ⟨u, hloop⟩ := chooseSfn_loop_run (q := fileRounds) (n := 0) (j := 0) hcopy
    (by decide : 8 ≤ (List.replicate 11 (0 : UInt8)).length) (by decide)
    (fun j _ => tildeVolume_endsAt.staysIn _) hfirst (by decide)
  cases hrun.symm.trans hloop
  exact hfresh 0 (by decide) (by decide +kernel) (by decide +kernel)

end PageFaultOS
