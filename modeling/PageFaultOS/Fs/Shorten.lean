import Mathlib.Tactic
import PageFaultOS.Fs.Candidates

/-! What `tf_shorten_filename` of `fs/fat32.cpp` makes of a name. It asks `dest` for a space before
it has written anything there, so that what it writes depends on what was there before. -/

namespace PageFaultOS

/-- The characters that `tf_shorten_filename` sets out to strip, besides those that are not
printed. -/
def strippedChars : List UInt8 :=
  [0x22, 0x2a, 0x2e, 0x2f, 0x3a, 0x3c, 0x3e, 0x3f, 0x5b, 0x5c, 0x5d, 0x7c]

/-- The first three kept characters after the last dot, with spaces behind them. -/
def extensionOf (src : CStr) : List UInt8 :=
  let kept := match strrchr src dot with
    | none => []
    | some k => (src.drop (k + 1)).filter keptChar
  (kept.take 3).map upper ++ List.replicate (3 - kept.length) space

/-- An 8.3 name for `src` with the number `num`. -/
structure ShortNameFor (src : CStr) (num : UInt8) (out : List UInt8) : Prop where
  upperCase : ∀ c ∈ out, ¬ (0x61 ≤ c ∧ c ≤ 0x7a)
  printed : ∀ c ∈ out, 0x20 ≤ c ∧ c ≠ 0x7f
  stripped : ∀ c ∈ out, c ∉ strippedChars
  base : ∃ b, b.length ≤ 6 ∧
    out.take 8 = b ++ [0x7e, num + 0x30] ++ List.replicate (6 - b.length) space
  extension : out.drop 8 = extensionOf src

/-- The call makes an 8.3 name, and the same one whatever was at `dest`. -/
def ShortensWell (src : CStr) (num : UInt8) : Prop :=
  (∀ d d' : List UInt8, d.length = 11 → d'.length = 11 →
    tfShortenFilename d src num = tfShortenFilename d' src num) ∧
  ∀ d : List UInt8, d.length = 11 → ShortNameFor src num (tfShortenFilename d src num)

variable {src : CStr} {num c : UInt8} {d : List UInt8}

/-! ## The extension -/

theorem shortExtension_eq (n : Nat) (tmp : CStr) : shortExtension n tmp =
    ((tmp.filter keptChar).take n).map upper ++
      List.replicate (n - (tmp.filter keptChar).length) space := by
  induction n generalizing tmp with
  | zero => simp [shortExtension]
  | succ n ih =>
    have hfilter : tmp.filter keptChar = (tmp.dropWhile (¬ keptChar ·)).filter keptChar := by
      conv_lhs => rw [← List.takeWhile_append_dropWhile (p := fun c => decide (¬ keptChar c))
        (l := tmp)]
      rw [List.filter_append, List.filter_eq_nil_iff.mpr fun c hc => ?_, List.nil_append]
      have := List.mem_takeWhile_imp hc
      simpa using this
    rw [shortExtension, hfilter]
    cases hdrop : tmp.dropWhile (¬ keptChar ·) with
    | nil =>
      simp only [ih]
      simp [List.replicate_succ]
    | cons c rest =>
      have hkept : keptChar c = true := by
        have hhead := List.head?_dropWhile_not (fun c => decide (¬ keptChar c)) tmp
        rw [hdrop] at hhead
        simpa using hhead
      simp only [ih, List.filter_cons_of_pos hkept, List.take_succ_cons, List.map_cons,
        List.length_cons, Nat.add_sub_add_right, List.cons_append]

/-- The dot itself is not kept. -/
theorem sfnExtension_of_dot (hdot : strrchr src dot = some 0) (hhead : src.head? = some dot) :
    sfnExtension src = extensionOf src := by
  obtain ⟨rest, rfl⟩ := List.head?_eq_some_iff.mp hhead
  have hkept : ¬ keptChar dot = true := by decide
  unfold sfnExtension extensionOf
  rw [hdot]
  dsimp only
  rw [shortExtension_eq, List.drop_zero, List.filter_cons_of_neg hkept]
  rfl

/-! ## The characters -/

/-- A character that may stand in an 8.3 name. -/
def ShortChar (c : UInt8) : Prop :=
  ¬ (0x61 ≤ c ∧ c ≤ 0x7a) ∧ (0x20 ≤ c ∧ c ≠ 0x7f) ∧ c ∉ strippedChars

instance (c : UInt8) : Decidable (ShortChar c) := inferInstanceAs (Decidable (_ ∧ _))

theorem all_bytes {P : UInt8 → Prop} (h : ∀ n < 256, P (UInt8.ofNat n)) (c : UInt8) : P c := by
  have hc := h c.toNat c.toNat_lt
  rwa [UInt8.ofNat_toNat] at hc

/-- What is kept of a name and changed to upper case. -/
theorem shortChar_upper : ∀ c : UInt8, keptChar c → 0x20 ≤ c → ShortChar (upper c) :=
  all_bytes (by decide +kernel)

theorem upper_printed : ∀ c : UInt8, keptChar c → 0x20 ≤ upper c → 0x20 ≤ c :=
  all_bytes (by decide +kernel)

theorem shortChar_digit : ∀ num : UInt8, num ≤ 4 → ShortChar (num + 0x30) :=
  all_bytes (by decide +kernel)

theorem mem_extensionOf (hdot : strrchr src dot = some 0) : c ∈ extensionOf src ↔
    (∃ a ∈ ((src.drop 1).filter keptChar).take 3, upper a = c) ∨
      ((src.drop 1).filter keptChar).length < 3 ∧ c = space := by
  unfold extensionOf
  rw [hdot]
  simp only [List.mem_append, List.mem_map, List.mem_replicate, Nat.zero_add]
  rw [Nat.sub_ne_zero_iff_lt]

/-! ## The base name -/

theorem strrchr_zero (h : strrchr src c = some 0) : src.head? = some c := by
  unfold strrchr at h
  split at h
  case isTrue hmem =>
    have hrev : c ∈ src.reverse := List.mem_reverse.mpr hmem
    have hlt := List.idxOf_lt_length_of_mem hrev
    have hget : src.reverse[src.reverse.idxOf c]? = some c := by
      rw [List.getElem?_eq_getElem hlt, List.getElem_idxOf]
    rw [List.length_reverse] at hlt
    rw [List.getElem?_reverse hlt, Option.some.inj h] at hget
    rw [List.head?_eq_getElem?, hget]
  case isFalse => cases h

/-- A name whose last dot comes first has an empty base name. -/
theorem shorten_of_dot (hdot : strrchr src dot = some 0) (hd : d.length = 11) (hnum : num ≤ 4) :
    tfShortenFilename d src num =
      0x7e :: (num + 0x30) :: (List.replicate 6 space ++ extensionOf src) := by
  have hpass : basePass src (d.take 8) = List.replicate 8 space := by
    obtain ⟨a, b, c, e, f, g, h, i, heq⟩ := eight_chars (d := d.take 8) (by simp [hd])
    unfold basePass
    rw [shortBasename_stuck hdot, heq]
    rfl
  rw [tfShortenFilename_eq, hpass, shortTail_append (List.length_replicate ..),
    sfnExtension_of_dot hdot (strrchr_zero hdot)]
  show shortTail (space :: space :: List.replicate 6 space) num ++ _ = _
  rw [shortTail_space _ _ (UInt8.not_lt.mpr hnum)]
  rfl

/-- Any other name leaves what is behind a space at `dest`. -/
theorem shorten_of_space (hdot : strrchr src dot ≠ some 0) (c : UInt8) (hnum : num ≤ 4) :
    tfShortenFilename (space :: List.replicate 10 c) src num =
      0x7e :: (num + 0x30) :: (List.replicate 6 c ++ sfnExtension src) := by
  have hpass : basePass src (space :: c :: List.replicate 6 c) =
      space :: c :: List.replicate 6 c := shortBasename_lossy hdot rfl _
  rw [tfShortenFilename_eq]
  show shortTail (basePass src (space :: c :: List.replicate 6 c) ++ _) num = _
  rw [hpass, shortTail_append rfl, shortTail_space _ _ (UInt8.not_lt.mpr hnum)]
  rfl

theorem shortNameFor_of_dot (hdot : strrchr src dot = some 0) (hd : d.length = 11)
    (hnum : num ≤ 4) (hprinted : ∀ c ∈ ((src.drop 1).filter keptChar).take 3, 0x20 ≤ c) :
    ShortNameFor src num (tfShortenFilename d src num) := by
  rw [shorten_of_dot hdot hd hnum]
  have hchar : ∀ c ∈ (0x7e : UInt8) :: (num + 0x30) :: (List.replicate 6 space ++ extensionOf src),
      ShortChar c := by
    intro c hc
    rw [List.mem_cons, List.mem_cons, List.mem_append, List.mem_replicate,
      mem_extensionOf hdot] at hc
    rcases hc with rfl | rfl | ⟨_, rfl⟩ | ⟨a, ha, rfl⟩ | ⟨_, rfl⟩
    · decide
    · exact shortChar_digit num hnum
    · decide
    · have hkept := List.of_mem_filter (List.mem_of_mem_take ha)
      exact shortChar_upper a hkept (hprinted a ha)
    · decide
  exact ⟨fun c hc => (hchar c hc).1, fun c hc => (hchar c hc).2.1, fun c hc => (hchar c hc).2.2,
    ⟨[], Nat.zero_le 6, rfl⟩, rfl⟩

/-- The call makes an 8.3 name whatever was at `dest` just for the names that begin with their
last dot, and have no control character among the three that are kept behind it. -/
theorem tfShortenFilename_well_iff (src : CStr) (num : UInt8) (hnum : num ≤ 4) :
    ShortensWell src num ↔ strrchr src dot = some 0 ∧
      ∀ c ∈ ((src.drop 1).filter keptChar).take 3, 0x20 ≤ c := by
  constructor
  · rintro ⟨hsame, hname⟩
    have hdot : strrchr src dot = some 0 := by
      by_contra hdot
      have heq := hsame (space :: List.replicate 10 space) (space :: List.replicate 10 0x41) rfl rfl
      rw [shorten_of_space hdot _ hnum, shorten_of_space hdot _ hnum] at heq
      have hthird := congrArg (fun l => l[2]?) heq
      cases hthird
    refine ⟨hdot, fun c hc => ?_⟩
    have hkept : keptChar c := List.of_mem_filter (List.mem_of_mem_take hc)
    have hlen : (List.replicate 11 space).length = 11 := rfl
    have hprinted := (hname (List.replicate 11 space) hlen).printed (upper c) (by
      rw [shorten_of_dot hdot hlen hnum]
      refine List.mem_cons_of_mem _ (List.mem_cons_of_mem _ (List.mem_append_right _ ?_))
      exact (mem_extensionOf hdot).mpr (.inl ⟨c, hc, rfl⟩))
    exact upper_printed c hkept hprinted.1
  · rintro ⟨hdot, hprinted⟩
    refine ⟨fun d d' hd hd' => ?_, fun d hd => shortNameFor_of_dot hdot hd hnum hprinted⟩
    rw [shorten_of_dot hdot hd hnum, shorten_of_dot hdot hd' hnum]

/-- `.git`, the first time. -/
theorem tfShortenFilename_well_git :
    ShortensWell [0x2e, 0x67, 0x69, 0x74] 1 ↔
      strrchr [0x2e, 0x67, 0x69, 0x74] dot = some 0 ∧
        ∀ c ∈ ((([0x2e, 0x67, 0x69, 0x74] : CStr).drop 1).filter keptChar).take 3, 0x20 ≤ c :=
  tfShortenFilename_well_iff _ 1 (by decide)

/-- With a space at `dest` the name `a` comes to nothing: what is behind the space stays. -/
theorem tfShortenFilename_keeps_dest : ¬ ∀ (src : CStr) (num : UInt8), src ≠ [] →
    (0x2f : UInt8) ∉ src → 1 ≤ num → num ≤ 4 → ShortensWell src num := by
  intro hall
  obtain ⟨hsame, -⟩ := hall [0x61] 1 (by decide) (by decide) (by decide) (by decide)
  have heq := hsame (space :: List.replicate 10 space) (space :: List.replicate 10 0x41) rfl rfl
  exact absurd heq (by decide)

end PageFaultOS
