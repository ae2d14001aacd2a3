import Mathlib.Tactic
import PageFaultOS.Fs.NameMatch

/-! The name of an 8.3 entry, twice: `copysfn` stops at the first space of the base name and of
the extension, and `tf_compare_filename_segment` leaves out every space. -/

namespace PageFaultOS
open Exec Exec.Comp ByteMem

/-- An entry that is no part of a long name, and whose name is one of characters. -/
structure ShortEntry (e : FatFileEntry) : Prop where
  short : e.attributes ≠ tfAttrLongName
  noNul : (0 : UInt8) ∉ e.take 11

/-- Behind a space there are only spaces. -/
def Padded (field : List UInt8) : Prop := ∀ c ∈ field.dropWhile (· ≠ space), c = space

/-- Neither the base name nor the extension has a character behind a space. -/
def NoGap (e : FatFileEntry) : Prop := Padded (e.take 8) ∧ Padded ((e.drop 8).take 3)

instance (field : List UInt8) : Decidable (Padded field) :=
  List.decidableBAll (· = space) (field.dropWhile (· ≠ space))

instance (e : FatFileEntry) : Decidable (NoGap e) := inferInstanceAs (Decidable (_ ∧ _))

/-- The base name and the extension, if there is one. -/
def joinName (base extension : List UInt8) : List UInt8 :=
  if extension = [] then base else base ++ dot :: extension

/-- The bytes that `copysfn` stores. -/
def sfnName (e : FatFileEntry) : List UInt8 :=
  joinName ((e.take 8).takeWhile (· ≠ space)) (((e.drop 8).take 3).takeWhile (· ≠ space))

variable {e e' : FatFileEntry} {q field : List UInt8}

/-! ## The two decoders -/

theorem filter_eq_append (field : List UInt8) : field.filter (· ≠ space) =
    field.takeWhile (· ≠ space) ++ (field.dropWhile (· ≠ space)).filter (· ≠ space) := by
  conv_lhs => rw [← List.takeWhile_append_dropWhile (p := (· ≠ space)) (l := field)]
  have hkept : ∀ c ∈ field.takeWhile (· ≠ space), decide (c ≠ space) = true := by
    intro c hc
    exact List.mem_takeWhile_imp (p := fun x => decide (x ≠ space)) hc
  rw [List.filter_append, List.filter_eq_self.mpr hkept]

/-- Nothing is lost just where all spaces are at the end. -/
theorem padded_iff : Padded field ↔ (field.dropWhile (· ≠ space)).filter (· ≠ space) = [] := by
  rw [List.filter_eq_nil_iff]
  simp [Padded]

theorem Padded.filter_eq (h : Padded field) :
    field.filter (· ≠ space) = field.takeWhile (· ≠ space) := by
  rw [filter_eq_append, padded_iff.mp h, List.append_nil]

theorem takeWhile_length_le (field : List UInt8) :
    (field.takeWhile (· ≠ space)).length ≤ (field.filter (· ≠ space)).length := by
  rw [filter_eq_append, List.length_append]
  exact Nat.le_add_right _ _

theorem takeWhile_length_lt (h : ¬ Padded field) :
    (field.takeWhile (· ≠ space)).length < (field.filter (· ≠ space)).length := by
  rw [filter_eq_append, List.length_append]
  have hpos := List.length_pos_of_ne_nil fun hnil => h (padded_iff.mpr hnil)
  omega

theorem joinName_length (base extension : List UInt8) : (joinName base extension).length =
    base.length + if extension.length = 0 then 0 else extension.length + 1 := by
  unfold joinName
  cases extension with
  | nil => rfl
  | cons c extension => simp

theorem ShortEntry.reformatted (he : ShortEntry e) : reformattedFile e =
    joinName ((e.take 8).filter (· ≠ space)) (((e.drop 8).take 3).filter (· ≠ space)) := by
  rw [reformattedFile, if_pos he.short]
  rfl

/-- Without gaps the two names are the same. -/
theorem ShortEntry.sfnName_eq (he : ShortEntry e) (h : NoGap e) :
    reformattedFile e = sfnName e := by
  rw [he.reformatted, h.1.filter_eq, h.2.filter_eq, sfnName]

/-- With a gap the one of `copysfn` is shorter. -/
theorem ShortEntry.sfnName_shorter (he : ShortEntry e) (h : ¬ NoGap e) :
    (sfnName e).length < (reformattedFile e).length := by
  have hbase := takeWhile_length_le (e.take 8)
  have hext := takeWhile_length_le ((e.drop 8).take 3)
  rw [he.reformatted, sfnName, joinName_length, joinName_length]
  rcases not_and_or.mp h with hgap | hgap
  · have hlt := takeWhile_length_lt hgap
    split <;> split <;> omega
  · have hlt := takeWhile_length_lt hgap
    split <;> split <;> omega

theorem mem_joinName {base extension : List UInt8} {c : UInt8} (h : c ∈ joinName base extension) :
    c ∈ base ∨ c = dot ∨ c ∈ extension := by
  unfold joinName at h
  split at h
  · exact Or.inl h
  · simpa using h

theorem mem_take_eleven {c : UInt8} : c ∈ e.take 11 ↔ c ∈ e.take 8 ∨ c ∈ (e.drop 8).take 3 := by
  have hsplit : e.take 11 = e.take 8 ++ (e.drop 8).take 3 := List.take_add (i := 8) (j := 3)
  rw [hsplit, List.mem_append]

theorem ShortEntry.noNul_reformatted (he : ShortEntry e) : (0 : UInt8) ∉ reformattedFile e := by
  rw [he.reformatted]
  intro hzero
  rcases mem_joinName hzero with h | h | h
  · exact he.noNul (mem_take_eleven.mpr (Or.inl (List.mem_of_mem_filter h)))
  · cases h
  · exact he.noNul (mem_take_eleven.mpr (Or.inr (List.mem_of_mem_filter h)))

theorem ShortEntry.noNul_sfnName (he : ShortEntry e) : (0 : UInt8) ∉ sfnName e := by
  intro hzero
  rcases mem_joinName hzero with h | h | h
  · exact he.noNul (mem_take_eleven.mpr (Or.inl (List.takeWhile_subset _ h)))
  · cases h
  · exact he.noNul (mem_take_eleven.mpr (Or.inr (List.takeWhile_subset _ h)))

theorem sfnName_length_le (e : FatFileEntry) : (sfnName e).length ≤ 12 := by
  have hbase := (List.takeWhile_sublist (· ≠ space) (l := e.take 8)).length_le
  have hext := (List.takeWhile_sublist (· ≠ space) (l := (e.drop 8).take 3)).length_le
  rw [List.length_take] at hbase hext
  rw [sfnName, joinName_length]
  split <;> omega

/-! ## What is accepted -/

/-- An 8.3 entry is taken for the names equal to its own without spaces, up to the case. -/
theorem ShortEntry.segment_iff (he : ShortEntry e) (hq : (0 : UInt8) ∉ q) (hlen : q.length ≤ 13) :
    tfCompareFilenameSegment e q = true ↔
      SameFolded (q.takeWhile (· ≠ slash)) (reformattedFile e) := by
  have hprefix := List.takeWhile_prefix (· ≠ slash) (l := q)
  have hle := hprefix.length_le
  have hget : ∀ j < (q.takeWhile (· ≠ slash)).length,
      (q.takeWhile (· ≠ slash)).getD j 0 = q.getD j 0 := by
    intro j hj
    rw [List.getD_eq_getElem _ _ hj, List.getD_eq_getElem _ _ (by omega)]
    exact hprefix.getElem hj
  simp only [tfCompareFilenameSegment]
  rw [if_neg (by omega), decide_eq_true_eq, strncasecmpZero_iff _ _ hle, sameFolded_iff,
    getD_eq_zero_iff he.noNul_reformatted]
  constructor
  · rintro ⟨hend, hall⟩
    refine ⟨Nat.le_antisymm ?_ hend, fun j hj => ?_⟩
    · -- the entry has a character wherever the name has one
      by_contra hlt
      have hin : (reformattedFile e).length < (q.takeWhile (· ≠ slash)).length := by omega
      have hlast := hall _ hin
      rw [List.getD_eq_default (reformattedFile e) 0 (Nat.le_refl _)] at hlast
      exact getD_ne_zero hq (by omega) (toLowCase_eq_zero hlast)
    · rw [hget j hj]
      exact hall j hj
  · rintro ⟨hlen', hall⟩
    refine ⟨Nat.le_of_eq hlen'.symm, fun j hj => ?_⟩
    rw [← hget j hj]
    exact hall j hj

/-- The condition on an entry and on another one. -/
structure ListedAlike (e e' : FatFileEntry) : Prop where
  noSlash : slash ∉ e.take 11
  noGap : NoGap e
  other : NoGap e' ∨ ¬ SameFolded (reformattedFile e) (reformattedFile e')

theorem slash_notMem_sfnName (h : slash ∉ e.take 11) : slash ∉ sfnName e := by
  intro hslash
  rcases mem_joinName hslash with hm | hm | hm
  · exact h (mem_take_eleven.mpr (Or.inl (List.takeWhile_subset _ hm)))
  · cases hm
  · exact h (mem_take_eleven.mpr (Or.inr (List.takeWhile_subset _ hm)))

theorem takeWhile_noSlash (h : slash ∉ q) : q.takeWhile (· ≠ slash) = q := by
  rw [List.takeWhile_eq_self_iff]
  intro c hc
  have hne : c ≠ slash := fun heq => h (heq ▸ hc)
  simpa using hne

theorem mem_sfnName (he : NoGap e) {c : UInt8} (hc : c ∈ e.take 11) (hspace : c ≠ space) :
    c ∈ sfnName e := by
  have hfilter : ∀ field : List UInt8, Padded field → c ∈ field →
      c ∈ field.takeWhile (· ≠ space) := by
    intro field hpadded hmem
    rw [← hpadded.filter_eq]
    exact List.mem_filter.mpr ⟨hmem, by simpa using hspace⟩
  unfold sfnName joinName
  rcases mem_take_eleven.mp hc with h | h
  · have hbase := hfilter _ he.1 h
    split
    · exact hbase
    · exact List.mem_append_left _ hbase
  · have hext := hfilter _ he.2 h
    rw [if_neg (List.ne_nil_of_mem hext)]
    exact List.mem_append_right _ (List.mem_cons_of_mem _ hext)

/-- The name of an entry is accepted for it exactly if it has neither a gap nor a slash. -/
theorem ShortEntry.own_iff (he : ShortEntry e) :
    tfCompareFilenameSegment e (sfnName e) = true ↔ slash ∉ e.take 11 ∧ NoGap e := by
  have hlen := sfnName_length_le e
  rw [he.segment_iff he.noNul_sfnName (by omega)]
  constructor
  · intro hsame
    have hlength := (sameFolded_iff.mp hsame).1
    have hle := (List.takeWhile_prefix (· ≠ slash) (l := sfnName e)).length_le
    have hgap : NoGap e := by
      by_contra hgap
      have hshort := he.sfnName_shorter hgap
      omega
    refine ⟨fun hslash => ?_, hgap⟩
    -- a slash would cut the name off
    have hmem := mem_sfnName hgap hslash (by decide)
    rw [he.sfnName_eq hgap] at hlength
    have hwhole := (List.takeWhile_prefix (· ≠ slash) (l := sfnName e)).eq_of_length hlength
    rw [← hwhole] at hmem
    simpa using List.mem_takeWhile_imp hmem
  · rintro ⟨hslash, hgap⟩
    rw [takeWhile_noSlash (slash_notMem_sfnName hslash), he.sfnName_eq hgap]
    exact rfl

/-- The names of two entries, as `copysfn` has them: that of the first is accepted for it, and for
the second only if that one has the same name. -/
def NamesAgree (e e' : FatFileEntry) (name name' : CStr) : Prop :=
  tfCompareFilenameSegment e name = true ∧
    (tfCompareFilenameSegment e' name = true → SameFolded name name')

theorem namesAgree_iff (he : ShortEntry e) (he' : ShortEntry e') :
    NamesAgree e e' (sfnName e) (sfnName e') ↔ ListedAlike e e' := by
  have hlen := sfnName_length_le e
  unfold NamesAgree
  rw [he.own_iff]
  constructor
  · rintro ⟨⟨hslash, hgap⟩, hother⟩
    refine ⟨hslash, hgap, ?_⟩
    by_contra hnot
    obtain ⟨hgap', hsame⟩ := not_or.mp hnot
    rw [not_not] at hsame
    rw [he'.segment_iff he.noNul_sfnName (by omega),
      takeWhile_noSlash (slash_notMem_sfnName hslash), ← he.sfnName_eq hgap] at hother
    have hshort := he'.sfnName_shorter hgap'
    have h1 := (sameFolded_iff.mp hsame).1
    have h2 := (sameFolded_iff.mp (hother hsame)).1
    omega
  · rintro ⟨hslash, hgap, hother⟩
    refine ⟨⟨hslash, hgap⟩, fun haccepted => ?_⟩
    rw [he'.segment_iff he.noNul_sfnName (by omega),
      takeWhile_noSlash (slash_notMem_sfnName hslash)] at haccepted
    rcases hother with hgap' | hdifferent
    · rw [he'.sfnName_eq hgap'] at haccepted
      exact haccepted
    · rw [he.sfnName_eq hgap] at hdifferent
      exact absurd haccepted hdifferent

/-! ## The bytes of `copysfn` -/

theorem load_store_self (m : Mem) (a : Nat) (bs : List UInt8) :
    load (store m a bs) a bs.length = bs := by
  apply List.ext_getElem
  · simp
  · intro i hi hi'
    simp only [load, List.getElem_map, List.getElem_range, store, Nat.le_add_right, if_true,
      Nat.add_sub_cancel_left, List.getElem?_eq_getElem hi', Option.getD_some]

theorem copySfn_run (e : FatFileEntry) (s : Fat32) {a : Nat} (ha : a + 12 < 2 ^ 64) :
    copySfn e a false s = .ok (sfnName e).length (s.withBytes a (sfnName e)) := by
  have hlen := sfnName_length_le e
  unfold sfnName joinName at hlen ⊢
  unfold copySfn
  simp only
  generalize (e.take 8).takeWhile (· ≠ space) = base at hlen ⊢
  generalize ((e.drop 8).take 3).takeWhile (· ≠ space) = extension at hlen ⊢
  rw [bind_ok (eitherCopyout_kernel s (a := a) rfl (by omega) _)]
  by_cases hext : extension = []
  · rw [if_pos hext, if_pos hext]
    rfl
  · rw [if_neg hext, if_neg hext]
    rw [if_neg hext, List.length_append, List.length_cons] at hlen
    rw [bind_ok (eitherCopyout_kernel _ (a := a + base.length) (by push_cast; rfl) (by omega) _),
      Fat32.withBytes_append]
    rw [bind_ok (eitherCopyout_kernel _ (a := a + (base ++ [dot]).length)
      (by rw [List.length_append]; push_cast; rfl) (by rw [List.length_append]; simp; omega) _),
      Fat32.withBytes_append, List.append_assoc, List.singleton_append, List.length_append,
      List.length_cons, Nat.add_right_comm, Nat.add_assoc]
    rfl

/-- The names that `copysfn` stores for two entries agree with the names that are accepted exactly
if the first has no slash and no gap, and the second no gap either, or another name. -/
theorem copySfn_agrees_iff (e e' : FatFileEntry) (he : ShortEntry e) (he' : ShortEntry e')
    (s t s' t' : Fat32) (dst dst' n n' : Nat) (hdst : dst + 12 < 2 ^ 64)
    (hdst' : dst' + 12 < 2 ^ 64) (hrun : copySfn e dst false s = .ok n t)
    (hrun' : copySfn e' dst' false s' = .ok n' t') :
    NamesAgree e e' (load t.mm.mem dst n) (load t'.mm.mem dst' n') ↔ ListedAlike e e' := by
  rw [copySfn_run e s hdst] at hrun
  cases hrun
  rw [copySfn_run e' s' hdst'] at hrun'
  cases hrun'
  have hname : load (s.withBytes dst (sfnName e)).mm.mem dst (sfnName e).length = sfnName e :=
    load_store_self ..
  have hname' : load (s'.withBytes dst' (sfnName e')).mm.mem dst' (sfnName e').length =
      sfnName e' := load_store_self ..
  rw [hname, hname', namesAgree_iff he he']

/-! ## Three entries -/

/-- An entry with these eleven characters. -/
def shortEntry (name : List UInt8) : FatFileEntry := name ++ List.replicate 21 0

/-- `"AB      TXT"`. -/
def plainEntry : FatFileEntry :=
  shortEntry [0x41, 0x42, 0x20, 0x20, 0x20, 0x20, 0x20, 0x20, 0x54, 0x58, 0x54]

/-- `"A B     TXT"`. -/
def gapEntry : FatFileEntry :=
  shortEntry [0x41, 0x20, 0x42, 0x20, 0x20, 0x20, 0x20, 0x20, 0x54, 0x58, 0x54]

/-- `"AC      TXT"`. -/
def otherEntry : FatFileEntry :=
  shortEntry [0x41, 0x43, 0x20, 0x20, 0x20, 0x20, 0x20, 0x20, 0x54, 0x58, 0x54]

theorem copySfn_agrees_iff_plain : ∃ n t n' t', copySfn plainEntry 100 false blankVolume = .ok n t ∧
    copySfn otherEntry 200 false blankVolume = .ok n' t' ∧
    NamesAgree plainEntry otherEntry (load t.mm.mem 100 n) (load t'.mm.mem 200 n') := by
  have hrun := copySfn_run plainEntry blankVolume (a := 100) (by decide)
  have hrun' := copySfn_run otherEntry blankVolume (a := 200) (by decide)
  refine ⟨_, _, _, _, hrun, hrun', ?_⟩
  exact (copySfn_agrees_iff plainEntry otherEntry ⟨by decide, by decide⟩ ⟨by decide, by decide⟩
    _ _ _ _ 100 200 _ _ (by decide) (by decide) hrun hrun').mpr
      ⟨by decide, by decide, Or.inl (by decide)⟩

/-- `A B.TXT` is listed as `A.TXT`, which is not accepted. -/
theorem copySfn_gap : ¬ ∀ e e', ShortEntry e → ShortEntry e' →
    ∀ s t s' t' n n' dst dst', dst + 12 < 2 ^ 64 → dst' + 12 < 2 ^ 64 →
      copySfn e (dst : Nat) false s = .ok n t → copySfn e' (dst' : Nat) false s' = .ok n' t' →
      NamesAgree e e' (load t.mm.mem dst n) (load t'.mm.mem dst' n') := by
  intro hall
  have hrun := copySfn_run gapEntry blankVolume (a := 100) (by decide)
  have hagree := hall gapEntry gapEntry ⟨by decide, by decide⟩ ⟨by decide, by decide⟩ _ _ _ _ _ _
    100 100 (by decide) (by decide) hrun hrun
  have hname : load (blankVolume.withBytes 100 (sfnName gapEntry)).mm.mem 100
      (sfnName gapEntry).length = sfnName gapEntry := load_store_self ..
  rw [hname] at hagree
  exact absurd hagree.1 (by decide)

end PageFaultOS
