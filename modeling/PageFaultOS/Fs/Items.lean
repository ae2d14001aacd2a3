import Mathlib.Data.List.DropRight
import Mathlib.Tactic
import PageFaultOS.Fs.Component
import PageFaultOS.Fs.ShortNames

/-! Directories as they are on a card: live entries with and without a long name, deleted ones,
and long-name entries without a file. -/

namespace PageFaultOS
open Exec Exec.Comp ByteMem

/-! ## Directories -/

/-- The characters that an entry of a long name holds. -/
def lfnUnits (e : FatFileEntry) : List Nat :=
  [1, 3, 5, 7, 9, 14, 16, 18, 20, 22, 24, 28, 30].map fun i => entryWord e i 2

/-- The name that a chain of entries holds: the last entry has the first characters, and a `NUL`
ends the name. -/
def chainName (chain : List FatFileEntry) : List Nat :=
  (chain.reverse.flatMap lfnUnits).takeWhile (· ≠ 0)

/-- The entries of a long name in front of the entry `e`, or none. -/
structure LiveChain (chain : List FatFileEntry) (e : FatFileEntry) : Prop where
  long : ∀ x ∈ chain, FatFileEntry.attributes x = tfAttrLongName
  numbers : chain.map FatFileEntry.sequenceNumber =
    (List.range chain.length).map fun i => if i = 0 then chain.length ||| 0x40 else chain.length - i
  checksum : ∀ x ∈ chain, entryByte x 13 = tfLfnChecksum (e.take 11)
  full : 13 * chain.length < (chainName chain).length + 13
  short : (chainName chain).length ≤ 255

/-- An 8.3 entry that is in use. -/
structure LiveEntry (e : FatFileEntry) : Prop extends ShortEntry e where
  used : entryByte e 0 ≠ 0
  live : entryByte e 0 ≠ 0xe5

/-- What a directory is made of. -/
inductive DirItem where
  | file (chain : List FatFileEntry) (e : FatFileEntry)
  | deleted (e : FatFileEntry)
  | orphan (e : FatFileEntry)

def DirItem.entries : DirItem → List FatFileEntry
  | .file chain e => chain ++ [e]
  | .deleted e => [e]
  | .orphan e => [e]

def DirItem.Valid : DirItem → Prop
  | .file chain e => LiveChain chain e ∧ LiveEntry e
  | .deleted e => entryByte e 0 = 0xe5
  | .orphan e => e.attributes = tfAttrLongName ∧ entryByte e 0 ≠ 0 ∧ entryByte e 0 ≠ 0xe5

def dirEntries (items : List DirItem) : List FatFileEntry := items.flatMap DirItem.entries

/-- The item begins at entry `k`. -/
def BeginsAt (items : List DirItem) (k : Nat) (x : DirItem) : Prop :=
  ∃ front back, items = front ++ x :: back ∧ k = (dirEntries front).length

/-- The entries from entry `k` on. -/
def EntriesAt (entry : Nat → FatFileEntry) (k : Nat) (l : List FatFileEntry) : Prop :=
  ∀ i < l.length, entry (k + i) = l.getD i []

instance (entry : Nat → FatFileEntry) (k : Nat) (l : List FatFileEntry) :
    Decidable (EntriesAt entry k l) := inferInstanceAs (Decidable (∀ i < l.length, _))

/-- The directory on the chain holds the items, and ends behind them. -/
structure HoldsItems (shape : TFShape) (v : Mem) (cs : List Nat) (items : List DirItem) : Prop where
  room : HasRoom shape cs ((dirEntries items).length + 1)
  entries : EntriesAt (dirEntry shape v cs) 0 (dirEntries items)
  ends : entryByte (dirEntry shape v cs (dirEntries items).length) 0 = 0

/-! ## Names -/

/-- The name of an 8.3 entry, without the padding. -/
def trimmedName (e : FatFileEntry) : CStr :=
  joinName ((e.take 8).rdropWhile (· = space)) (((e.drop 8).take 3).rdropWhile (· = space))

/-- A component of a path. -/
structure IsComponent (name : CStr) : Prop where
  nonempty : name ≠ []
  noNul : (0 : UInt8) ∉ name
  noSlash : slash ∉ name

/-- The chain holds a name of single-byte characters. -/
def ByteName (chain : List FatFileEntry) (s : CStr) : Prop := chainName chain = s.map UInt8.toNat

instance (chain : List FatFileEntry) (s : CStr) : Decidable (ByteName chain s) :=
  inferInstanceAs (Decidable (_ = _))

/-- The item is a file which has the name as its long or as its 8.3 name. -/
def DirItem.Carries (name : CStr) : DirItem → Prop
  | .file chain e => (∃ s, ByteName chain s ∧ SameFolded name s) ∨ SameFolded name (trimmedName e)
  | .deleted _ => False
  | .orphan _ => False

/-- Entry `j` is the 8.3 entry of a file with the name. -/
def CarriedAt (items : List DirItem) (name : CStr) (j : Nat) : Prop :=
  ∃ k chain e, BeginsAt items k (.file chain e) ∧ (DirItem.file chain e).Carries name ∧
    j = k + chain.length

variable {k j a : Nat} {entry : Nat → FatFileEntry} {name : CStr} {chain : List FatFileEntry}
  {e : FatFileEntry} {items : List DirItem} {x : DirItem}

/-! ## Entries of a chain -/

theorem LiveChain.length_lt (h : LiveChain chain e) : chain.length < 64 := by
  have hfull := h.full
  have hshort := h.short
  omega

theorem LiveChain.number (h : LiveChain chain e) {i : Nat} (hi : i < chain.length) :
    (chain.getD i []).sequenceNumber =
      if i = 0 then chain.length ||| 0x40 else chain.length - i := by
  have hget := congrArg (·[i]?) h.numbers
  simp only [List.getElem?_map, List.getElem?_eq_getElem hi, Option.map_some,
    List.getElem?_range hi] at hget
  rw [List.getD_eq_getElem _ _ hi]
  exact Option.some.inj hget

theorem flag_or : ∀ n < 64, (n ||| 0x40) &&& 0xc0 = 0x40 ∧ clearFlag (n ||| 0x40) 0x40 = n := by
  decide

theorem LiveChain.attributes_get (h : LiveChain chain e) {i : Nat} (hi : i < chain.length) :
    (chain.getD i []).attributes = tfAttrLongName := by
  rw [List.getD_eq_getElem _ _ hi]
  exact h.long _ (List.getElem_mem hi)

/-- A chain in a directory is the long name that the scan takes it for. -/
theorem LiveChain.longNameAt (h : LiveChain chain e) (hpos : 0 < chain.length)
    (hk : entry k = chain.getD 0 []) : LongNameAt entry k chain.length := by
  have hnum := h.number hpos
  rw [if_pos rfl] at hnum
  obtain ⟨hflag, hcount⟩ := flag_or _ h.length_lt
  refine ⟨fun hzero => ?_, hk ▸ h.attributes_get hpos, hk ▸ hnum ▸ hflag, hk ▸ hnum ▸ hcount⟩
  rw [← hk, FatFileEntry.sequenceNumber, hzero] at hnum
  rw [← hnum] at hflag
  exact absurd hflag (by decide)

theorem lfnUnits_length (e : FatFileEntry) : (lfnUnits e).length = 13 := rfl

/-- The characters of all entries, one entry after the other. -/
theorem flatMap_lfnUnits_getD (l : List FatFileEntry) {i j : Nat} (hi : i < l.length)
    (hj : j < 13) :
    (l.flatMap lfnUnits).getD (13 * i + j) 0 = (lfnUnits (l.getD i [])).getD j 0 := by
  induction l generalizing i with
  | nil => simp at hi
  | cons x l ih =>
    rw [List.flatMap_cons]
    cases i with
    | zero =>
      rw [Nat.mul_zero, Nat.zero_add, List.getD_append _ _ _ _ (by rw [lfnUnits_length]; exact hj)]
      rfl
    | succ i =>
      rw [List.getD_append_right _ _ _ _ (by rw [lfnUnits_length]; omega), lfnUnits_length,
        show 13 * (i + 1) + j - 13 = 13 * i + j by omega, ih (by simpa using hi)]
      rfl

theorem entryByte_eq (e : FatFileEntry) (i : Nat) :
    entryByte e i = UInt8.ofNat (entryWord e i 2) := by
  apply UInt8.toNat_inj.mp
  have hlt := (entryByte e i).toNat_lt
  simp only [entryWord, readLE, UInt8.toNat_ofNat']
  omega

/-- The characters of a chain, as `tf_compare_filename_segment` has them. -/
def chainChar (chain : List FatFileEntry) (k : Nat) : UInt8 :=
  UInt8.ofNat ((chain.reverse.flatMap lfnUnits).getD k 0)

theorem LiveChain.shows (h : LiveChain chain e) {i : Nat} (hi : i < chain.length) :
    Shows (chain.getD (chain.length - 1 - i) []) (chainChar chain) (13 * i) := by
  have hlong : ¬ (chain.getD (chain.length - 1 - i) []).attributes ≠ tfAttrLongName :=
    not_not.mpr (h.attributes_get (by omega))
  intro j
  rw [reformattedFile, if_neg hlong]
  by_cases hj : j < 13
  · have hget : chain.reverse.getD i [] = chain.getD (chain.length - 1 - i) [] := by
      rw [List.getD_eq_getElem _ _ (by simpa using hi), List.getD_eq_getElem _ _ (by omega),
        List.getElem_reverse]
    rw [if_pos hj, chainChar, flatMap_lfnUnits_getD _ (by simpa using hi) hj, hget]
    generalize chain.getD (chain.length - 1 - i) [] = x
    have hmap : lfnUnits x = [1, 3, 5, 7, 9, 14, 16, 18, 20, 22, 24, 28, 30].map
      fun i => entryWord x i 2 := rfl
    rw [hmap, List.getD_eq_getElem _ _ (by simpa using hj),
      List.getD_eq_getElem _ _ (by simpa using hj), List.getElem_map, List.getElem_map,
      entryByte_eq]
  · rw [if_neg hj, List.getD_eq_default _ _ (by simpa using hj)]

/-- The characters of a chain spell its name. -/
theorem ByteName.spells {b : CStr} (hb : ByteName chain b) : Spells (chainChar chain) b := by
  unfold ByteName chainName at hb
  have hprefix := List.takeWhile_prefix (· ≠ 0) (l := chain.reverse.flatMap lfnUnits)
  rw [hb] at hprefix
  have hlen := hprefix.length_le
  rw [List.length_map] at hlen
  have hget : ∀ k (hk : k < b.length),
      (chain.reverse.flatMap lfnUnits)[k] = (b[k]).toNat := by
    intro k hk
    have := hprefix.getElem (i := k) (by simpa using hk)
    rw [← this, List.getElem_map]
  refine ⟨fun hmem => ?_, fun k hk => ?_, ?_⟩
  · have hzero : (0 : UInt8).toNat ∈ (chain.reverse.flatMap lfnUnits).takeWhile (· ≠ 0) := by
      rw [hb]
      exact List.mem_map_of_mem hmem
    simpa using List.mem_takeWhile_imp hzero
  · rw [chainChar, List.getD_eq_getElem _ _ (by omega), hget k hk, List.getD_eq_getElem _ _ hk,
      UInt8.ofNat_toNat]
  · rw [chainChar]
    by_cases hend : b.length < (chain.reverse.flatMap lfnUnits).length
    · -- the character behind the name is the one that ends it
      have hstop := List.takeWhile_append_dropWhile (p := (· ≠ 0))
        (l := chain.reverse.flatMap lfnUnits)
      rw [hb] at hstop
      have hdrop : (chain.reverse.flatMap lfnUnits).drop b.length =
          (chain.reverse.flatMap lfnUnits).dropWhile (· ≠ 0) := by
        conv_lhs => rw [← hstop]
        rw [List.drop_append_of_le_length (by rw [List.length_map]),
          List.drop_of_length_le (by rw [List.length_map]), List.nil_append]
      rw [List.drop_eq_getElem_cons hend] at hdrop
      have hne : (chain.reverse.flatMap lfnUnits).dropWhile (· ≠ 0) ≠ [] := by
        rw [← hdrop]
        exact List.cons_ne_nil _ _
      have hzero := List.head_dropWhile_not (fun c => decide (c ≠ 0)) hne
      rw [List.getD_eq_getElem _ _ hend]
      simp only [← hdrop, List.head_cons] at hzero
      simp at hzero
      rw [hzero]
      rfl
    · rw [List.getD_eq_default _ _ (by omega)]
      rfl

/-- The chunks of its name fill the chain. -/
theorem LiveChain.chunks {b : CStr} (h : LiveChain chain e) (hb : ByteName chain b) :
    lfnChunks b = chain.length := by
  have hfull := h.full
  have hle := (List.takeWhile_prefix (· ≠ 0) (l := chain.reverse.flatMap lfnUnits)).length_le
  have hall : (chain.reverse.flatMap lfnUnits).length = 13 * chain.length := by
    rw [List.length_flatMap]
    simp [lfnUnits_length, Nat.mul_comm]
  rw [hall] at hle
  have hlen : (chainName chain).length = b.length := by rw [hb, List.length_map]
  unfold chainName at hlen hfull
  unfold lfnChunks
  omega

/-- A long name of single-byte characters is taken for the names equal to it, up to the case. -/
theorem LiveChain.takenFor_iff {b : CStr} (h : LiveChain chain e) (hb : ByteName chain b)
    (hstored : EntriesAt entry k chain) (hname : IsComponent name) :
    TakenFor entry k chain.length name ↔ SameFolded name b := by
  have hchunks := h.chunks hb
  have hpos := List.length_pos_of_ne_nil hname.nonempty
  unfold TakenFor longNameMatches
  rw [List.all_eq_true]
  have hentry : ∀ i < chain.length,
      entry (k + chain.length - 1 - i) = chain.getD (chain.length - 1 - i) [] := by
    intro i hi
    rw [show k + chain.length - 1 - i = k + (chain.length - 1 - i) by omega]
    exact hstored _ (by omega)
  have hsegments : lfnChunks name = chain.length →
      ((∀ i < lfnChunks name, tfCompareFilenameSegment (chain.getD (chain.length - 1 - i) [])
        (name.drop (13 * i)) = true) ↔ SameFolded name b) := by
    intro hn
    refine segments_iff hname.noNul hname.noSlash hpos hb.spells (hn.trans hchunks.symm)
      (e := fun i => chain.getD (chain.length - 1 - i) []) fun i hi => ?_
    exact h.shows (hn ▸ hi)
  constructor
  · rintro ⟨hn, hall⟩
    refine (hsegments hn).mp fun i hi => ?_
    rw [hn] at hi
    rw [← hentry i hi]
    exact hall i (List.mem_range'_1.mpr (by omega))
  · intro hsame
    have hn : lfnChunks name = chain.length := hsame.chunks.trans hchunks
    refine ⟨hn, fun i hi => ?_⟩
    have hin : i < chain.length := by
      have := List.mem_range'_1.mp hi
      omega
    rw [hentry i hin]
    exact (hsegments hn).mpr hsame i (hn ▸ hin)

/-! ## 8.3 entries -/

theorem reformatted_length_le (e : FatFileEntry) (he : ShortEntry e) :
    (reformattedFile e).length ≤ 12 := by
  have hbase := List.length_filter_le (· ≠ space) (e.take 8)
  have hext := List.length_filter_le (· ≠ space) ((e.drop 8).take 3)
  rw [List.length_take] at hbase hext
  rw [he.reformatted, joinName_length]
  split <;> omega

/-- An 8.3 entry is taken for its name without the spaces, whatever the length of the name. -/
theorem ShortEntry.taken_iff (he : ShortEntry e) (hname : IsComponent name) :
    tfCompareFilenameSegment e name = true ↔ SameFolded name (reformattedFile e) := by
  have hwhole := takeWhile_noSlash hname.noSlash
  by_cases hlen : name.length ≤ 13
  · rw [he.segment_iff hname.noNul hlen, hwhole]
  · have hle := reformatted_length_le e he
    refine iff_of_false (fun haccepted => ?_) fun hsame => ?_
    · -- the comparison of 13 characters comes to the end of the 8.3 name
      simp only [tfCompareFilenameSegment, hwhole] at haccepted
      rw [if_pos (by omega), strncasecmpZero_iff _ _ (by omega)] at haccepted
      have hlast := haccepted (reformattedFile e).length (by omega)
      rw [List.getD_eq_default (reformattedFile e) 0 (Nat.le_refl _)] at hlast
      exact getD_ne_zero hname.noNul (by omega) (toLowCase_eq_zero hlast)
    · have := (sameFolded_iff.mp hsame).1
      omega

theorem Padded.rdropWhile_eq {field : List UInt8} (h : Padded field) :
    field.rdropWhile (· = space) = field.takeWhile (· ≠ space) := by
  have hsplit := List.takeWhile_append_dropWhile (p := (· ≠ space)) (l := field)
  conv_lhs => rw [← hsplit]
  have hspaces : ∀ c ∈ (field.dropWhile (· ≠ space)).reverse, decide (c = space) = true := by
    intro c hc
    simpa using h c (List.mem_reverse.mp hc)
  have hkept : (field.takeWhile (· ≠ space)).rdropWhile (· = space) =
      field.takeWhile (· ≠ space) := by
    rw [List.rdropWhile_eq_self_iff]
    intro hne
    have hlast := List.mem_takeWhile_imp (List.getLast_mem hne)
    simpa using hlast
  rw [List.rdropWhile, List.reverse_append, List.dropWhile_append_of_pos hspaces]
  exact hkept

/-- Without a space inside it is the name of the entry. -/
theorem ShortEntry.trimmedName_eq (he : ShortEntry e) (h : NoGap e) :
    trimmedName e = reformattedFile e := by
  rw [he.reformatted, trimmedName, h.1.rdropWhile_eq, h.2.rdropWhile_eq, h.1.filter_eq,
    h.2.filter_eq]

/-! ## Files -/

theorem entriesAt_append {l l' : List FatFileEntry} :
    EntriesAt entry k (l ++ l') ↔ EntriesAt entry k l ∧ EntriesAt entry (k + l.length) l' := by
  constructor
  · intro h
    refine ⟨fun i hi => ?_, fun i hi => ?_⟩
    · rw [h i (by rw [List.length_append]; omega), List.getD_append _ _ _ _ hi]
    · rw [Nat.add_assoc, h (l.length + i) (by rw [List.length_append]; omega),
        List.getD_append_right _ _ _ _ (Nat.le_add_right _ _), Nat.add_sub_cancel_left]
  · rintro ⟨h, h'⟩ i hi
    rw [List.length_append] at hi
    by_cases hin : i < l.length
    · rw [h i hin, List.getD_append _ _ _ _ hin]
    · rw [List.getD_append_right _ _ _ _ (by omega), ← h' (i - l.length) (by omega)]
      congr 1
      omega

theorem entriesAt_singleton : EntriesAt entry k [e] ↔ entry k = e := by
  constructor
  · intro h
    exact h 0 Nat.one_pos
  · intro h i hi
    have hzero : i = 0 := by simpa using hi
    subst hzero
    exact h

/-- The scan at the long name of a file. -/
theorem LiveChain.compareAt {b : CStr} (h : LiveChain chain e) (hb : ByteName chain b)
    (hstored : EntriesAt entry k chain) (hne : chain ≠ []) (hname : IsComponent name) :
    compareAt entry name k =
      if SameFolded name b then .found (k + chain.length) else .next (k + chain.length) := by
  have hpos := List.length_pos_of_ne_nil hne
  rw [compareAt_long (k := k) (h.longNameAt hpos (hstored 0 hpos)), max_eq_left hpos]
  exact if_congr (h.takenFor_iff hb hstored hname) rfl rfl

/-- The scan at the 8.3 entry of a file. -/
theorem LiveEntry.compareAt (he : LiveEntry e) (hgap : NoGap e) (hk : entry k = e)
    (hname : IsComponent name) :
    compareAt entry name k =
      if SameFolded name (trimmedName e) then .found k else .next (k + 1) := by
  unfold PageFaultOS.compareAt
  simp only
  rw [hk, if_neg he.used, if_pos he.short]
  refine if_congr ?_ rfl rfl
  rw [he.toShortEntry.taken_iff hname, he.toShortEntry.trimmedName_eq hgap]

theorem BeginsAt.entriesAt (h : BeginsAt items a x)
    (hentries : EntriesAt entry 0 (dirEntries items)) : EntriesAt entry a x.entries := by
  obtain ⟨front, back, rfl, rfl⟩ := h
  have hsplit : dirEntries (front ++ x :: back) =
      dirEntries front ++ (x.entries ++ dirEntries back) := by
    rw [dirEntries, List.flatMap_append, List.flatMap_cons]
    rfl
  rw [hsplit, entriesAt_append, entriesAt_append, Nat.zero_add] at hentries
  exact hentries.2.1

theorem BeginsAt.mem (h : BeginsAt items a x) : x ∈ items := by
  obtain ⟨front, back, rfl, _⟩ := h
  simp

theorem beginsAt_cons {y : DirItem} : BeginsAt (x :: items) k y ↔
    (k = 0 ∧ y = x) ∨ ∃ i, BeginsAt items i y ∧ k = x.entries.length + i := by
  constructor
  · rintro ⟨front, back, hsplit, rfl⟩
    cases front with
    | nil =>
      cases hsplit
      exact Or.inl ⟨rfl, rfl⟩
    | cons z front =>
      cases hsplit
      refine Or.inr ⟨_, ⟨front, back, rfl, rfl⟩, ?_⟩
      simp [dirEntries]
  · rintro (⟨rfl, rfl⟩ | ⟨i, ⟨front, back, rfl, rfl⟩, rfl⟩)
    · exact ⟨[], items, rfl, rfl⟩
    · refine ⟨x :: front, back, rfl, ?_⟩
      simp [dirEntries]

theorem carriedAt_cons : CarriedAt (x :: items) name j ↔
    (x.Carries name ∧ j + 1 = x.entries.length) ∨
      ∃ i, CarriedAt items name i ∧ j = x.entries.length + i := by
  constructor
  · rintro ⟨k, chain, e, hbegins, hcarries, rfl⟩
    rcases beginsAt_cons.mp hbegins with ⟨rfl, rfl⟩ | ⟨i, hi, rfl⟩
    · refine Or.inl ⟨hcarries, ?_⟩
      simp [DirItem.entries]
    · exact Or.inr ⟨i + chain.length, ⟨i, chain, e, hi, hcarries, rfl⟩, by omega⟩
  · rintro (⟨hcarries, hj⟩ | ⟨i, ⟨k, chain, e, hbegins, hcarries, rfl⟩, rfl⟩)
    · cases x with
      | file chain e =>
        refine ⟨0, chain, e, beginsAt_cons.mpr (Or.inl ⟨rfl, rfl⟩), hcarries, ?_⟩
        simp [DirItem.entries] at hj
        omega
      | deleted e => exact absurd hcarries id
      | orphan e => exact absurd hcarries id
    · exact ⟨_, chain, e, beginsAt_cons.mpr (Or.inr ⟨k, hbegins, rfl⟩), hcarries, by omega⟩

/-! ## A volume with a root directory -/

/-- A volume whose root directory has these entries, in its first cluster. -/
def rootDisk (l : List FatFileEntry) : Mem := store (fun _ => 0) (34 * 512) l.flatten

def rootVolume (l : List FatFileEntry) : Fat32 :=
  { blankVolume with
    info := ⟨⟨1, 34, 1000, 2⟩, 0, false, readSector (rootDisk l) 0⟩
    disk := rootDisk l
    handles := fun _ => notesFile }

theorem rootVolume_inDir (l : List FatFileEntry) : InDir (rootVolume l) 0 [2] notesFile 0 where
  valid := ⟨Nat.one_pos, (by decide : 1 ≤ 64)⟩
  coherent := fun _ => writeSector_readSector (rootDisk l) 0
  chain := fatChain_single _ _ 2
  start := rfl
  size := rfl
  file := (moveTo_start _ rfl rfl rfl rfl).symm

/-- The 8.3 entry of `A`. -/
def entryA : FatFileEntry := shortEntry (0x41 :: List.replicate 10 space)

/-- What is left of it when the file is deleted. -/
def deletedA : FatFileEntry := entryA.set 0 0xe5

/-- The entry of the long name `ab` of a deleted file. -/
def deletedLong : FatFileEntry := lfnEntry [0x61, 0x62] 0xe5 0 0

theorem liveEntry_entryA : LiveEntry entryA :=
  ⟨⟨by decide, by decide⟩, by decide, by decide⟩

end PageFaultOS
