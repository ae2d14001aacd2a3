import Mathlib.Tactic
import PageFaultOS.Fs.Items
import PageFaultOS.Fs.Overrun

/-! The records of `Fat32FileSystem::ls` for a directory of files with 8.3 and with long names. Each
record has the length that its `d_reclen` says, but the copier of 8.3 names stores no `NUL`, that
of long names only where an entry has room for it, and deleted 8.3 entries are listed too. -/

namespace PageFaultOS
open Exec Exec.Comp ByteMem Emit

variable {k n : Nat} {entry : Nat → FatFileEntry} {chain l : List FatFileEntry} {e x : FatFileEntry}
  {s : CStr} {items : List DirItem}

/-! ## The text of a chain -/

/-- The bytes that `copylfn` stores for the entries of a chain. -/
def chainText (chain : List FatFileEntry) : List UInt8 := chain.reverse.flatMap lfnText

theorem takeWhile_append_begins {α : Type} (p : α → Bool) (xs ys : List α) :
    (xs ++ ys).takeWhile p <+: xs.takeWhile p ++ ys.takeWhile p := by
  rw [List.takeWhile_append]
  split
  · rename_i hall
    have hxs : xs.takeWhile p = xs := (List.takeWhile_prefix p).eq_of_length hall
    rw [hxs]
  · exact List.prefix_append _ _

/-- The text of an entry begins with its characters in front of the first `0xffff`. -/
theorem lfnText_begins (x : FatFileEntry) :
    ((lfnUnits x).takeWhile (· ≠ 0xffff)).map UInt8.ofNat <+: lfnText x := by
  have hsplit : lfnUnits x = ((List.range 5).map fun j => entryWord x (1 + 2 * j) 2) ++
      (((List.range 6).map fun j => entryWord x (14 + 2 * j) 2) ++
        (List.range 2).map fun j => entryWord x (28 + 2 * j) 2) := rfl
  have hwhole := (takeWhile_append_begins (fun c => decide (c ≠ 0xffff))
    ((List.range 5).map fun j => entryWord x (1 + 2 * j) 2)
    (((List.range 6).map fun j => entryWord x (14 + 2 * j) 2) ++
      (List.range 2).map fun j => entryWord x (28 + 2 * j) 2)).trans
    ((List.prefix_append_right_inj _).mpr (takeWhile_append_begins _ _ _))
  have hmap := hwhole.map UInt8.ofNat
  rw [List.map_append, List.map_append] at hmap
  rw [hsplit]
  unfold lfnText
  rw [List.append_assoc]
  exact hmap

/-- Characters of one byte are stored as they are. -/
theorem map_ofNat_toNat (s : CStr) : (s.map UInt8.toNat).map UInt8.ofNat = s := by
  rw [List.map_map]
  have hid : UInt8.ofNat ∘ UInt8.toNat = id := funext fun c => UInt8.ofNat_toNat
  rw [hid, List.map_id]

/-- An entry whose first characters are those of `s`. -/
theorem lfnText_of_begins (h : s.map UInt8.toNat <+: lfnUnits x) : s <+: lfnText x := by
  have hbyte : ∀ c ∈ s.map UInt8.toNat, decide (c ≠ 0xffff) = true := by
    intro c hc
    obtain ⟨b, _, rfl⟩ := List.mem_map.mp hc
    have hlt := b.toNat_lt
    simp only [decide_eq_true_eq]
    omega
  obtain ⟨rest, hrest⟩ := h
  have hprefix : s.map UInt8.toNat <+: (lfnUnits x).takeWhile (· ≠ 0xffff) := by
    rw [← hrest, List.takeWhile_append_of_pos hbyte]
    exact List.prefix_append _ _
  have hmap := hprefix.map UInt8.ofNat
  rw [map_ofNat_toNat] at hmap
  exact hmap.trans (lfnText_begins x)

/-- An entry that is full of characters of one byte. -/
theorem lfnText_full (h : lfnUnits x = s.map UInt8.toNat) : lfnText x = s := by
  have hlength := congrArg List.length h
  rw [lfnUnits_length, List.length_map] at hlength
  refine ((lfnText_of_begins (h ▸ List.prefix_refl _)).eq_of_length_le ?_).symm
  rw [← hlength]
  exact lfnText_length_le x

/-- Entries that are full of characters of one byte. -/
theorem flatMap_lfnText (h : l.flatMap lfnUnits = s.map UInt8.toNat) :
    l.flatMap lfnText = s ∧ ∀ x ∈ l, (lfnText x).length = 13 := by
  induction l generalizing s with
  | nil =>
    have hs : s = [] := by simpa using h.symm
    exact ⟨hs.symm, fun x hx => by cases hx⟩
  | cons x l ih =>
    rw [List.flatMap_cons] at h
    obtain ⟨a, b, rfl, ha, hb⟩ := List.append_eq_map_iff.mp h
    have hx := lfnText_full ha.symm
    obtain ⟨hl, hlengths⟩ := ih hb.symm
    have hlength : a.length = 13 := by
      have := congrArg List.length ha
      rwa [List.length_map, lfnUnits_length] at this
    refine ⟨by rw [List.flatMap_cons, hx, hl], ?_⟩
    rw [List.forall_mem_cons]
    exact ⟨by rw [hx, hlength], hlengths⟩

/-- The characters of a chain are those of its name, and a `NUL` behind them if there is room. -/
theorem ByteName.units (hb : ByteName chain s) : ∃ rest,
    chain.reverse.flatMap lfnUnits = s.map UInt8.toNat ++ rest ∧ (rest = [] ∨ ∃ l, rest = 0 :: l) := by
  refine ⟨(chain.reverse.flatMap lfnUnits).dropWhile (· ≠ 0), ?_, ?_⟩
  · rw [← hb]
    exact List.takeWhile_append_dropWhile.symm
  · cases hdrop : (chain.reverse.flatMap lfnUnits).dropWhile (· ≠ 0) with
    | nil => exact Or.inl rfl
    | cons c l =>
      have hzero := List.head_dropWhile_not (fun c => decide (c ≠ 0))
        (l := chain.reverse.flatMap lfnUnits) (by rw [hdrop]; exact List.cons_ne_nil _ _)
      simp only [hdrop, List.head_cons, decide_eq_false_iff_not, not_not] at hzero
      exact Or.inr ⟨l, by rw [hzero]⟩

/-- What is stored for a long name: the name, and behind it a `NUL` only if an entry has room. -/
theorem LiveChain.text (h : LiveChain chain e) (hne : chain ≠ []) (hb : ByteName chain s) :
    (∀ x ∈ chain.tail, (lfnText x).length = 13) ∧ ∃ rest, chainText chain = s ++ rest ∧
      if s.length % 13 = 0 then rest = [] else ∃ l, rest = 0 :: l := by
  cases chain with
  | nil => exact absurd rfl hne
  | cons x l =>
    obtain ⟨rest, hunits, hrest⟩ := hb.units
    have hlen : (chainName (x :: l)).length = s.length := by rw [hb, List.length_map]
    have hfull := h.full
    rw [hlen, List.length_cons] at hfull
    have hflat : ∀ l : List FatFileEntry, (l.flatMap lfnUnits).length = 13 * l.length := by
      intro l
      rw [List.length_flatMap]
      simp [lfnUnits_length, Nat.mul_comm]
    have hall := congrArg List.length hunits
    rw [hflat, List.length_reverse, List.length_cons, List.length_append, List.length_map] at hall
    -- the other entries hold the front of the name
    rw [List.reverse_cons, List.flatMap_append, List.flatMap_singleton] at hunits
    have hfront : l.reverse.flatMap lfnUnits = (s.take (13 * l.length)).map UInt8.toNat := by
      have htake := congrArg (List.take (13 * l.length)) hunits
      have hl := hflat l.reverse
      rw [List.length_reverse] at hl
      rwa [List.take_left' hl, List.take_append_of_le_length (by rw [List.length_map]; omega),
        ← List.map_take] at htake
    have hback : lfnUnits x = (s.drop (13 * l.length)).map UInt8.toNat ++ rest := by
      have hdrop := congrArg (List.drop (13 * l.length)) hunits
      have hl := hflat l.reverse
      rw [List.length_reverse] at hl
      rwa [List.drop_left' hl, List.drop_append_of_le_length (by rw [List.length_map]; omega),
        ← List.map_drop] at hdrop
    obtain ⟨htext, hlengths⟩ := flatMap_lfnText hfront
    refine ⟨fun y hy => hlengths y (List.mem_reverse.mpr hy), ?_⟩
    have hchain : chainText (x :: l) = s.take (13 * l.length) ++ lfnText x := by
      rw [chainText, List.reverse_cons, List.flatMap_append, List.flatMap_singleton, htext]
    rw [hchain]
    rcases hrest with rfl | ⟨l', rfl⟩
    · -- the name fills the last entry too
      rw [List.length_nil] at hall
      rw [List.append_nil] at hback
      rw [lfnText_full hback]
      exact ⟨[], by rw [List.take_append_drop, List.append_nil], by rw [if_pos (by omega)]⟩
    · rw [List.length_cons] at hall
      have hprefix : (s.drop (13 * l.length) ++ [0]).map UInt8.toNat <+: lfnUnits x := by
        rw [hback, List.map_append]
        exact ⟨l', by simp⟩
      obtain ⟨l'', hl''⟩ := lfnText_of_begins hprefix
      rw [← hl'']
      refine ⟨0 :: l'', ?_, by rw [if_neg (by omega)]; exact ⟨l'', rfl⟩⟩
      rw [← List.append_assoc, ← List.append_assoc, List.take_append_drop, List.append_assoc]
      rfl

/-! ## Records -/

/-- The name that `ls` stores for an item, if it lists it. -/
def DirItem.text : DirItem → Option (FatFileEntry × List UInt8)
  | .file chain e => some (e, if chain = [] then sfnName e else chainText chain)
  | .deleted e => if e.attributes ≠ tfAttrLongName then some (e, sfnName e) else none
  | .orphan _ => none

/-- The record of a file at `contents`. -/
def direntRecord (e : FatFileEntry) (contents : Nat) (name : List UInt8) : List UInt8 :=
  direntBytes e contents name.length ++ name

/-- The records of the items from `contents` on. -/
def direntRecords (contents : Nat) : List DirItem → List (List UInt8)
  | [] => []
  | x :: items =>
    match x.text with
    | none => direntRecords contents items
    | some (e, name) =>
      direntRecord e contents name :: direntRecords (contents + (19 + name.length)) items

/-- The bytes of all records. -/
def recordsLength (items : List DirItem) : Nat :=
  (items.map fun x => match x.text with
    | none => 0
    | some (_, name) => 19 + name.length).sum

theorem direntRecord_length (e : FatFileEntry) (contents : Nat) (name : List UInt8) :
    (direntRecord e contents name).length = 19 + name.length := by
  rw [direntRecord, List.length_append, direntBytes_length]

theorem direntRecords_length (contents : Nat) (items : List DirItem) :
    (direntRecords contents items).flatten.length = recordsLength items := by
  induction items generalizing contents with
  | nil => rfl
  | cons x items ih =>
    rw [recordsLength, List.map_cons, List.sum_cons, ← recordsLength]
    cases htext : x.text with
    | none => simp only [direntRecords, htext, ih, Nat.zero_add]
    | some p =>
      simp only [direntRecords, htext, List.flatten_cons, List.length_append, ih,
        direntRecord_length]

/-- The texts of the entries go one in front of the other. -/
def Placed : List FatFileEntry → Prop
  | [] => True
  | x :: l => lfnPlace x = 19 + 13 * l.length ∧ Placed l

theorem placed_of_getD (h : ∀ i < l.length, lfnPlace (l.getD i []) = 19 + 13 * (l.length - 1 - i)) :
    Placed l := by
  induction l with
  | nil => trivial
  | cons x l ih =>
    have hfirst := h 0 (Nat.succ_pos _)
    rw [List.length_cons] at hfirst
    refine ⟨hfirst, ih fun i hi => ?_⟩
    have hnext := h (i + 1) (Nat.succ_lt_succ hi)
    rw [List.length_cons, List.getD_cons_succ] at hnext
    rw [hnext]
    omega

theorem LiveChain.placed (h : LiveChain chain e) : Placed chain := by
  refine placed_of_getD fun i hi => ?_
  have hnumber := h.number hi
  have hlt := h.length_lt
  rw [lfnPlace, hnumber]
  split
  · rw [(flag_or _ hlt).2]
    omega
  · have hclear : clearFlag (chain.length - i) 0x40 = chain.length - i := by
      have hall : ∀ n < 64, clearFlag n 0x40 = n := by decide
      exact hall _ (by omega)
    rw [hclear]
    omega

theorem chainText_cons (x : FatFileEntry) (l : List FatFileEntry) :
    chainText (x :: l) = chainText l ++ lfnText x := by
  rw [chainText, List.reverse_cons, List.flatMap_append, List.flatMap_singleton]
  rfl

theorem chainText_length (hlengths : ∀ x ∈ l, (lfnText x).length = 13) :
    (chainText l).length = 13 * l.length := by
  induction l with
  | nil => rfl
  | cons x l ih =>
    obtain ⟨hx, hl⟩ := List.forall_mem_cons.mp hlengths
    rw [chainText_cons, List.length_append, ih hl, hx, List.length_cons]
    omega

/-- The texts of a chain make up its text. -/
theorem puts_partCopies (contents : Nat) (hplaced : Placed l)
    (hlengths : ∀ x ∈ l.tail, (lfnText x).length = 13) :
    Puts (contents + 19) (chainText l) (partCopies contents l) := by
  induction l with
  | nil => exact puts_nil _
  | cons x l ih =>
    obtain ⟨hx, hl⟩ := hplaced
    rw [List.tail_cons] at hlengths
    rw [partCopies_cons, chainText_cons]
    refine Puts.prepend (ih hl fun y hy => hlengths y (List.mem_of_mem_tail hy)) ?_
    rw [chainText_length hlengths, Nat.add_assoc, ← hx]
    exact puts_single _ _

theorem nameLength_eq (l : List FatFileEntry) : nameLength l = (chainText l).length := by
  induction l with
  | nil => rfl
  | cons x l ih => rw [nameLength_cons, chainText_cons, List.length_append, ih, Nat.add_comm]

/-! ## The rounds -/

/-- What `ls` meets in a directory: files, and deleted entries. -/
def DirItem.Proper (x : DirItem) : Prop := x.Valid ∧ ∀ e, x ≠ .orphan e

/-- The long names are of single-byte characters. -/
def DirItem.Bytes : DirItem → Prop
  | .file chain _ => chain ≠ [] → ∃ s, ByteName chain s
  | .deleted _ => True
  | .orphan _ => True

/-- The bytes of the record of an item at `contents`. -/
def DirItem.record (contents : Nat) (x : DirItem) : List UInt8 :=
  match x.text with
  | none => []
  | some (e, name) => direntRecord e contents name

variable {len base readn : Nat} {x : DirItem}

/-- One of the entries in front of the last one. -/
theorem not_stop (hk : k < lastEntry) (hused : entryByte (entry k) 0 ≠ 0) (hroom : readn + 8 < len) :
    ¬ (k = lastEntry ∨ entryByte (entry k) 0 = 0 ∨ len ≤ readn + 8) := by
  rintro (hlast | hzero | hfull)
  · omega
  · exact hused hzero
  · omega

theorem short_step (hk : k < lastEntry) (hroom : readn + 8 < len) (hentry : entry k = e)
    (hused : entryByte e 0 ≠ 0) (hshort : e.attributes ≠ tfAttrLongName) :
    (lsStep entry len base (k, readn)).2 =
        .inl (k + 1, readn + (direntRecord e (base + readn) (sfnName e)).length) ∧
      Puts (base + readn) (direntRecord e (base + readn) (sfnName e))
        (lsStep entry len base (k, readn)).1 := by
  subst hentry
  have hfound : found entry len k readn = .short (entry k) := by
    simp only [found]
    rw [if_neg (not_stop hk hused hroom), if_pos hshort]
  simp only [lsStep]
  rw [hfound, direntRecord_length]
  refine ⟨rfl, Puts.prepend (puts_single _ _) ?_⟩
  rw [direntBytes_length]
  exact puts_single _ _

/-- The entries behind the first one of a chain. -/
theorem lfnRest_eq (h : EntriesAt entry k l) (hk : k + l.length ≤ lastEntry)
    (hlong : ∀ x ∈ l, FatFileEntry.attributes x = tfAttrLongName) : lfnRest entry l.length k = l := by
  induction l generalizing k with
  | nil => rfl
  | cons x l ih =>
    obtain ⟨hx, hl⟩ := List.forall_mem_cons.mp hlong
    have hfirst : entry k = x := h 0 (Nat.succ_pos _)
    rw [List.length_cons] at hk ⊢
    have hrest := ih (k := k + 1) (fun i hi => by
      have := h (i + 1) (Nat.succ_lt_succ hi)
      rwa [List.getD_cons_succ, ← Nat.add_assoc, Nat.add_right_comm] at this) (by omega) hl
    rw [lfnRest, if_pos ⟨by omega, by rw [hfirst]; exact hx⟩, hfirst, hrest]

theorem long_step (h : LiveChain chain e) (hne : chain ≠ []) (hb : ByteName chain s)
    (hentries : EntriesAt entry k (chain ++ [e])) (hk : k + chain.length < lastEntry)
    (hroom : readn + 1700 ≤ len) :
    (lsStep entry len base (k, readn)).2 = .inl (k + (chain.length + 1),
        readn + (direntRecord e (base + readn) (chainText chain)).length) ∧
      Puts (base + readn) (direntRecord e (base + readn) (chainText chain))
        (lsStep entry len base (k, readn)).1 := by
  obtain ⟨hlengths, _⟩ := h.text hne hb
  cases chain with
  | nil => exact absurd rfl hne
  | cons x l =>
    rw [List.length_cons] at hk
    have hlt := h.length_lt
    rw [List.length_cons] at hlt
    have hfirst : entry k = x := hentries 0 (by simp)
    have hrest : lfnRest entry l.length (k + 1) = l := by
      refine lfnRest_eq (fun i hi => ?_) (by omega) fun y hy => h.long y (List.mem_cons_of_mem x hy)
      have hi' : i + 1 < ((x :: l) ++ [e]).length := by simp; omega
      have hget := hentries (i + 1) hi'
      rw [List.cons_append, List.getD_cons_succ, List.getD_append _ _ _ _ hi] at hget
      rw [Nat.add_assoc, Nat.add_comm 1 i]
      exact hget
    have hfile : entry (k + 1 + l.length) = e := by
      have hget := hentries (l.length + 1) (by simp)
      rw [List.cons_append, List.getD_cons_succ,
        List.getD_append_right _ _ _ _ (Nat.le_refl _), Nat.sub_self] at hget
      rw [Nat.add_assoc, Nat.add_comm 1 l.length]
      exact hget
    obtain ⟨hused, hlong, hflag, hcount⟩ := h.longNameAt (k := k) (Nat.succ_pos _) hfirst
    rw [List.length_cons] at hcount
    have hgo := not_stop (by omega) hused (show readn + 8 < len by omega)
    have hfound := found_first hgo (not_not_intro hlong) hflag (by rw [hcount]; omega)
    rw [hcount, Nat.add_sub_cancel, hrest, if_pos ⟨rfl, by omega⟩, hfirst, hfile] at hfound
    simp only [lsStep]
    rw [hfound, direntRecord_length]
    simp only [Found.next, Found.copies, List.length_cons, nameLength_eq]
    refine ⟨by rw [Nat.add_assoc, Nat.add_comm 1], Puts.prepend (puts_single _ _) ?_⟩
    rw [direntBytes_length]
    exact puts_partCopies _ h.placed hlengths

/-- Each item takes one round, which stores its record. -/
theorem item_step (base : Nat) (hx : x.Proper) (hbytes : x.Bytes)
    (hentries : EntriesAt entry k x.entries) (hk : k + x.entries.length ≤ lastEntry)
    (hroom : readn + 1700 ≤ len) :
    (lsStep entry len base (k, readn)).2 =
        .inl (k + x.entries.length, readn + (x.record (base + readn)).length) ∧
      Puts (base + readn) (x.record (base + readn)) (lsStep entry len base (k, readn)).1 := by
  obtain ⟨hvalid, hproper⟩ := hx
  cases x with
  | file chain e =>
    obtain ⟨hchain, hlive⟩ := hvalid
    by_cases hne : chain = []
    · subst hne
      exact short_step hk (by omega) (hentries 0 (Nat.succ_pos _)) hlive.used hlive.short
    · obtain ⟨s, hb⟩ := hbytes hne
      have hlen : (DirItem.file chain e).entries.length = chain.length + 1 := by
        simp [DirItem.entries]
      have hrecord : (DirItem.file chain e).record (base + readn) =
          direntRecord e (base + readn) (chainText chain) := by
        simp only [DirItem.record, DirItem.text]
        rw [if_neg hne]
      rw [hlen] at hk ⊢
      rw [hrecord]
      exact long_step hchain hne hb hentries (by omega) hroom
  | deleted e =>
    have hdeleted : entryByte e 0 = 0xe5 := hvalid
    have hfirst : entry k = e := hentries 0 (Nat.succ_pos _)
    have hused : entryByte (entry k) 0 ≠ 0 := by
      rw [hfirst, hdeleted]
      decide
    by_cases hlong : e.attributes = tfAttrLongName
    · have hnumber : e.sequenceNumber = 0xe5 := by
        rw [FatFileEntry.sequenceNumber, hdeleted]
        rfl
      have hfound : found entry len k readn = .other := by
        simp only [found]
        rw [if_neg (not_stop hk hused (by omega)), hfirst, if_neg (not_not_intro hlong), hnumber,
          if_neg (by decide)]
      have hrecord : (DirItem.deleted e).record (base + readn) = [] := by
        simp only [DirItem.record, DirItem.text]
        rw [if_neg (not_not_intro hlong)]
      simp only [lsStep]
      rw [hfound, hrecord]
      exact ⟨rfl, puts_nil _⟩
    · have hrecord : (DirItem.deleted e).record (base + readn) =
          direntRecord e (base + readn) (sfnName e) := by
        simp only [DirItem.record, DirItem.text]
        rw [if_pos hlong]
      rw [hrecord]
      exact short_step hk (by omega) hfirst (by rw [hdeleted]; decide) hlong
  | orphan e => exact absurd rfl (hproper e)

/-- The records of the items, one after the other. -/
def recordBytes (contents : Nat) (items : List DirItem) : List UInt8 :=
  (direntRecords contents items).flatten

theorem recordBytes_cons (contents : Nat) (x : DirItem) (items : List DirItem) :
    recordBytes contents (x :: items) =
      x.record contents ++ recordBytes (contents + (x.record contents).length) items := by
  unfold recordBytes DirItem.record
  rw [direntRecords]
  cases x.text with
  | none => rfl
  | some p =>
    simp only [List.flatten_cons, direntRecord_length]

/-- The rounds for all items. -/
theorem items_emit (base : Nat) (hproper : ∀ x ∈ items, x.Proper) (hbytes : ∀ x ∈ items, x.Bytes)
    (hentries : EntriesAt entry k (dirEntries items))
    (hk : k + (dirEntries items).length ≤ lastEntry)
    (hend : entryByte (entry (k + (dirEntries items).length)) 0 = 0)
    (hroom : readn + recordsLength items + 1700 ≤ len) :
    ∃ l, Emits (lsStep entry len base) (k, readn) l ((readn + recordsLength items : Nat) : Int) ∧
      Puts (base + readn) (recordBytes (base + readn) items) l := by
  induction items generalizing k readn with
  | nil =>
    refine ⟨[], .stop ?_, puts_nil _⟩
    have hend' : entryByte (entry k) 0 = 0 := hend
    simp only [lsStep]
    rw [found_stop (Or.inr (Or.inl hend'))]
    rfl
  | cons x items ih =>
    obtain ⟨hx, hproper'⟩ := List.forall_mem_cons.mp hproper
    obtain ⟨hb, hbytes'⟩ := List.forall_mem_cons.mp hbytes
    have hsplit : dirEntries (x :: items) = x.entries ++ dirEntries items := rfl
    rw [hsplit] at hentries
    rw [hsplit, List.length_append] at hk
    rw [hsplit, List.length_append, ← Nat.add_assoc] at hend
    have hlength : recordsLength (x :: items) =
        (x.record (base + readn)).length + recordsLength items := by
      rw [← direntRecords_length (base + readn), ← direntRecords_length
        (base + readn + (x.record (base + readn)).length) items]
      exact (congrArg List.length (recordBytes_cons _ _ _)).trans List.length_append
    rw [hlength] at hroom ⊢
    have hfront : EntriesAt entry k x.entries := by
      intro i hi
      rw [hentries i (by rw [List.length_append]; omega), List.getD_append _ _ _ _ hi]
    have hback : EntriesAt entry (k + x.entries.length) (dirEntries items) := by
      intro i hi
      have hget := hentries (x.entries.length + i) (by rw [List.length_append]; omega)
      rwa [List.getD_append_right _ _ _ _ (Nat.le_add_right _ _), Nat.add_sub_cancel_left,
        ← Nat.add_assoc] at hget
    obtain ⟨hnext, hputs⟩ := item_step base hx hb hfront (by omega)
      (show readn + 1700 ≤ len by omega)
    have hroom' : readn + (x.record (base + readn)).length + recordsLength items + 1700 ≤ len := by
      omega
    obtain ⟨l, hemits, hputs'⟩ := ih hproper' hbytes' hback (by omega) hend hroom'
    refine ⟨_, .next (Prod.ext rfl hnext) (by rw [← Nat.add_assoc]; exact hemits), ?_⟩
    rw [recordBytes_cons]
    rw [← Nat.add_assoc] at hputs'
    exact hputs.append hputs'

/-! ## Reading the records -/

/-- `d_reclen` of the first record. -/
def dReclen (bytes : List UInt8) : Nat := readLE (fun i => bytes.getD i 0) 16 2

/-- The records that follow one another by their `d_reclen`, `n` at most. -/
def splitRecords : Nat → List UInt8 → Option (List (List UInt8))
  | _, [] => some []
  | 0, _ :: _ => none
  | n + 1, c :: bytes =>
    if dReclen (c :: bytes) = 0 ∨ bytes.length + 1 < dReclen (c :: bytes) then
      none
    else
      (splitRecords n ((c :: bytes).drop (dReclen (c :: bytes)))).map
        ((c :: bytes).take (dReclen (c :: bytes)) :: ·)

/-- The string in front of a `NUL`, if there is one. -/
def cString (bytes : List UInt8) : Option (List UInt8) :=
  if 0 ∈ bytes then some (bytes.takeWhile (· ≠ 0)) else none

/-- `d_name` of a record, if it ends in the record. -/
def dName (record : List UInt8) : Option (List UInt8) := cString (record.drop 19)

theorem splitRecords_flatten (rs : List (List UInt8)) (hn : rs.length ≤ n)
    (hrs : ∀ r ∈ rs, 0 < r.length ∧ ∀ rest, dReclen (r ++ rest) = r.length) :
    splitRecords n rs.flatten = some rs := by
  induction rs generalizing n with
  | nil => cases n <;> rfl
  | cons r rs ih =>
    obtain ⟨n, rfl⟩ : ∃ m, n = m + 1 := ⟨n - 1, by rw [List.length_cons] at hn; omega⟩
    obtain ⟨⟨hpos, hlength⟩, hrest⟩ := List.forall_mem_cons.mp hrs
    have hsplit := ih (n := n) (by rw [List.length_cons] at hn; omega) hrest
    rw [List.flatten_cons]
    have hfirst := hlength rs.flatten
    cases r with
    | nil => exact absurd hpos (Nat.lt_irrefl 0)
    | cons c r =>
      rw [List.cons_append] at hfirst ⊢
      rw [splitRecords, hfirst, if_neg, ← List.cons_append, List.drop_left, List.take_left, hsplit]
      · rfl
      · rw [List.length_append, List.length_cons]
        omega

/-- The record has the length that it says. -/
theorem dReclen_direntRecord (e : FatFileEntry) (contents : Nat) {name : List UInt8}
    (hname : name.length < 1000) (rest : List UInt8) :
    dReclen (direntRecord e contents name ++ rest) = (direntRecord e contents name).length := by
  have hbytes : dReclen (direntRecord e contents name ++ rest) =
      (UInt8.ofNat (reclen name.length / 256 ^ 0)).toNat +
        256 * ((UInt8.ofNat (reclen name.length / 256 ^ 1)).toNat + 256 * 0) := rfl
  rw [hbytes, reclen_small hname, direntRecord_length, UInt8.toNat_ofNat', UInt8.toNat_ofNat']
  omega

/-- The memory behind the first bytes of a buffer. -/
def bufferBytes (user : Bool) (pagetable : Nat) (m : Mem) (base r : Nat) : List UInt8 :=
  (List.range r).map fun i => m (physical user pagetable m (base + i))

/-- The name of a file: the long one if it has one. -/
def DirItem.fileName : DirItem → Option (List Nat)
  | .file chain e =>
    some (if chain = [] then (trimmedName e).map UInt8.toNat else chainName chain)
  | .deleted _ => none
  | .orphan _ => none

/-- What `ls` writes splits into one record for each file, with its name in `d_name`. -/
def ListsFiles (path : CStr) (base len : Nat) (user : Bool) (s : Fat32) (items : List DirItem) :
    Prop :=
  ∃ (r : Nat) (t : Fat32) (rs : List (List UInt8)), Fat32.ls path base len user s = .ok (r : Int) t ∧
    splitRecords r (bufferBytes user s.pagetable t.mm.mem base r) = some rs ∧
    rs.map (fun x => (dName x).map (List.map UInt8.toNat)) =
      (items.filterMap DirItem.fileName).map some

/-- The record of the item is right: a file has a long name of single-byte characters that does not
fill its entries, and a deleted entry is one of a long name. -/
def DirItem.Listed : DirItem → Prop
  | .file chain _ =>
    chain ≠ [] ∧ (chainName chain).length % 13 ≠ 0 ∧ ∃ s, ByteName chain s
  | .deleted e => e.attributes = tfAttrLongName
  | .orphan _ => True

theorem dName_direntRecord (e : FatFileEntry) (contents : Nat) (name : List UInt8) :
    dName (direntRecord e contents name) = cString name := by
  have hdrop : (direntRecord e contents name).drop 19 = name := by
    rw [direntRecord, ← direntBytes_length e contents name.length, List.drop_left]
  rw [dName, hdrop]

/-- The names in the records. -/
theorem dName_direntRecords {β : Type} (f : List UInt8 → β) (contents : Nat)
    (items : List DirItem) : (direntRecords contents items).map (fun x => (dName x).map f) =
      (items.filterMap DirItem.text).map fun p => (cString p.2).map f := by
  induction items generalizing contents with
  | nil => rfl
  | cons x items ih =>
    rw [direntRecords]
    cases htext : x.text with
    | none => rw [List.filterMap_cons_none htext, ← ih contents]
    | some p =>
      rw [List.filterMap_cons_some htext]
      simp only [List.map_cons]
      rw [ih, dName_direntRecord]

/-- The names are short enough for `d_reclen`. -/
theorem text_length (hx : x.Proper) {p : FatFileEntry × List UInt8} (h : x.text = some p) :
    p.2.length < 1000 := by
  obtain ⟨hvalid, _⟩ := hx
  cases x with
  | file chain e =>
    obtain ⟨hchain, _⟩ := hvalid
    simp only [DirItem.text, Option.some.injEq] at h
    subst h
    simp only
    split
    · have := sfnName_length_le e
      omega
    · have hlt := hchain.length_lt
      have hname := nameLength_le chain
      rw [nameLength_eq] at hname
      omega
  | deleted e =>
    simp only [DirItem.text] at h
    split at h
    · cases h
      have := sfnName_length_le e
      simp only
      omega
    · cases h
  | orphan e => cases h

/-- Each record has the length that it says. -/
theorem direntRecords_lengths (contents : Nat) (hproper : ∀ x ∈ items, x.Proper) :
    ∀ r ∈ direntRecords contents items, 0 < r.length ∧ ∀ rest, dReclen (r ++ rest) = r.length := by
  induction items generalizing contents with
  | nil =>
    intro r hr
    cases hr
  | cons x items ih =>
    obtain ⟨hx, hproper'⟩ := List.forall_mem_cons.mp hproper
    rw [direntRecords]
    cases htext : x.text with
    | none => exact ih contents hproper'
    | some p =>
      simp only [List.forall_mem_cons]
      refine ⟨⟨?_, fun rest => ?_⟩, ih _ hproper'⟩
      · rw [direntRecord_length]
        omega
      · exact dReclen_direntRecord p.1 contents (text_length hx htext) rest

theorem cString_of_noNul {bytes : List UInt8} (h : (0 : UInt8) ∉ bytes) : cString bytes = none :=
  if_neg h

/-- A name, and a `NUL` behind it. -/
theorem cString_of_nul {l : List UInt8} (h : (0 : UInt8) ∉ s) : cString (s ++ 0 :: l) = some s := by
  have hname : ∀ c ∈ s, decide (c ≠ 0) = true := by
    intro c hc
    simp only [decide_eq_true_eq]
    rintro rfl
    exact h hc
  rw [cString, if_pos (List.mem_append_right s List.mem_cons_self),
    List.takeWhile_append_of_pos hname, List.takeWhile_cons_of_neg (by decide), List.append_nil]

/-- The record of a file is right exactly if there is a `NUL` behind its long name. -/
theorem file_listed_iff (hx : (DirItem.file chain e).Proper) (hb : (DirItem.file chain e).Bytes) :
    (cString (if chain = [] then sfnName e else chainText chain)).map (List.map UInt8.toNat) =
      some (if chain = [] then (trimmedName e).map UInt8.toNat else chainName chain) ↔
    (DirItem.file chain e).Listed := by
  obtain ⟨⟨hchain, hlive⟩, _⟩ := hx
  by_cases hne : chain = []
  · rw [if_pos hne, cString_of_noNul hlive.noNul_sfnName]
    exact iff_of_false (fun h => by cases h) fun h => h.1 hne
  · obtain ⟨s, hs⟩ := hb hne
    have hnul := hs.spells.noNul
    obtain ⟨_, rest, htext, hrest⟩ := hchain.text hne hs
    have hlength : (chainName chain).length = s.length := by rw [hs, List.length_map]
    rw [if_neg hne, if_neg hne, htext]
    by_cases hmod : s.length % 13 = 0
    · rw [if_pos hmod] at hrest
      rw [hrest, List.append_nil, cString_of_noNul hnul]
      exact iff_of_false (fun h => by cases h) fun h => h.2.1 (by rw [hlength]; exact hmod)
    · rw [if_neg hmod] at hrest
      obtain ⟨l, rfl⟩ := hrest
      rw [cString_of_nul hnul, Option.map_some, hs]
      exact iff_of_true rfl ⟨hne, by rw [hlength]; exact hmod, s, hs⟩

/-- There is a record for each file. -/
theorem fileNames_length_le (items : List DirItem) :
    (items.filterMap DirItem.fileName).length ≤ (items.filterMap DirItem.text).length := by
  induction items with
  | nil => exact Nat.le_refl 0
  | cons x items ih =>
    cases x with
    | file chain e => exact Nat.succ_le_succ ih
    | deleted e =>
      rw [List.filterMap_cons_none rfl, List.filterMap_cons]
      split
      · exact ih
      · exact ih.trans (Nat.le_succ _)
    | orphan e => exact ih

/-- All records are right. -/
theorem names_eq_iff (hproper : ∀ x ∈ items, x.Proper) (hbytes : ∀ x ∈ items, x.Bytes) :
    (items.filterMap DirItem.text).map (fun p => (cString p.2).map (List.map UInt8.toNat)) =
      (items.filterMap DirItem.fileName).map some ↔ ∀ x ∈ items, x.Listed := by
  induction items with
  | nil => exact iff_of_true rfl fun x hx => by cases hx
  | cons x items ih =>
    obtain ⟨hx, hproper'⟩ := List.forall_mem_cons.mp hproper
    obtain ⟨hb, hbytes'⟩ := List.forall_mem_cons.mp hbytes
    rw [List.forall_mem_cons, ← ih hproper' hbytes']
    cases x with
    | file chain e =>
      have htext : (DirItem.file chain e).text =
        some (e, if chain = [] then sfnName e else chainText chain) := rfl
      have hname : (DirItem.file chain e).fileName =
        some (if chain = [] then (trimmedName e).map UInt8.toNat else chainName chain) := rfl
      rw [← file_listed_iff hx hb, List.filterMap_cons_some htext, List.filterMap_cons_some hname,
        List.map_cons, List.map_cons, List.cons.injEq]
    | deleted e =>
      by_cases hlong : e.attributes = tfAttrLongName
      · have htext : (DirItem.deleted e).text = none := if_neg (not_not_intro hlong)
        rw [List.filterMap_cons_none htext, List.filterMap_cons_none rfl]
        exact (and_iff_right hlong).symm
      · have htext : (DirItem.deleted e).text = some (e, sfnName e) := if_pos hlong
        rw [List.filterMap_cons_some htext, List.filterMap_cons_none rfl]
        refine iff_of_false (fun h => ?_) fun h => hlong h.1
        -- one record more than there are files
        have hlength := congrArg List.length h
        have hle := fileNames_length_le items
        rw [List.length_map, List.length_map, List.length_cons] at hlength
        omega
    | orphan e => exact absurd rfl (hx.2 e)

/-- Where all names are in the records, they are of single-byte characters. -/
theorem ListsFiles.bytes {path : CStr} {user : Bool} {u : Fat32}
    (h : ListsFiles path base len user u items) : ∀ x ∈ items, x.Bytes := by
  obtain ⟨r, t, rs, _, _, hnames⟩ := h
  intro x hx
  cases x with
  | file chain e =>
    intro hne
    have hname : (DirItem.file chain e).fileName = some (chainName chain) := by
      rw [DirItem.fileName, if_neg hne]
    have hmem : some (chainName chain) ∈ (items.filterMap DirItem.fileName).map some :=
      List.mem_map_of_mem (List.mem_filterMap.mpr ⟨_, hx, hname⟩)
    rw [← hnames] at hmem
    obtain ⟨record, _, hrecord⟩ := List.mem_map.mp hmem
    obtain ⟨s, _, hs⟩ := Option.map_eq_some_iff.mp hrecord
    exact ⟨s, hs.symm⟩
  | deleted e => trivial
  | orphan e => trivial

/-- What is stored in the buffer is in it. -/
theorem CopiedOut.bufferBytes {user : Bool} {pagetable lo hi : Nat} {m m' : Mem}
    {c : List (Nat × List UInt8)} {bs : List UInt8} (h : CopiedOut user pagetable lo hi m m' c)
    (hputs : Puts lo bs c) (hin : lo + bs.length ≤ hi) :
    bufferBytes user pagetable m' lo bs.length = bs := by
  apply List.ext_getElem
  · simp [PageFaultOS.bufferBytes]
  · intro i hi1 hi2
    simp only [PageFaultOS.bufferBytes, List.getElem_map, List.getElem_range]
    rw [h.physical, h.stored _ (Nat.le_add_right _ _) (by omega), hputs.stored,
      store_apply _ (Nat.le_add_right _ _) (by omega), Nat.add_sub_cancel_left,
      List.getD_eq_getElem _ _ hi2]

/-- `ls` lists a directory of files, with deleted entries between them, right into a buffer that is
large enough exactly if each file has a long name of single-byte characters whose length is no
multiple of 13, and no 8.3 entry is deleted. -/
theorem lists_files_iff {path : CStr} {user : Bool} {u t : Fat32} {fp : Nat} (hco : u.Coherent)
    (hvalid : u.info.shape.Valid) (hsectors : u.info.shape.totalSectors < 2 ^ 32)
    (hopen : tfFopen path .r u = .ok (.handle fp) t)
    (hdir : (t.handles fp).attributes &&& tfAttrDirectory ≠ 0)
    (hproper : ∀ x ∈ items, x.Proper)
    (hentries : EntriesAt (grownEntry u.info.shape t.volume (t.handles fp).startCluster) 0
      (dirEntries items))
    (hend : entryByte (grownEntry u.info.shape t.volume (t.handles fp).startCluster
      (dirEntries items).length) 0 = 0)
    (hroom : (dirEntries items).length ≤ lastEntry) (hlarge : recordsLength items + 1700 ≤ len)
    (hlen : len < 2 ^ 31) (hbase : base + len + 4096 ≤ 2 ^ 64)
    (hw : Writable user u.pagetable u.mm.mem base (base + len)) :
    ListsFiles path base len user u items ↔ ∀ x ∈ items, x.Listed := by
  have hrun : (∀ x ∈ items, x.Bytes) → ∃ t, Fat32.ls path base len user u =
      .ok ((recordsLength items : Nat) : Int) t ∧ splitRecords (recordsLength items)
        (bufferBytes user u.pagetable t.mm.mem base (recordsLength items)) =
          some (direntRecords base items) := by
    intro hbytes
    have hlength := direntRecords_length base items
    have hroom' : 0 + recordsLength items + 1700 ≤ len := by omega
    obtain ⟨c, hemits, hputs⟩ := items_emit base hproper hbytes hentries
      (by rwa [Nat.zero_add]) (by rwa [Nat.zero_add]) hroom'
    rw [Nat.zero_add] at hemits
    have hin : Inside base (base + len) c := by
      intro b hb
      have hcovered := (hputs.covered b).mp hb
      simp only [recordBytes, Nat.add_zero, hlength] at hcovered
      omega
    obtain ⟨w, hls, hcopied⟩ := ls_run hco hvalid hsectors hopen hdir hlen hbase hw hemits hin
    have hbuffer := hcopied.bufferBytes hputs (by
      simp only [recordBytes, Nat.add_zero, hlength]
      omega)
    simp only [recordBytes, Nat.add_zero, hlength] at hbuffer
    refine ⟨w, hls, ?_⟩
    rw [hbuffer]
    have hlengths := direntRecords_lengths base hproper
    refine splitRecords_flatten _ ?_ hlengths
    have hcount := List.length_le_sum_of_one_le ((direntRecords base items).map List.length)
      fun i hi => by
        obtain ⟨r, hr, rfl⟩ := List.mem_map.mp hi
        exact (hlengths r hr).1
    rwa [List.length_map, ← List.length_flatten, hlength] at hcount
  constructor
  · intro h
    have hbytes := h.bytes
    obtain ⟨w, hls, hsplit⟩ := hrun hbytes
    obtain ⟨r, w', rs, hls', hsplit', hnames⟩ := h
    rw [hls] at hls'
    cases hls'
    rw [hsplit] at hsplit'
    cases hsplit'
    rw [dName_direntRecords] at hnames
    exact (names_eq_iff hproper hbytes).mp hnames
  · intro h
    have hbytes : ∀ x ∈ items, x.Bytes := by
      intro x hx
      have hlisted := h x hx
      cases x with
      | file chain e => exact fun _ => hlisted.2.2
      | deleted e => trivial
      | orphan e => trivial
    obtain ⟨w, hls, hsplit⟩ := hrun hbytes
    refine ⟨_, w, _, hls, hsplit, ?_⟩
    rw [dName_direntRecords]
    exact (names_eq_iff hproper hbytes).mpr h

/-- The entry of the one file. -/
def shortA : FatFileEntry := 0x41 :: (List.replicate 10 0x20 ++ List.replicate 21 0)

theorem shortA_proper : (DirItem.file [] shortA).Proper := by
  refine ⟨⟨⟨?_, rfl, ?_, ?_, ?_⟩, ⟨⟨?_, ?_⟩, ?_, ?_⟩⟩, fun e h => by cases h⟩
  · intro x hx
    cases hx
  · intro x hx
    cases hx
  all_goals decide

/-- The record of a file without a long name has no `NUL`. -/
theorem ls_unterminated : oneShort.Coherent ∧ (DirItem.file [] shortA).Proper ∧
    (∃ t, tfFopen [slash] .r oneShort = .ok (.handle 0) t) ∧
    EntriesAt (grownEntry oneShort.info.shape oneShort.volume 2) 0 [shortA] ∧
    entryByte (grownEntry oneShort.info.shape oneShort.volume 2 1) 0 = 0 ∧
    ¬ ListsFiles [slash] 4096 2000 false oneShort [.file [] shortA] := by
  refine ⟨oneShort_coherent, shortA_proper, oneShort_opens, by decide +kernel, by decide +kernel, ?_⟩
  rintro ⟨r, t, rs, hrun, hsplit, hnames⟩
  have hvalue : (match Fat32.ls [slash] 4096 (2000 : Nat) false oneShort with
      | .ok r t => (splitRecords r.toNat (bufferBytes false 0 t.mm.mem 4096 r.toNat)).map
          (List.map dName)
      | .fault _ _ => none) = some [none] := by decide +kernel
  rw [hrun] at hvalue
  simp only [Int.toNat_natCast] at hvalue
  have hsplit' : splitRecords r (bufferBytes false 0 t.mm.mem 4096 r) = some rs := hsplit
  rw [hsplit', Option.map_some, Option.some.injEq] at hvalue
  have hmap := congrArg (List.map (Option.map (List.map UInt8.toNat))) hvalue
  rw [List.map_map] at hmap
  have hnames' : rs.map (Option.map (List.map UInt8.toNat) ∘ dName) = [some [0x41]] := hnames
  rw [hnames'] at hmap
  cases hmap

theorem lists_files_oneShort : ListsFiles [slash] 4096 2000 false oneShort [.file [] shortA] ↔
    ∀ x ∈ [DirItem.file [] shortA], x.Listed := by
  obtain ⟨fp, _, f, hopen, hattributes, hstart, _⟩ := tfFopen_root (s := oneShort)
    ⟨0, by decide, by decide⟩
  have hvolume : (oneShort.setFile fp f).volume = oneShort.volume := rfl
  refine lists_files_iff oneShort_coherent ⟨by decide, by decide⟩ (by decide) hopen ?_ ?_ ?_ ?_
    (by decide) (by decide) (by decide) (by decide) (writable_kernel (by decide))
  · rw [oneShort.setFile_self, hattributes]
    decide
  · intro x hx
    cases List.mem_singleton.mp hx
    exact shortA_proper
  · rw [oneShort.setFile_self, hstart, hvolume]
    decide +kernel
  · rw [oneShort.setFile_self, hstart, hvolume]
    decide +kernel

end PageFaultOS
