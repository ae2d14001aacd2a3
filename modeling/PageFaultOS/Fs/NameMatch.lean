import Mathlib.Data.List.TakeWhile
import Mathlib.Tactic
import PageFaultOS.Fs.Directory
import PageFaultOS.Fs.LongName

/-! Matching of long names: `tf_compare_filename` at the chain of a name accepts the names that
are equal to it but for the case of ASCII letters, and always ends up behind the chain. -/

namespace PageFaultOS
open Exec Exec.Comp ByteMem

/-- A long name: 1 to 255 characters, no `NUL` and no separator among them. -/
structure IsLongName (name : CStr) : Prop where
  pos : 0 < name.length
  short : name.length ≤ 255
  noNul : (0 : UInt8) ∉ name
  noSlash : slash ∉ name

/-- Equal but for the case of ASCII letters. -/
def SameFolded (q s : CStr) : Prop := q.map toLowCase = s.map toLowCase

instance (q s : CStr) : Decidable (SameFolded q s) := inferInstanceAs (Decidable (_ = _))

/-- The number of entries of the chain of a name. -/
def lfnChunks (name : CStr) : Nat := (name.length + 12) / 13

/-- The character that an entry of the chain shows at `i`. -/
def lfnChar (name : CStr) (i : Nat) : UInt8 := UInt8.ofNat (lfnWord name i)

variable {q s : CStr}

theorem sameFolded_iff : SameFolded q s ↔ q.length = s.length ∧
    ∀ k < q.length, toLowCase (q.getD k 0) = toLowCase (s.getD k 0) := by
  constructor
  · intro h
    have hlen : q.length = s.length := by
      have := congrArg List.length h
      rwa [List.length_map, List.length_map] at this
    refine ⟨hlen, fun k hk => ?_⟩
    have hget : (q.map toLowCase)[k]? = (s.map toLowCase)[k]? := congrArg (·[k]?) h
    rw [List.getElem?_map, List.getElem?_map, List.getElem?_eq_getElem hk,
      List.getElem?_eq_getElem (hlen ▸ hk), Option.map_some, Option.map_some] at hget
    rw [List.getD_eq_getElem _ _ hk, List.getD_eq_getElem _ _ (hlen ▸ hk)]
    exact Option.some.inj hget
  · rintro ⟨hlen, hall⟩
    refine List.ext_getElem (by rw [List.length_map, List.length_map, hlen]) fun k hk hk' => ?_
    rw [List.length_map] at hk hk'
    have := hall k hk
    rw [List.getD_eq_getElem _ _ hk, List.getD_eq_getElem _ _ hk'] at this
    rwa [List.getElem_map, List.getElem_map]

/-! ## Characters -/

theorem toLowCase_eq_zero {c : UInt8} (h : toLowCase c = 0) : c = 0 := by
  unfold toLowCase at h
  split at h
  · rename_i hc
    have h1 : (0x41 : UInt8).toNat ≤ c.toNat := hc.1
    have h2 : c.toNat ≤ (0x5a : UInt8).toNat := hc.2
    have h3 := congrArg UInt8.toNat h
    rw [UInt8.toNat_add] at h3
    have h1' : 0x41 ≤ c.toNat := h1
    have h2' : c.toNat ≤ 0x5a := h2
    have h3' : (c.toNat + 32) % 2 ^ 8 = 0 := h3
    omega
  · exact h

theorem lfnChar_of_lt {i : Nat} (h : i < s.length) : lfnChar s i = s.getD i 0 := by
  rw [lfnChar, lfnWord, if_pos h, UInt8.ofNat_toNat]

theorem lfnChar_length (s : CStr) : lfnChar s s.length = 0 := by
  rw [lfnChar, lfnWord, if_neg (lt_irrefl _), if_pos rfl]
  rfl

/-- `strncasecmp` looks at the first `n` characters. -/
theorem strncasecmpZero_iff (s1 : CStr) (s2 : List UInt8) {n : Nat} (hn : n ≤ s1.length) :
    strncasecmpZero s1 s2 n = true ↔
      ∀ j < n, toLowCase (s1.getD j 0) = toLowCase (s2.getD j 0) := by
  induction n generalizing s1 s2 with
  | zero =>
    have htrue : strncasecmpZero s1 s2 0 = true := by cases s1 <;> rfl
    simp [htrue]
  | succ n ih =>
    cases s1 with
    | nil => simp at hn
    | cons c s1 =>
      have hhead : s2.headD 0 = s2.getD 0 0 := by cases s2 <;> rfl
      have htail : ∀ j, s2.tail.getD j 0 = s2.getD (j + 1) 0 := by cases s2 <;> simp
      rw [strncasecmpZero, decide_eq_true_eq, ih s1 s2.tail (by simpa using hn), hhead]
      constructor
      · rintro ⟨hfirst, hrest⟩ j hj
        cases j with
        | zero => exact hfirst
        | succ j =>
          have := hrest j (by omega)
          rwa [htail] at this
      · intro hall
        refine ⟨hall 0 (Nat.succ_pos n), fun j hj => ?_⟩
        rw [htail]
        exact hall (j + 1) (by omega)

/-! ## One entry -/

/-- The characters that an entry of the chain is compared by. -/
theorem reformattedFile_lfnEntry (s : CStr) (seq checksum : UInt8) (p : Nat) :
    reformattedFile (lfnEntry s seq checksum p) = (List.range' p 13).map (lfnChar s) := by
  obtain ⟨a, b, hval, h⟩ := lfnEntry_bytes s seq checksum p
  have hchar : ∀ i, lfnChar s i = a i := by
    intro i
    rw [lfnChar, ← hval i]
    apply UInt8.toNat_inj.mp
    rw [UInt8.toNat_ofNat']
    have := (a i).toNat_lt
    omega
  have hlong : ¬ (lfnEntry s seq checksum p).attributes ≠ tfAttrLongName :=
    not_not.mpr (lfnEntry_attributes s seq checksum p)
  rw [reformattedFile, if_neg hlong, h]
  simp [List.range'_succ, hchar, entryByte]

theorem reformattedFile_getD (s : CStr) (seq checksum : UInt8) (p j : Nat) :
    (reformattedFile (lfnEntry s seq checksum p)).getD j 0 =
      if j < 13 then lfnChar s (p + j) else 0 := by
  rw [reformattedFile_lfnEntry]
  by_cases hj : j < 13
  · rw [if_pos hj, List.getD_eq_getElem _ _ (by simpa using hj), List.getElem_map,
      List.getElem_range']
    simp
  · rw [if_neg hj, List.getD_eq_default _ _ (by simpa using hj)]

/-- The entry is compared by 13 of the characters `ch`, those from `p` on. -/
def Shows (e : FatFileEntry) (ch : Nat → UInt8) (p : Nat) : Prop :=
  ∀ j, (reformattedFile e).getD j 0 = if j < 13 then ch (p + j) else 0

theorem shows_lfnEntry (s : CStr) (seq checksum : UInt8) (p : Nat) :
    Shows (lfnEntry s seq checksum p) (lfnChar s) p :=
  fun j => reformattedFile_getD s seq checksum p j

/-- Chunk `i` of the name that is looked for against an entry with the characters from
`13 * i` on: where more than 13 characters are left these are compared, and otherwise all that
are left, and the entry has to end with them. -/
theorem segment_iff (hq : slash ∉ q) {e : FatFileEntry} {ch : Nat → UInt8} {i : Nat}
    (he : Shows e ch (13 * i)) (hi : 13 * i < q.length) :
    tfCompareFilenameSegment e (q.drop (13 * i)) = true ↔
      (q.length < 13 * i + 13 → ch q.length = 0) ∧
      ∀ j < 13, 13 * i + j < q.length →
        toLowCase (q.getD (13 * i + j) 0) = toLowCase (ch (13 * i + j)) := by
  have hwhole : (q.drop (13 * i)).takeWhile (· ≠ slash) = q.drop (13 * i) := by
    rw [List.takeWhile_eq_self_iff]
    intro c hc
    have hne : c ≠ slash := fun h => hq (h ▸ List.mem_of_mem_drop hc)
    simpa using hne
  have hget : ∀ j, (q.drop (13 * i)).getD j 0 = q.getD (13 * i + j) 0 := by
    intro j
    rw [List.getD_eq_getElem?_getD, List.getElem?_drop, List.getD_eq_getElem?_getD]
  simp only [tfCompareFilenameSegment, hwhole, List.length_drop]
  by_cases hmore : 13 < q.length - 13 * i
  · rw [if_pos hmore, strncasecmpZero_iff _ _ (by rw [List.length_drop]; omega)]
    constructor
    · intro hall
      refine ⟨fun hend => by omega, fun j hj _ => ?_⟩
      have := hall j hj
      rwa [hget, he, if_pos hj] at this
    · rintro ⟨-, hall⟩ j hj
      rw [hget, he, if_pos hj]
      exact hall j hj (by omega)
  · rw [if_neg hmore, decide_eq_true_eq, he, strncasecmpZero_iff _ _ (by rw [List.length_drop])]
    have hrest : 13 * i + (q.length - 13 * i) = q.length := by omega
    rw [hrest]
    constructor
    · rintro ⟨hend, hall⟩
      refine ⟨fun hlt => ?_, fun j hj hin => ?_⟩
      · rwa [if_pos (by omega)] at hend
      · have := hall j (by omega)
        rwa [hget, he, if_pos hj] at this
    · rintro ⟨hend, hall⟩
      refine ⟨?_, fun j hj => ?_⟩
      · by_cases hlt : q.length - 13 * i < 13
        · rw [if_pos hlt]
          exact hend (by omega)
        · rw [if_neg hlt]
      · rw [hget, he, if_pos (by omega)]
        exact hall j (by omega) (by omega)

/-! ## The chain -/

/-- The characters are those of a name, and a `NUL` behind it. -/
structure Spells (ch : Nat → UInt8) (s : CStr) : Prop where
  noNul : (0 : UInt8) ∉ s
  same : ∀ k < s.length, ch k = s.getD k 0
  stop : ch s.length = 0

theorem IsLongName.spells (hs : IsLongName s) : Spells (lfnChar s) s :=
  ⟨hs.noNul, fun _ hk => lfnChar_of_lt hk, lfnChar_length s⟩

/-- All chunks of `q` match those of a name with as many of them just where the names are
equal: the last chunk decides the length. -/
theorem segments_iff (hnul : (0 : UInt8) ∉ q) (hslash : slash ∉ q) (hpos : 0 < q.length)
    {ch : Nat → UInt8} (hs : Spells ch s) (hchunks : lfnChunks q = lfnChunks s)
    {e : Nat → FatFileEntry} (he : ∀ i < lfnChunks q, Shows (e i) ch (13 * i)) :
    (∀ i < lfnChunks q, tfCompareFilenameSegment (e i) (q.drop (13 * i)) = true) ↔
      SameFolded q s := by
  simp only [lfnChunks] at hchunks he ⊢
  rw [sameFolded_iff]
  constructor
  · intro hall
    have hchars : ∀ k < q.length, toLowCase (q.getD k 0) = toLowCase (ch k) := by
      intro k hk
      have hseg := (segment_iff hslash (he (k / 13) (by omega)) (by omega)).mp
        (hall (k / 13) (by omega))
      have hsplit : 13 * (k / 13) + k % 13 = k := Nat.div_add_mod k 13
      have := hseg.2 (k % 13) (by omega) (by omega)
      rwa [hsplit] at this
    have hend := ((segment_iff hslash (he ((q.length + 12) / 13 - 1) (by omega)) (by omega)).mp
      (hall _ (by omega))).1
    have hlen : q.length = s.length := by
      rcases lt_trichotomy q.length s.length with hlt | heq | hgt
      · -- the entry goes on where `q` ends
        have hzero := hend (by omega)
        rw [hs.same _ hlt] at hzero
        exact absurd hzero (getD_ne_zero hs.noNul hlt)
      · exact heq
      · -- `q` has a character where the entry ends
        have hchar := hchars s.length hgt
        rw [hs.stop] at hchar
        exact absurd (toLowCase_eq_zero hchar) (getD_ne_zero hnul hgt)
    refine ⟨hlen, fun k hk => ?_⟩
    rw [hchars k hk, hs.same _ (hlen ▸ hk)]
  · rintro ⟨hlen, hall⟩ i hi
    refine (segment_iff hslash (he i hi) (by omega)).mpr ⟨fun _ => ?_, fun j _ hin => ?_⟩
    · rw [hlen, hs.stop]
    · rw [hs.same _ (hlen ▸ hin)]
      exact hall _ hin

theorem SameFolded.chunks (h : SameFolded q s) : lfnChunks q = lfnChunks s := by
  rw [lfnChunks, lfnChunks, (sameFolded_iff.mp h).1]

theorem seq_flag : ∀ n < 64, (UInt8.ofNat n ||| 0x40).toNat &&& 0xc0 = 0x40 := by decide

/-- The outcome of looking at the chain of `s`, stored from entry `k` on. -/
theorem compareAt_chain (hq : IsLongName q) (hs : IsLongName s) (sfn : List UInt8)
    (old : FatFileEntry) {entry : Nat → FatFileEntry} {k : Nat}
    (hstored : ∀ i < lfnChunks s, (lfnChain s sfn old)[i]? = some (entry (k + i))) :
    compareAt entry q k =
      if SameFolded q s then .found (k + lfnChunks s) else .next (k + lfnChunks s) := by
  have hshort := hs.short
  have hn : lfnChunks s < 64 := by
    rw [lfnChunks]
    omega
  have hnpos : 0 < lfnChunks s := by
    have := hs.pos
    rw [lfnChunks]
    omega
  rw [lfnChain_eq hs.noNul hs.pos hs.short] at hstored
  have hentry : ∀ i < lfnChunks s, ∃ seq, entry (k + i) =
      lfnEntry s seq (tfLfnChecksum sfn) (13 * (lfnChunks s - 1 - i)) ∧
      (i = 0 → seq = UInt8.ofNat (lfnChunks s) ||| 0x40) := by
    intro i hi
    obtain ⟨seq, hget, hfirst⟩ := lfnEntries_get s (tfLfnChecksum sfn)
      (UInt8.ofNat (lfnChunks s) ||| 0x40) hi
    refine ⟨seq, ?_, hfirst⟩
    have hsame := (hstored i hi).symm.trans hget
    exact Option.some.inj hsame
  obtain ⟨seq, hhead, hseq⟩ := hentry 0 hnpos
  rw [Nat.add_zero] at hhead
  have hcode : (entry k).sequenceNumber = (UInt8.ofNat (lfnChunks s) ||| 0x40).toNat := by
    rw [hhead, hseq rfl]
    rfl
  have hflag : (entry k).sequenceNumber &&& 0xc0 = 0x40 := by
    rw [hcode]
    exact seq_flag _ hn
  have hname : ¬ entryByte (entry k) 0 = 0 := by
    intro hzero
    rw [FatFileEntry.sequenceNumber, hzero] at hflag
    exact absurd hflag (by decide)
  have hlong : ¬ (entry k).attributes ≠ tfAttrLongName := by
    rw [hhead, lfnEntry_attributes]
    exact not_not.mpr rfl
  have hcount : clearFlag (entry k).sequenceNumber 0x40 = lfnChunks s := by
    rw [hcode]
    exact (seq_first _ hn).2
  have hmax : max (lfnChunks s) 1 = lfnChunks s := max_eq_left hnpos
  have hmatch : ((q.length + 12) / 13 = lfnChunks s ∧
      longNameMatches entry q k (lfnChunks s) = true) ↔ SameFolded q s := by
    choose! seqs hentries _ using hentry
    have hback : ∀ i < lfnChunks s, entry (k + lfnChunks s - 1 - i) =
        lfnEntry s (seqs (lfnChunks s - 1 - i)) (tfLfnChecksum sfn) (13 * i) := by
      intro i hi
      rw [show k + lfnChunks s - 1 - i = k + (lfnChunks s - 1 - i) by omega,
        hentries _ (by omega)]
      congr 2
      omega
    constructor
    · rintro ⟨hchunks, hall⟩
      have hchunks' : lfnChunks q = lfnChunks s := hchunks
      refine (segments_iff hq.noNul hq.noSlash hq.pos hs.spells hchunks'
        fun i _ => shows_lfnEntry s (seqs (lfnChunks s - 1 - i)) (tfLfnChecksum sfn)
          (13 * i)).mp fun i hi => ?_
      rw [hchunks'] at hi
      have := List.all_eq_true.mp hall i (List.mem_range'_1.mpr (by omega))
      rwa [hback i hi] at this
    · intro hsame
      refine ⟨hsame.chunks, List.all_eq_true.mpr fun i hi => ?_⟩
      have hi' : i < lfnChunks s := by
        have := List.mem_range'_1.mp hi
        omega
      rw [hback i hi']
      exact (segments_iff hq.noNul hq.noSlash hq.pos hs.spells hsame.chunks
        fun i _ => shows_lfnEntry s (seqs (lfnChunks s - 1 - i)) (tfLfnChecksum sfn)
          (13 * i)).mpr hsame i (hsame.chunks ▸ hi')
  unfold compareAt
  simp only [if_neg hname, if_neg hlong, if_pos hflag, hcount, hmax, hmatch]

/-- `tf_compare_filename` at the chain of a name that `tf_place_lfn_chain` has made: `1` for the
names equal to it but for the case, `0` for all others, and behind both the handle is at the
entry that ends the chain. -/
theorem tfCompareFilename_longName {w : Fat32} {fp : Nat} {cs : List Nat} {f : TFFile} {k : Nat}
    (stored name : CStr) (sfn : List UInt8) (old : FatFileEntry) (hdir : InDir w fp cs f k)
    (hs : IsLongName stored) (hq : IsLongName name)
    (hstored : ∀ i < lfnChunks stored, (lfnChain stored sfn old)[i]? =
      some (dirEntry w.info.shape w.volume cs (k + i)))
    (hroom : HasRoom w.info.shape cs (k + lfnChunks stored)) :
    ∃ w', tfCompareFilename fp name w = .ok (if SameFolded name stored then 1 else 0) w' ∧
      Moved w w' fp (moveTo w.info.shape cs (32 * (k + lfnChunks stored)) f) := by
  have hne : name ≠ [] := List.ne_nil_of_length_pos hq.pos
  have hone : 1 ≤ lfnChunks stored := by
    have := hs.pos
    rw [lfnChunks]
    omega
  have hcompare := compareAt_chain hq hs sfn old hstored
  by_cases hsame : SameFolded name stored
  · rw [if_pos hsame] at hcompare
    rw [if_pos hsame]
    exact tfCompareFilename_run hdir hne (hroom.le (by omega)) hcompare hroom
  · rw [if_neg hsame] at hcompare
    rw [if_neg hsame]
    exact tfCompareFilename_run hdir hne (hroom.le (by omega)) hcompare hroom

/-! ## A directory with one name -/

/-- The chain of `notesName`, and an entry for it, in the cluster `2`. -/
def notesDisk : Mem := store (fun _ => 0) (34 * 512)
  ((lfnChain notesName [] []).flatten ++ List.replicate 11 0x41 ++ List.replicate 21 0)

def notesFile : TFFile := ⟨2, 0, 2, 0, 0, tfFlagOpen, tfAttrDirectory, 0xffffffff, []⟩

def notesVolume : Fat32 :=
  { blankVolume with
    info := ⟨⟨1, 34, 1000, 2⟩, 0, false, readSector notesDisk 0⟩
    disk := notesDisk
    handles := fun _ => notesFile }

/-- A file at its start. -/
theorem moveTo_start (shape : TFShape) {cs : List Nat} {f : TFFile}
    (hidx : f.currentClusterIdx = 0) (hcluster : f.currentCluster = cs.getD 0 0)
    (hbyte : f.currentByte = 0) (hpos : f.pos = 0) : moveTo shape cs (32 * 0) f = f := by
  cases f
  simp only at hidx hcluster hbyte hpos
  subst hidx hcluster hbyte hpos
  simp [moveTo]

theorem fatChain_single (shape : TFShape) (v : Mem) (c : Nat) : FatChain shape v [c] := by
  constructor
  · intro i hi
    simp at hi
  · intro i hi
    simp at hi

theorem notesVolume_inDir : InDir notesVolume 0 [2] notesFile 0 where
  valid := ⟨by decide, by decide⟩
  coherent := fun _ => writeSector_readSector notesDisk 0
  chain := fatChain_single _ _ 2
  start := rfl
  size := rfl
  file := (moveTo_start _ rfl rfl rfl rfl).symm

/-- `"Notes-Of-May.MD"`. -/
def shoutedName : CStr :=
  [0x4e, 0x6f, 0x74, 0x65, 0x73, 0x2d, 0x4f, 0x66, 0x2d, 0x4d, 0x61, 0x79, 0x2e, 0x4d, 0x44]

theorem tfCompareFilename_notes :
    ∃ w', tfCompareFilename 0 shoutedName notesVolume = .ok 1 w' ∧
      Moved notesVolume w' 0 (moveTo notesVolume.info.shape [2] 64 notesFile) :=
  tfCompareFilename_longName notesName shoutedName [] [] notesVolume_inDir
    ⟨by decide, by decide, by decide, by decide⟩ ⟨by decide, by decide, by decide, by decide⟩
    (by decide +kernel) (by decide)

end PageFaultOS
