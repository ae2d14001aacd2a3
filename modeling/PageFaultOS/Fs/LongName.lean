import Mathlib.Data.List.GetD
import Mathlib.Tactic
import PageFaultOS.Fs.Ops

/-! Long names of `fs/fat32.cpp`: the entries that `tf_place_lfn_chain` makes of a name, and
what `copylfn` reads back from them. `char` is unsigned. -/

namespace PageFaultOS
open Exec Exec.Comp ByteMem

/-! ## The encoder -/

/-- One of the loops of `tf_create_lfn_entry`, from the character at `p` on. Behind the `NUL`
the loop goes on reading, but `done` is set. -/
def lfnWords (filename : CStr) : Nat → Nat → Bool → List Nat × Bool
  | 0, _, done => ([], done)
  | n + 1, p, done =>
    let c := filename.getD p 0
    let (words, done') := lfnWords filename n (p + 1) (done || c = 0)
    ((if done then 0xffff else c.toNat) :: words, done')

/-- An array of `uint16`. -/
def wordBytes (words : List Nat) : List UInt8 := words.flatMap fun w => leBytes w 2

/-- `filename` is the string from `p` on. The answer is where it goes on, or `NULL`. -/
def tfCreateLfnEntry (filename : CStr) (p : Nat) (entry : FatFileEntry) :
    Option Nat × FatFileEntry :=
  let (name1, done) := lfnWords filename 5 p false
  let (name2, done) := lfnWords filename 6 (p + 5) done
  let (name3, done) := lfnWords filename 2 (p + 11) done
  let entry := [entryByte entry 0] ++ wordBytes name1 ++
    [UInt8.ofNat tfAttrLongName, 0, entryByte entry 13] ++ wordBytes name2 ++ [0, 0] ++
    wordBytes name3
  (if done then none else if filename.getD (p + 13) 0 ≠ 0 then some (p + 13) else none, entry)

/-- The sum over the 11 characters of the short name, as a `char`. -/
def tfLfnChecksum (sfn : List UInt8) : UInt8 :=
  (List.range 11).foldl (fun sum i => ((sum &&& 1) <<< 7) + (sum >>> 1) + sfn.getD i 0) 0

/-- The loop that counts, at `last_strptr`, `entries` and the local entry; `create` is
`tf_create_lfn_entry` of the name. -/
def lfnCount (create : Nat → FatFileEntry → Option Nat × FatFileEntry) :
    Nat → Nat → Nat → FatFileEntry → Nat × Nat × FatFileEntry
  | 0, last, entries, entry => (last, entries, entry)
  | fuel + 1, last, entries, entry =>
    match create last entry with
    | (some strptr, entry) => lfnCount create fuel strptr (entries + 1) entry
    | (none, entry) => (last, entries, entry)

/-- The loop that places the entries, with `n` of them to go. -/
def lfnChainFrom (filename : CStr) (sfn : List UInt8) :
    Nat → Nat → UInt8 → FatFileEntry → List FatFileEntry
  | 0, _, _, _ => []
  | n + 1, last, seq, entry =>
    let entry := (tfCreateLfnEntry filename last entry).2
    let entry := (entry.set 0 seq).set 13 (tfLfnChecksum sfn)
    entry :: lfnChainFrom filename sfn n (last - 13) ((seq &&& ~~~0x40) - 1) entry

/-- The entries that `tf_place_lfn_chain` hands to `tf_fwrite`, from what was in the local
entry before. -/
def lfnChain (filename : CStr) (sfn : List UInt8) (entry : FatFileEntry) : List FatFileEntry :=
  let r := lfnCount (tfCreateLfnEntry filename) (filename.length + 1) 0 1 entry
  lfnChainFrom filename sfn r.2.1 r.1 (UInt8.ofNat r.2.1 ||| 0x40) r.2.2

/-- `copylfn` of entry after entry, and the counts it returns. -/
def copyLfnAll (dst : Int) (user : Bool) : List FatFileEntry → FsComp (List Nat)
  | [] => pure []
  | e :: es => do
    let n ← copyLfn e dst user
    let ns ← copyLfnAll dst user es
    pure (n :: ns)

/-! ## An entry -/

/-- The character of a long name at `i`: behind the `NUL` there is padding. -/
def lfnWord (name : CStr) (i : Nat) : Nat :=
  if i < name.length then (name.getD i 0).toNat else if i = name.length then 0 else 0xffff

/-- The entry with the characters from `p` on. -/
def lfnEntry (name : CStr) (seq checksum : UInt8) (p : Nat) : FatFileEntry :=
  [seq] ++ wordBytes ((List.range' p 5).map (lfnWord name)) ++
    [UInt8.ofNat tfAttrLongName, 0, checksum] ++
    wordBytes ((List.range' (p + 5) 6).map (lfnWord name)) ++ [0, 0] ++
    wordBytes ((List.range' (p + 11) 2).map (lfnWord name))

section Entry
variable {name : CStr}

theorem getD_ne_zero (hname : (0 : UInt8) ∉ name) {i : Nat} (hi : i < name.length) :
    name.getD i 0 ≠ 0 := by
  rw [List.getD_eq_getElem _ _ hi]
  exact fun h => hname (h ▸ List.getElem_mem hi)

theorem getD_eq_zero_iff (hname : (0 : UInt8) ∉ name) (i : Nat) :
    name.getD i 0 = 0 ↔ name.length ≤ i := by
  constructor
  · intro h
    by_contra hi
    exact getD_ne_zero hname (by omega) h
  · intro h
    exact List.getD_eq_default _ _ h

/-- The loops fill in the characters, the `NUL` and the padding. -/
theorem lfnWords_eq (hname : (0 : UInt8) ∉ name) (n p : Nat) :
    lfnWords name n p (decide (name.length < p)) =
      ((List.range' p n).map (lfnWord name), decide (name.length < p + n)) := by
  induction n generalizing p with
  | zero => rfl
  | succ n ih =>
    have hdone : (decide (name.length < p) || decide (name.getD p 0 = 0)) =
        decide (name.length < p + 1) := by
      rw [← Bool.decide_or]
      congr 1
      rw [getD_eq_zero_iff hname, eq_iff_iff]
      omega
    have hword : (if name.length < p then 0xffff else (name.getD p 0).toNat) = lfnWord name p := by
      rw [lfnWord]
      rcases lt_trichotomy p name.length with hlt | heq | hgt
      · rw [if_neg (by omega), if_pos hlt]
      · rw [if_neg (by omega), if_neg (by omega), if_pos heq, List.getD_eq_default _ _ heq.ge]
        rfl
      · rw [if_pos hgt, if_neg (by omega), if_neg (by omega)]
    simp only [lfnWords, hdone, ih (p + 1), List.range'_succ, List.map_cons, decide_eq_true_eq,
      hword]
    rw [Nat.add_right_comm p 1 n, Nat.add_assoc]

theorem tfCreateLfnEntry_eq (hname : (0 : UInt8) ∉ name) {p : Nat} (hp : p ≤ name.length)
    (entry : FatFileEntry) :
    tfCreateLfnEntry name p entry =
      (if p + 13 < name.length then some (p + 13) else none,
        lfnEntry name (entryByte entry 0) (entryByte entry 13) p) := by
  have h0 : decide (name.length < p) = false := decide_eq_false (by omega)
  have h1 := lfnWords_eq hname 5 p
  rw [h0] at h1
  have hnext : (if decide (name.length < p + 11 + 2) then none
      else if name.getD (p + 13) 0 ≠ 0 then some (p + 13) else none : Option Nat) =
      if p + 13 < name.length then some (p + 13) else none := by
    by_cases hlt : p + 13 < name.length
    · rw [if_pos hlt, if_neg (by simp; omega), if_pos (getD_ne_zero hname hlt)]
    · have hnul : name.getD (p + 13) 0 = 0 := (getD_eq_zero_iff hname _).mpr (by omega)
      rw [if_neg hlt, if_neg (not_not.mpr hnul), ite_self]
  simp only [tfCreateLfnEntry, h1, lfnWords_eq hname 6 (p + 5), lfnWords_eq hname 2 (p + 5 + 6),
    show p + 11 = p + 5 + 6 from rfl, lfnEntry]
  rw [← hnext]

theorem wordBytes_word (w : Nat) (hw : w < 2 ^ 16) :
    ∃ a b : UInt8, leBytes w 2 = [a, b] ∧ a.toNat + 256 * b.toNat = w := by
  refine ⟨UInt8.ofNat w, UInt8.ofNat (w / 256), ?_, ?_⟩
  · simp [leBytes, List.range_succ]
  · rw [UInt8.toNat_ofNat', UInt8.toNat_ofNat']
    omega

theorem lfnWord_lt (name : CStr) (i : Nat) : lfnWord name i < 2 ^ 16 := by
  have hc := (name.getD i 0).toNat_lt
  rw [lfnWord]
  split
  · omega
  · split <;> decide

/-- The bytes of an entry, one character after the other. -/
theorem lfnEntry_bytes (name : CStr) (seq checksum : UInt8) (p : Nat) :
    ∃ a b : Nat → UInt8, (∀ i, (a i).toNat + 256 * (b i).toNat = lfnWord name i) ∧
      lfnEntry name seq checksum p =
        [seq, a p, b p, a (p + 1), b (p + 1), a (p + 2), b (p + 2), a (p + 3), b (p + 3),
          a (p + 4), b (p + 4), UInt8.ofNat tfAttrLongName, 0, checksum,
          a (p + 5), b (p + 5), a (p + 6), b (p + 6), a (p + 7), b (p + 7),
          a (p + 8), b (p + 8), a (p + 9), b (p + 9), a (p + 10), b (p + 10), 0, 0,
          a (p + 11), b (p + 11), a (p + 12), b (p + 12)] := by
  choose a b hbytes hval using fun i => wordBytes_word (lfnWord name i) (lfnWord_lt name i)
  refine ⟨a, b, hval, ?_⟩
  simp only [lfnEntry, wordBytes, List.range'_succ, List.range'_zero, List.map_cons, List.map_nil,
    List.flatMap_cons, List.flatMap_nil, hbytes]
  rfl

theorem lfnEntry_attributes (name : CStr) (seq checksum : UInt8) (p : Nat) :
    (lfnEntry name seq checksum p).attributes = tfAttrLongName := by
  obtain ⟨a, b, -, h⟩ := lfnEntry_bytes name seq checksum p
  rw [h]
  rfl

/-- What the sequence number and the checksum were before does not matter. -/
theorem lfnEntry_set (name : CStr) (seq checksum seq' checksum' : UInt8) (p : Nat) :
    ((lfnEntry name seq checksum p).set 0 seq').set 13 checksum' =
      lfnEntry name seq' checksum' p := by
  simp only [lfnEntry, wordBytes, leBytes, List.range'_succ, List.range'_zero, List.map_cons,
    List.map_nil, List.flatMap_cons, List.flatMap_nil, List.range_succ, List.range_zero]
  rfl

/-- The three arrays of an entry hold 13 characters. -/
theorem lfnEntry_words (name : CStr) (seq checksum : UInt8) (p : Nat) :
    ((List.range 5).map fun j => entryWord (lfnEntry name seq checksum p) (1 + 2 * j) 2) =
      (List.range' p 5).map (lfnWord name) ∧
    ((List.range 6).map fun j => entryWord (lfnEntry name seq checksum p) (14 + 2 * j) 2) =
      (List.range' (p + 5) 6).map (lfnWord name) ∧
    ((List.range 2).map fun j => entryWord (lfnEntry name seq checksum p) (28 + 2 * j) 2) =
      (List.range' (p + 11) 2).map (lfnWord name) := by
  obtain ⟨a, b, hval, h⟩ := lfnEntry_bytes name seq checksum p
  rw [h]
  simp [List.range_succ, List.range'_succ, entryWord, entryByte, readLE, hval]

/-- `copylfn` stops at the padding, and takes the `NUL` with it. -/
theorem takeWhile_lfnWord (name : CStr) (n p : Nat) :
    (((List.range' p n).map (lfnWord name)).takeWhile (· ≠ 0xffff)).map UInt8.ofNat =
      ((name ++ [0]).drop p).take n := by
  induction n generalizing p with
  | zero => simp
  | succ n ih =>
    rw [List.range'_succ, List.map_cons]
    by_cases hp : p ≤ name.length
    · have hlt : p < (name ++ [0]).length := by
        rw [List.length_append, List.length_singleton]
        omega
      have hword : lfnWord name p = ((name ++ [0])[p]).toNat := by
        rw [lfnWord]
        by_cases hin : p < name.length
        · rw [if_pos hin, List.getD_eq_getElem _ _ hin, List.getElem_append_left hin]
        · have heq : p = name.length := by omega
          subst heq
          simp
      have hchar : lfnWord name p ≠ 0xffff := by
        have hc := ((name ++ [0])[p]).toNat_lt
        omega
      rw [List.takeWhile_cons_of_pos (by simpa using hchar), List.map_cons, ih (p + 1),
        List.drop_eq_getElem_cons hlt, List.take_succ_cons, hword, UInt8.ofNat_toNat]
    · have hpad : lfnWord name p = 0xffff := by
        rw [lfnWord, if_neg (by omega), if_neg (by omega)]
      rw [List.takeWhile_cons_of_neg (by simp [hpad]), List.drop_of_length_le (by simp; omega)]
      simp

theorem clearFlag_ofNat : ∀ n < 64, clearFlag (UInt8.ofNat n).toNat 0x40 = n := by decide

/-- The sequence number of the first entry carries the flag. -/
theorem seq_first : ∀ n < 64, (UInt8.ofNat n ||| 0x40).toNat = n ||| 0x40 ∧
    clearFlag (UInt8.ofNat n ||| 0x40).toNat 0x40 = n := by decide

/-- What `copylfn` copies: up to 13 characters of the name and its `NUL`. -/
theorem lfnChars_entry (name : CStr) (seq checksum : UInt8) (p : Nat) :
    lfnChars (lfnEntry name seq checksum p) 1 5 = ((name ++ [0]).drop p).take 5 ∧
    lfnChars (lfnEntry name seq checksum p) 14 6 = ((name ++ [0]).drop (p + 5)).take 6 ∧
    lfnChars (lfnEntry name seq checksum p) 28 2 = ((name ++ [0]).drop (p + 11)).take 2 := by
  obtain ⟨h1, h2, h3⟩ := lfnEntry_words name seq checksum p
  simp only [lfnChars, h1, h2, h3, takeWhile_lfnWord]
  exact ⟨trivial, trivial, trivial⟩

end Entry

/-! ## The chain -/

/-- The last `n` entries of the chain of a name, the first of them with `seq`. -/
def lfnEntries (name : CStr) (checksum : UInt8) : Nat → UInt8 → List FatFileEntry
  | 0, _ => []
  | n + 1, seq => lfnEntry name seq checksum (13 * n) :: lfnEntries name checksum n (UInt8.ofNat n)

section Chain
variable {name : CStr}

theorem lfnEntries_length (name : CStr) (checksum : UInt8) (n : Nat) (seq : UInt8) :
    (lfnEntries name checksum n seq).length = n := by
  induction n generalizing seq with
  | zero => rfl
  | succ n ih => rw [lfnEntries, List.length_cons, ih]

theorem lfnEntries_get (name : CStr) (checksum : UInt8) {n i : Nat} (seq : UInt8) (hi : i < n) :
    ∃ seq', (lfnEntries name checksum n seq)[i]? =
      some (lfnEntry name seq' checksum (13 * (n - 1 - i))) ∧ (i = 0 → seq' = seq) := by
  induction n generalizing seq i with
  | zero => omega
  | succ n ih =>
    cases i with
    | zero => exact ⟨seq, rfl, fun _ => rfl⟩
    | succ i =>
      obtain ⟨seq', hget, -⟩ := ih (UInt8.ofNat n) (i := i) (by omega)
      refine ⟨seq', ?_, fun h => by cases h⟩
      rw [lfnEntries, List.getElem?_cons_succ, hget]
      congr 3
      omega

/-- The sequence numbers count down. -/
theorem lfnEntries_seq (name : CStr) (checksum : UInt8) {n : Nat} (seq : UInt8) (hn : n < 64) :
    (lfnEntries name checksum n seq).map FatFileEntry.sequenceNumber =
      (List.range n).map fun i => if i = 0 then seq.toNat else n - i := by
  induction n generalizing seq with
  | zero => rfl
  | succ n ih =>
    have hseq : (UInt8.ofNat n).toNat = n := by
      rw [UInt8.toNat_ofNat']
      omega
    rw [lfnEntries, List.map_cons, ih (UInt8.ofNat n) (by omega), List.range_succ_eq_map,
      List.map_cons, List.map_map]
    refine congrArg (seq.toNat :: ·) (List.map_congr_left fun i _ => ?_)
    rw [hseq]
    cases i with
    | zero => simp
    | succ i => simp

theorem seq_next : ∀ n < 64, (UInt8.ofNat n &&& ~~~0x40 = UInt8.ofNat n) ∧
    ((UInt8.ofNat n ||| 0x40) &&& ~~~0x40 = UInt8.ofNat n) ∧
    (UInt8.ofNat (n + 1) - 1 = UInt8.ofNat n) := by decide

theorem lfnCount_run (hname : (0 : UInt8) ∉ name) (fuel k entries : Nat) (entry : FatFileEntry)
    (hk : 13 * k < name.length) (hfuel : name.length < fuel + 13 * k) :
    ∃ e, lfnCount (tfCreateLfnEntry name) fuel (13 * k) entries entry =
      (13 * ((name.length + 12) / 13 - 1), entries + ((name.length + 12) / 13 - 1 - k), e) := by
  induction fuel generalizing k entries entry with
  | zero => omega
  | succ fuel ih =>
    rw [lfnCount, tfCreateLfnEntry_eq hname hk.le]
    by_cases hmore : 13 * k + 13 < name.length
    · obtain ⟨e, he⟩ := ih (k + 1) (entries + 1)
        (lfnEntry name (entryByte entry 0) (entryByte entry 13) (13 * k)) (by omega) (by omega)
      rw [if_pos hmore]
      refine ⟨e, ?_⟩
      rw [Nat.mul_succ] at he
      simp only [he]
      congr 2
      omega
    · rw [if_neg hmore]
      have hlast : (name.length + 12) / 13 - 1 = k := by omega
      refine ⟨lfnEntry name (entryByte entry 0) (entryByte entry 13) (13 * k), ?_⟩
      rw [hlast, Nat.sub_self]
      rfl

theorem lfnChainFrom_eq (hname : (0 : UInt8) ∉ name) (sfn : List UInt8) (n : Nat) (seq : UInt8)
    (entry : FatFileEntry) (hn : n < 64) (hseq : seq &&& ~~~0x40 = UInt8.ofNat n)
    (hlen : 13 * (n - 1) ≤ name.length) :
    lfnChainFrom name sfn n (13 * (n - 1)) seq entry =
      lfnEntries name (tfLfnChecksum sfn) n seq := by
  induction n generalizing seq entry with
  | zero => rfl
  | succ n ih =>
    have hlast : 13 * (n + 1 - 1) - 13 = 13 * (n - 1) := by omega
    rw [lfnChainFrom, tfCreateLfnEntry_eq hname hlen, lfnEntry_set, lfnEntries, hseq,
      (seq_next n (by omega)).2.2, hlast,
      ih (UInt8.ofNat n) _ (by omega) (seq_next n (by omega)).1 (by omega)]
    rfl

/-- The chain of a name: an entry for each 13 characters. -/
theorem lfnChain_eq (hname : (0 : UInt8) ∉ name) (hpos : 0 < name.length)
    (hlen : name.length ≤ 255) (sfn : List UInt8) (entry : FatFileEntry) :
    lfnChain name sfn entry = lfnEntries name (tfLfnChecksum sfn) ((name.length + 12) / 13)
      (UInt8.ofNat ((name.length + 12) / 13) ||| 0x40) := by
  obtain ⟨e, he⟩ := lfnCount_run hname (name.length + 1) 0 1 entry (by omega) (by omega)
  have hn : 1 + ((name.length + 12) / 13 - 1 - 0) = (name.length + 12) / 13 := by omega
  rw [Nat.mul_zero, hn] at he
  simp only [lfnChain, he]
  exact lfnChainFrom_eq hname sfn _ _ e (by omega) (seq_next _ (by omega)).2.1 (by omega)

/-- The loop of `tf_place_lfn_chain` in `Fs.Ops` hands over one entry of the chain a round. -/
theorem tfPlaceLfnChain_entries (hname : (0 : UInt8) ∉ name) (hpos : 0 < name.length)
    (hlen : name.length ≤ 255) (fp : Nat) (sfn : List UInt8) (entry : FatFileEntry) :
    tfPlaceLfnChain fp name = forEach (lfnChain name sfn entry) fun _ => fwriteEntry fp := by
  apply forEach_const
  rw [lfnChain_eq hname hpos hlen, lfnEntries_length, List.length_range]
  omega

end Chain

/-! ## Reading the chain back -/

/-- The state with `bytes` in the kernel's memory at `dst`. -/
def Fat32.withBytes (s : Fat32) (dst : Nat) (bytes : List UInt8) : Fat32 :=
  { s with mm := { s.mm with mem := store s.mm.mem dst bytes } }

theorem Fat32.withBytes_nil (s : Fat32) (dst : Nat) : s.withBytes dst [] = s := by
  have hmem : store s.mm.mem dst [] = s.mm.mem :=
    funext fun b => store_apply_of_outside _ _ _ _ (by simp; omega)
  rw [Fat32.withBytes, hmem]

theorem Fat32.withBytes_append (s : Fat32) (dst : Nat) (xs ys : List UInt8) :
    (s.withBytes dst xs).withBytes (dst + xs.length) ys = s.withBytes dst (xs ++ ys) := by
  simp only [Fat32.withBytes, store_append]

theorem Fat32.withBytes_prepend (s : Fat32) (dst : Nat) (xs ys : List UInt8) :
    (s.withBytes (dst + xs.length) ys).withBytes dst xs = s.withBytes dst (xs ++ ys) := by
  simp only [Fat32.withBytes, store_prepend]

theorem eitherCopyout_kernel (s : Fat32) {dst : Int} {a : Nat} (hdst : dst = a) (ha : a < 2 ^ 64)
    (bytes : List UInt8) : eitherCopyout false dst bytes s = .ok 0 (s.withBytes a bytes) := by
  have haddr : addr64 dst = a := by
    rw [addr64, hdst]
    omega
  unfold eitherCopyout
  rw [read_bind, haddr]
  rfl

section Decode
variable {name : CStr}

/-- The bytes that `copylfn` has to put into the buffer. -/
def lfnBytes (name : CStr) : List UInt8 := name ++ if name.length % 13 = 0 then [] else [0]

theorem lfnBytes_take (name : CStr) :
    (name ++ [0]).take (13 * ((name.length + 12) / 13)) = lfnBytes name := by
  rw [lfnBytes]
  by_cases h : name.length % 13 = 0
  · rw [if_pos h, List.append_nil, List.take_append_of_le_length (by omega),
      List.take_of_length_le (by omega)]
  · rw [if_neg h, List.take_of_length_le (by simp; omega)]

/-- One entry: its characters go to their place in the name. -/
theorem copyLfn_run (s : Fat32) {seq : UInt8} (checksum : UInt8) {n dst : Nat}
    (hseq : clearFlag seq.toNat 0x40 = n + 1) (hn : 13 * n ≤ name.length)
    (hdst : dst + name.length + 1 < 2 ^ 64) :
    copyLfn (lfnEntry name seq checksum (13 * n)) dst false s =
      .ok (((name ++ [0]).drop (13 * n)).take 13).length
        (s.withBytes (dst + 13 * n) (((name ++ [0]).drop (13 * n)).take 13)) := by
  have hno : clearFlag (lfnEntry name seq checksum (13 * n)).sequenceNumber 0x40 = n + 1 := hseq
  obtain ⟨h1, h2, h3⟩ := lfnChars_entry name seq checksum (13 * n)
  rw [← List.drop_drop] at h2 h3
  have hpart : ((name ++ [0]).drop (13 * n)).length = name.length + 1 - 13 * n := by
    rw [List.length_drop, List.length_append, List.length_singleton]
  generalize (name ++ [0]).drop (13 * n) = part at h1 h2 h3 hpart ⊢
  have hsplit : part.take 13 = part.take 5 ++ (part.drop 5).take 6 ++ (part.drop 11).take 2 := by
    rw [show 13 = 11 + 2 from rfl, List.take_add, show 11 = 5 + 6 from rfl, List.take_add]
  have hlen1 : (part.take 5).length ≤ part.length := List.length_take_le' ..
  have hlen2 : (part.take 5 ++ (part.drop 5).take 6).length ≤ part.length := by
    rw [← List.take_add]
    exact List.length_take_le' ..
  have hcount : (part.take 13).length = (part.take 5).length + ((part.drop 5).take 6).length +
      ((part.drop 11).take 2).length := by
    rw [hsplit, List.length_append, List.length_append]
  simp only [copyLfn, hno, h1, h2, h3]
  rw [bind_ok (eitherCopyout_kernel s (a := dst + 13 * n) (by push_cast; omega) (by omega) _)]
  simp only [lt_self_iff_false, if_false]
  rw [bind_ok (eitherCopyout_kernel _ (a := dst + 13 * n + (part.take 5).length)
      (by push_cast; omega) (by omega) _), Fat32.withBytes_append,
    bind_ok (eitherCopyout_kernel _
      (a := dst + 13 * n + (part.take 5 ++ (part.drop 5).take 6).length)
      (by rw [List.length_append]; push_cast; omega) (by omega) _),
    Fat32.withBytes_append, ← hsplit, hcount]
  rfl

/-- The entries of a chain, last characters first. -/
theorem copyLfnAll_run (checksum : UInt8) (n : Nat) (s : Fat32) {seq : UInt8} {dst : Nat}
    (hn : n < 64) (hseq : clearFlag seq.toNat 0x40 = n) (hlen : 13 * (n - 1) ≤ name.length)
    (hdst : dst + name.length + 1 < 2 ^ 64) :
    ∃ counts, copyLfnAll dst false (lfnEntries name checksum n seq) s =
        .ok counts (s.withBytes dst ((name ++ [0]).take (13 * n))) ∧
      counts.sum = ((name ++ [0]).take (13 * n)).length := by
  induction n generalizing s seq with
  | zero =>
    refine ⟨[], ?_, rfl⟩
    simp only [Nat.mul_zero, List.take_zero, Fat32.withBytes_nil]
    rfl
  | succ n ih =>
    have hfull : ((name ++ [0]).take (13 * n)).length = 13 * n := by
      rw [List.length_take, List.length_append, List.length_singleton]
      omega
    have hcode : clearFlag (UInt8.ofNat n).toNat 0x40 = n := clearFlag_ofNat n (by omega)
    obtain ⟨counts, hrest, hsum⟩ := ih
      (s.withBytes (dst + 13 * n) (((name ++ [0]).drop (13 * n)).take 13)) (by omega) hcode
      (by omega)
    refine ⟨(((name ++ [0]).drop (13 * n)).take 13).length :: counts, ?_, ?_⟩
    · rw [lfnEntries, copyLfnAll, bind_ok (copyLfn_run s checksum hseq (by omega) hdst), bind_ok hrest]
      have hprepend := Fat32.withBytes_prepend s dst ((name ++ [0]).take (13 * n))
        (((name ++ [0]).drop (13 * n)).take 13)
      rw [hfull] at hprepend
      rw [hprepend, Nat.mul_succ, List.take_add]
      rfl
    · rw [List.sum_cons, hsum, Nat.mul_succ, List.take_add, List.length_append, Nat.add_comm]

/-- Reading the chain of a name back gives the name, and its `NUL` where there is room. -/
theorem longName_roundtrip (name : CStr) (sfn : List UInt8) (entry : FatFileEntry) (s : Fat32)
    (dst : Nat) (hname : (0 : UInt8) ∉ name) (hpos : 0 < name.length) (hlen : name.length ≤ 255)
    (hdst : dst + name.length + 1 < 2 ^ 64) :
    (lfnChain name sfn entry).length = (name.length + 12) / 13 ∧
    (lfnChain name sfn entry).map FatFileEntry.sequenceNumber =
      (List.range ((name.length + 12) / 13)).map (fun i =>
        if i = 0 then (name.length + 12) / 13 ||| 0x40 else (name.length + 12) / 13 - i) ∧
    ∃ counts, copyLfnAll dst false (lfnChain name sfn entry) s =
        .ok counts (s.withBytes dst (lfnBytes name)) ∧
      counts.sum = (lfnBytes name).length := by
  have hseq := lfnEntries_seq name (tfLfnChecksum sfn)
    (UInt8.ofNat ((name.length + 12) / 13) ||| 0x40)
    (show (name.length + 12) / 13 < 64 by omega)
  obtain ⟨hfirst, hmask⟩ := seq_first ((name.length + 12) / 13) (by omega)
  rw [hfirst] at hseq
  obtain ⟨counts, hrun, hsum⟩ := copyLfnAll_run (tfLfnChecksum sfn) ((name.length + 12) / 13) s
    (by omega) hmask (show 13 * ((name.length + 12) / 13 - 1) ≤ name.length by omega)
    hdst
  rw [lfnBytes_take] at hrun hsum
  rw [lfnChain_eq hname hpos hlen]
  exact ⟨lfnEntries_length .., hseq, counts, hrun, hsum⟩

/-- `"notes-of-may.md"`, of 15 characters. -/
def notesName : CStr :=
  [0x6e, 0x6f, 0x74, 0x65, 0x73, 0x2d, 0x6f, 0x66, 0x2d, 0x6d, 0x61, 0x79, 0x2e, 0x6d, 0x64]

theorem longName_roundtrip_notes :
    (lfnChain notesName [] []).length = 2 ∧
    (lfnChain notesName [] []).map FatFileEntry.sequenceNumber = [0x42, 1] ∧
    ∃ counts, copyLfnAll (0x80000000 : Nat) false (lfnChain notesName [] []) blankVolume =
        .ok counts (blankVolume.withBytes 0x80000000 (notesName ++ [0])) ∧
      counts.sum = 16 :=
  longName_roundtrip notesName [] [] blankVolume 0x80000000 (by decide) (by decide) (by decide)
    (by decide)

end Decode

end PageFaultOS
