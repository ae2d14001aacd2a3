import Mathlib.Tactic
import PageFaultOS.Fs.NameMatch

/-! Looking for a component of a path. `tf_find_file` is given the rest of the path, of which
`tf_compare_filename_segment` takes the first component, while `tf_compare_filename` counts the
entries of a long name by the length of all of it. -/

namespace PageFaultOS
open Exec Exec.Comp ByteMem

variable {c str : CStr} {s t : Fat32} {fp k : Nat}

/-- The component `c` at the front of a longer path. -/
def inPath (c str : CStr) : CStr := c ++ slash :: str

/-! ## One entry -/

theorem strncasecmpZero_append (s1 s3 : CStr) (s2 : List UInt8) {n : Nat} (hn : n ≤ s1.length) :
    strncasecmpZero (s1 ++ s3) s2 n = strncasecmpZero s1 s2 n := by
  induction n generalizing s1 s2 with
  | zero => cases s1 <;> cases s3 <;> rfl
  | succ n ih =>
    cases s1 with
    | nil => simp at hn
    | cons x s1 =>
      rw [List.cons_append, strncasecmpZero, strncasecmpZero, ih s1 s2.tail (by simpa using hn)]

/-- An entry is compared with the first component only. -/
theorem segment_inPath (hc : slash ∉ c) (e : FatFileEntry) (str : CStr) :
    tfCompareFilenameSegment e (inPath c str) = tfCompareFilenameSegment e c := by
  have hall : ∀ x ∈ c, decide (x ≠ slash) = true := fun x hx =>
    decide_eq_true fun heq => hc (heq ▸ hx)
  have hlong : (inPath c str).takeWhile (· ≠ slash) = c := by
    rw [inPath, List.takeWhile_append_of_pos hall, List.takeWhile_cons_of_neg (by simp),
      List.append_nil]
  have hshort : c.takeWhile (· ≠ slash) = c := List.takeWhile_eq_self_iff.mpr hall
  simp only [tfCompareFilenameSegment, hlong, hshort]
  by_cases hmore : 13 < c.length
  · rw [if_pos hmore, if_pos hmore, inPath, strncasecmpZero_append _ _ _ (Nat.le_of_lt hmore)]
  · rw [if_neg hmore, if_neg hmore, inPath, strncasecmpZero_append _ _ _ (Nat.le_refl _)]

/-- As long as the component goes on, its pieces are those of the path. -/
theorem segment_drop_inPath (hc : slash ∉ c) (e : FatFileEntry) (str : CStr) {i : Nat}
    (hi : 13 * i ≤ c.length) :
    tfCompareFilenameSegment e ((inPath c str).drop (13 * i)) =
      tfCompareFilenameSegment e (c.drop (13 * i)) := by
  have hdrop : (inPath c str).drop (13 * i) = inPath (c.drop (13 * i)) str :=
    List.drop_append_of_le_length hi
  rw [hdrop, segment_inPath fun h => hc (List.mem_of_mem_drop h)]

/-! ## Names with as many entries as the path -/

/-- The pieces of the component that have an entry. -/
theorem lfnChunks_bound {i : Nat} (hi : i < lfnChunks c) : 13 * i ≤ c.length := by
  unfold lfnChunks at hi
  omega

theorem compareLfnRound_inPath (hc : slash ∉ c) {n i : Nat} (hn : lfnChunks c = n)
    (e : FatFileEntry) (s : Fat32) (hin : i < n)
    (k : (Nat × CStr × FatFileEntry) ⊕ Int → FsComp Int)
    (hk : ∀ e t, k (.inl (i + 1, (inPath c str).drop (13 * (i + 1)), e)) t =
      k (.inl (i + 1, c.drop (13 * (i + 1)), e)) t) :
    (compareLfnRound fp n (i, (inPath c str).drop (13 * i), e) >>= k) s =
      (compareLfnRound fp n (i, c.drop (13 * i), e) >>= k) s := by
  simp only [compareLfnRound]
  rw [if_neg (not_not_intro hin), if_neg (not_not_intro hin)]
  rw [bind_assoc_apply, bind_assoc_apply]
  refine bind_congr_apply fun _ t _ => ?_
  rw [bind_assoc_apply, bind_assoc_apply]
  refine bind_congr_apply fun e' u _ => ?_
  rw [segment_drop_inPath hc e' str (lfnChunks_bound (hn ▸ hin))]
  split
  · rfl
  · rw [bind_assoc_apply, bind_assoc_apply]
    refine bind_congr_apply fun _ v _ => ?_
    rw [pure_bind_apply, pure_bind_apply, List.drop_drop, List.drop_drop]
    exact hk e' v

theorem compareLfn_loop_inPath (hc : slash ∉ c) {n : Nat} (hn : lfnChunks c = n)
    (fuel i : Nat) (e : FatFileEntry) (s : Fat32) (hi : i ≤ n) :
    loop (compareLfnRound fp n) fuel (i, (inPath c str).drop (13 * i), e) s =
      loop (compareLfnRound fp n) fuel (i, c.drop (13 * i), e) s := by
  induction fuel generalizing i e s with
  | zero => rfl
  | succ fuel ih =>
    rw [loop_succ, loop_succ]
    by_cases hin : i < n
    · exact compareLfnRound_inPath hc hn e s hin _ fun e t => ih (i + 1) e t hin
    · simp only [compareLfnRound]
      rw [if_pos hin, if_pos hin]

theorem tfCompareFilename_inPath (hc : slash ∉ c) (hn : lfnChunks c = lfnChunks (inPath c str))
    (fp : Nat) : tfCompareFilename fp (inPath c str) = tfCompareFilename fp c := by
  funext s
  unfold tfCompareFilename
  rw [read_bind, read_bind]
  refine bind_congr_apply fun e t _ => ?_
  rw [segment_inPath hc]
  by_cases hend : entryByte e 0 = 0
  · rw [if_pos hend, if_pos hend]
  rw [if_neg hend, if_neg hend]
  by_cases hlong : e.attributes ≠ tfAttrLongName
  · rw [if_pos hlong, if_pos hlong]
  rw [if_neg hlong, if_neg hlong]
  by_cases hseq : e.sequenceNumber &&& 0xc0 = 0x40
  · rw [if_pos hseq, if_pos hseq]
    refine bind_congr_apply fun _ u _ => ?_
    unfold lfnChunks at hn
    rw [hn]
    split
    · rfl
    · rename_i hentries
      exact compareLfn_loop_inPath hc (hn.trans (not_not.mp hentries)) fileRounds 0 e u
        (Nat.zero_le _)
  · rw [if_neg hseq, if_neg hseq]

/-- Where the path is not longer in terms of entries, the searches are the same. -/
theorem tfFindFile_inPath (hc : slash ∉ c) (hn : lfnChunks c = lfnChunks (inPath c str))
    (fp : Nat) : tfFindFile fp (inPath c str) = tfFindFile fp c := by
  have hround : findFileRound fp (inPath c str) = findFileRound fp c := by
    funext u s
    unfold findFileRound
    rw [tfCompareFilename_inPath hc hn]
  unfold tfFindFile
  rw [hround]

/-! ## Searching -/

/-- The long name at entry `k` has `n` entries. -/
structure LongNameAt (entry : Nat → FatFileEntry) (k n : Nat) : Prop where
  used : entryByte (entry k) 0 ≠ 0
  long : (entry k).attributes = tfAttrLongName
  last : (entry k).sequenceNumber &&& 0xc0 = 0x40
  count : clearFlag (entry k).sequenceNumber 0x40 = n

/-- The long name at entry `k` is taken for the name. -/
def TakenFor (entry : Nat → FatFileEntry) (k n : Nat) (name : CStr) : Prop :=
  lfnChunks name = n ∧ longNameMatches entry name k n = true

instance (entry : Nat → FatFileEntry) (k n : Nat) (name : CStr) :
    Decidable (TakenFor entry k n name) := inferInstanceAs (Decidable (_ ∧ _))

/-- The entry is a short one, which matches the name. -/
structure ShortMatch (e : FatFileEntry) (name : CStr) : Prop where
  used : entryByte e 0 ≠ 0
  short : e.attributes ≠ tfAttrLongName
  equal : tfCompareFilenameSegment e name = true

/-- The searches for both names come from entry `k` to entry `i`. -/
inductive Examined (entry : Nat → FatFileEntry) (a b : CStr) : Nat → Nat → Prop
  | here (k : Nat) : Examined entry a b k k
  | next {k j i : Nat} (ha : compareAt entry a k = .next j) (hb : compareAt entry b k = .next j)
      (hrest : Examined entry a b j i) : Examined entry a b k i

/-- A long name at entry `k` is taken for both names or for none, or the short entry behind it
matches as well. -/
def AlikeAt (entry : Nat → FatFileEntry) (c str : CStr) (k : Nat) : Prop :=
  ∀ n, LongNameAt entry k n →
    (TakenFor entry k n c ↔ TakenFor entry k n (inPath c str)) ∨ ShortMatch (entry (k + n)) c

/-- All long names that the searches come to from entry `k` on are of that kind. -/
def AlikeFrom (entry : Nat → FatFileEntry) (c str : CStr) (k : Nat) : Prop :=
  ∀ i, Examined entry c (inPath c str) k i → AlikeAt entry c str i

variable {entry : Nat → FatFileEntry} {shape : TFShape} {cs : List Nat} {a b name : CStr}
  {j n fuel : Nat}

theorem compareAt_long (h : LongNameAt entry k n) (name : CStr) :
    compareAt entry name k =
      if TakenFor entry k n name then .found (k + n) else .next (k + max n 1) := by
  unfold compareAt
  simp only
  rw [if_neg h.used, if_neg (not_not_intro h.long), if_pos h.last, h.count]
  rfl

theorem compareAt_short (h : ShortMatch (entry k) name) :
    compareAt entry name k = .found k := by
  unfold compareAt
  simp only
  rw [if_neg h.used, if_pos h.short, if_pos h.equal]

theorem compareAt_next (h : compareAt entry name k = .next j) : k < j := by
  unfold compareAt at h
  simp only at h
  split at h
  · cases h
  · split at h
    · split at h <;> cases h
      omega
    · split at h
      · split at h <;> cases h
        omega
      · cases h

theorem compareAt_found (hname : name ≠ []) (h : compareAt entry name k = .found j) :
    k ≤ j ∧ (j = k → ShortMatch (entry k) name) := by
  have hlen : 0 < name.length := List.length_pos_of_ne_nil hname
  unfold compareAt at h
  simp only at h
  split at h
  · cases h
  · rename_i hused
    split at h
    · rename_i hshort
      split at h <;> cases h
      rename_i hequal
      exact ⟨Nat.le_refl _, fun _ => ⟨hused, hshort, hequal⟩⟩
    · split at h
      · split at h <;> cases h
        rename_i htaken
        omega
      · cases h

/-- But for long names the two are compared in the same way. -/
theorem compareAt_inPath (hc : slash ∉ c) (str : CStr) (h : ∀ n, ¬ LongNameAt entry k n) :
    compareAt entry (inPath c str) k = compareAt entry c k := by
  unfold compareAt
  simp only
  rw [segment_inPath hc]
  by_cases hend : entryByte (entry k) 0 = 0
  · rw [if_pos hend, if_pos hend]
  rw [if_neg hend, if_neg hend]
  by_cases hlong : (entry k).attributes ≠ tfAttrLongName
  · rw [if_pos hlong, if_pos hlong]
  rw [if_neg hlong, if_neg hlong]
  by_cases hseq : (entry k).sequenceNumber &&& 0xc0 = 0x40
  · exact absurd ⟨hend, not_not.mp hlong, hseq, rfl⟩ (h _)
  · rw [if_neg hseq, if_neg hseq]

/-- What is found is found further on. -/
theorem search_found (hname : name ≠ []) (h : search shape cs entry name fuel k = .found j) :
    k ≤ j ∧ (j = k → ShortMatch (entry k) name) := by
  induction fuel generalizing k with
  | zero => cases h
  | succ fuel ih =>
    obtain ⟨_, ⟨_, hr⟩ | ⟨i, hcompare, _, hr⟩ | ⟨i, hcompare, _, hrest⟩⟩ :=
      search_cases h (by simp)
    · cases hr
    · cases hr
      exact compareAt_found hname hcompare
    · have hnext := compareAt_next hcompare
      have hle := (ih hrest).1
      exact ⟨by omega, fun heq => by omega⟩

theorem ShortMatch.inPath {e : FatFileEntry} (hc : slash ∉ c) (str : CStr) :
    ShortMatch e (inPath c str) ↔ ShortMatch e c := by
  constructor
  · intro h
    exact ⟨h.used, h.short, (segment_inPath hc e str) ▸ h.equal⟩
  · intro h
    exact ⟨h.used, h.short, (segment_inPath hc e str).trans h.equal⟩

/-- The search ends at a match. -/
theorem search_found_at (h : compareAt entry name k = .found j)
    (hlost : search shape cs entry name (fuel + 1) k ≠ .lost) :
    search shape cs entry name (fuel + 1) k = .found j := by
  obtain ⟨_, ⟨hstop, _⟩ | ⟨i, hfound, _, hr⟩ | ⟨i, hnext, _⟩⟩ := search_cases rfl hlost
  · rw [h] at hstop
    cases hstop
  · rw [h] at hfound
    cases hfound
    exact hr
  · rw [h] at hnext
    cases hnext

/-- The search goes on. -/
theorem search_next (h : compareAt entry name k = .next j)
    (hlost : search shape cs entry name (fuel + 1) k ≠ .lost) :
    search shape cs entry name (fuel + 1) k = search shape cs entry name fuel j := by
  obtain ⟨_, ⟨hstop, _⟩ | ⟨i, hfound, _⟩ | ⟨i, hnext, _, hr⟩⟩ := search_cases rfl hlost
  · rw [h] at hstop
    cases hstop
  · rw [h] at hfound
    cases hfound
  · rw [h] at hnext
    cases hnext
    exact hr.symm

/-- A search that starts at a match finds it, or leaves the directory. -/
theorem search_short (h : ShortMatch (entry k) name)
    (hlost : search shape cs entry name fuel k ≠ .lost) :
    search shape cs entry name fuel k = .found k := by
  cases fuel with
  | zero => exact absurd rfl hlost
  | succ fuel => exact search_found_at (compareAt_short h) hlost

/-- Where a long name is taken for one of the names only, the other one goes on behind it, and
has to be found there. -/
theorem search_split (hb : b ≠ []) (hfound : compareAt entry a k = .found j)
    (hnext : compareAt entry b k = .next j)
    (hlosta : search shape cs entry a (fuel + 1) k ≠ .lost)
    (hlostb : search shape cs entry b (fuel + 1) k ≠ .lost) :
    search shape cs entry a (fuel + 1) k = search shape cs entry b (fuel + 1) k ↔
      ShortMatch (entry j) b := by
  rw [search_found_at hfound hlosta, search_next hnext hlostb]
  rw [search_next hnext hlostb] at hlostb
  constructor
  · intro heq
    exact (search_found hb heq.symm).2 rfl
  · intro hshort
    exact (search_short hshort hlostb).symm

theorem alikeFrom_iff : AlikeFrom entry c str k ↔ AlikeAt entry c str k ∧
    ∀ j, compareAt entry c k = .next j → compareAt entry (inPath c str) k = .next j →
      AlikeFrom entry c str j := by
  constructor
  · intro h
    exact ⟨h k (.here k), fun j ha hb i hi => h i (.next ha hb hi)⟩
  · rintro ⟨hat, hrest⟩ i hi
    cases hi with
    | here => exact hat
    | next ha hb hi => exact hrest _ ha hb i hi

/-- Where both names go on it is the next entry that matters. -/
theorem alikeFrom_next (hat : AlikeAt entry c str k) (ha : compareAt entry c k = .next j)
    (hb : compareAt entry (inPath c str) k = .next j) :
    AlikeFrom entry c str k ↔ AlikeFrom entry c str j := by
  rw [alikeFrom_iff]
  constructor
  · rintro ⟨_, hrest⟩
    exact hrest j ha hb
  · intro hrest
    refine ⟨hat, fun i hi _ => ?_⟩
    rw [ha] at hi
    cases hi
    exact hrest

/-- Where one of them does not, there is no next entry. -/
theorem alikeFrom_stay (h : ∀ j, compareAt entry c k = .next j →
    compareAt entry (inPath c str) k ≠ .next j) :
    AlikeFrom entry c str k ↔ AlikeAt entry c str k := by
  rw [alikeFrom_iff, and_iff_left fun j ha hb => absurd hb (h j ha)]

theorem alikeAt_iff (hn : LongNameAt entry k n) : AlikeAt entry c str k ↔
    (TakenFor entry k n c ↔ TakenFor entry k n (inPath c str)) ∨ ShortMatch (entry (k + n)) c := by
  constructor
  · intro h
    exact h n hn
  · intro h m hm
    rw [hm.count.symm.trans hn.count]
    exact h

/-- A long name that is taken for a name has entries. -/
theorem TakenFor.max_eq (h : TakenFor entry k n name) (hname : name ≠ []) : max n 1 = n := by
  have hlen := List.length_pos_of_ne_nil hname
  have hcount := h.1
  unfold lfnChunks at hcount
  omega

/-- Both names are found here, or the directory ends. -/
theorem search_same (h : compareAt entry a k = compareAt entry b k)
    (hstay : ∀ j, compareAt entry a k ≠ .next j) :
    search shape cs entry a (fuel + 1) k = search shape cs entry b (fuel + 1) k := by
  unfold search
  rw [← h]
  cases hcompare : compareAt entry a k with
  | found j => rfl
  | stop => rfl
  | next j => exact absurd hcompare (hstay j)

/-- The searches go on together from here. -/
theorem search_alike_next (hat : AlikeAt entry c str k) (ha : compareAt entry c k = .next j)
    (hb : compareAt entry (inPath c str) k = .next j)
    (hlost : search shape cs entry c (fuel + 1) k ≠ .lost)
    (hlost' : search shape cs entry (inPath c str) (fuel + 1) k ≠ .lost)
    (ih : search shape cs entry c fuel j ≠ .lost →
      search shape cs entry (inPath c str) fuel j ≠ .lost →
      (search shape cs entry c fuel j = search shape cs entry (inPath c str) fuel j ↔
        AlikeFrom entry c str j)) :
    search shape cs entry c (fuel + 1) k = search shape cs entry (inPath c str) (fuel + 1) k ↔
      AlikeFrom entry c str k := by
  rw [search_next ha hlost, search_next hb hlost', alikeFrom_next hat ha hb]
  rw [search_next ha hlost] at hlost
  rw [search_next hb hlost'] at hlost'
  exact ih hlost hlost'

theorem search_alike (hc : slash ∉ c) (hne : c ≠ []) (fuel k : Nat)
    (hlost : search shape cs entry c fuel k ≠ .lost)
    (hlost' : search shape cs entry (inPath c str) fuel k ≠ .lost) :
    search shape cs entry c fuel k = search shape cs entry (inPath c str) fuel k ↔
      AlikeFrom entry c str k := by
  have hne' : inPath c str ≠ [] := by simp [inPath]
  induction fuel generalizing k with
  | zero => exact absurd rfl hlost
  | succ fuel ih =>
    by_cases hlong : ∃ n, LongNameAt entry k n
    · obtain ⟨n, hn⟩ := hlong
      have ha := compareAt_long hn c
      have hb := compareAt_long hn (inPath c str)
      by_cases hta : TakenFor entry k n c
      · rw [if_pos hta] at ha
        have hstay : ∀ j, compareAt entry c k ≠ .next j := fun j hj => by
          rw [ha] at hj
          cases hj
        rw [alikeFrom_stay fun j hj => absurd hj (hstay j), alikeAt_iff hn]
        by_cases htb : TakenFor entry k n (inPath c str)
        · rw [if_pos htb] at hb
          exact iff_of_true (search_same (ha.trans hb.symm) hstay) (Or.inl (iff_of_true hta htb))
        · rw [if_neg htb, hta.max_eq hne] at hb
          rw [search_split hne' ha hb hlost hlost', ShortMatch.inPath hc]
          exact (or_iff_right fun h : _ ↔ _ => htb (h.mp hta)).symm
      · by_cases htb : TakenFor entry k n (inPath c str)
        · rw [if_neg hta, htb.max_eq hne'] at ha
          rw [if_pos htb] at hb
          have hstay : ∀ j, compareAt entry (inPath c str) k ≠ .next j := fun j hj => by
            rw [hb] at hj
            cases hj
          rw [alikeFrom_stay fun j _ => hstay j, alikeAt_iff hn, eq_comm,
            search_split hne hb ha hlost' hlost]
          exact (or_iff_right fun h : _ ↔ _ => hta (h.mpr htb)).symm
        · rw [if_neg hta] at ha
          rw [if_neg htb] at hb
          have hat : AlikeAt entry c str k :=
            (alikeAt_iff hn).mpr (Or.inl (iff_of_false hta htb))
          exact search_alike_next hat ha hb hlost hlost' (ih _)
    · have hat : AlikeAt entry c str k := fun n hn => absurd ⟨n, hn⟩ hlong
      have heq := compareAt_inPath hc str fun n hn => hlong ⟨n, hn⟩
      by_cases hnext : ∃ j, compareAt entry c k = .next j
      · obtain ⟨j, hj⟩ := hnext
        exact search_alike_next hat hj (heq.trans hj) hlost hlost' (ih _)
      · rw [alikeFrom_stay fun j hj => absurd ⟨j, hj⟩ hnext]
        exact iff_of_true (search_same heq.symm fun j hj => hnext ⟨j, hj⟩) hat

/-! ## Walking -/

variable {f : TFFile}

/-- `tf_walk` has found its directory, which is now open at the handle. -/
def Arrived (f : TFFile) : Prop := f.flags ≠ 0xff

theorem skipSlash_component (hc : slash ∉ c) (hne : c ≠ []) (str : CStr) :
    skipSlash c = c ∧ skipSlash (inPath c str) = inPath c str := by
  cases c with
  | nil => exact absurd rfl hne
  | cons x c =>
    have hx : x ≠ slash := fun heq => hc (by rw [heq]; simp)
    exact ⟨if_neg hx, if_neg hx⟩

/-- What `tf_walk` does with what the search has found. -/
theorem tfWalk_run (hname : name ≠ []) (hskip : skipSlash name = name) (h : InDir s fp cs f k)
    {r : Searched} (hn : n + 1 ≤ fileRounds)
    (hr : search s.info.shape cs (dirEntry s.info.shape s.volume cs) name (n + 1) 0 = r)
    (hlost : r ≠ .lost) :
    ∃ x t, tfWalk name fp s = .ok x t ∧ (Arrived (t.handles fp) ↔ r ≠ .missing) ∧
      ∀ i, r = .found i → t.handles fp = enter (dirEntry s.info.shape s.volume cs i) f := by
  obtain ⟨t, j, hfind, hmoved, hj⟩ := tfFindFile_run hname h hn hr hlost
  unfold tfWalk
  simp only [hskip]
  rw [if_neg hname, bind_ok hfind]
  cases r with
  | lost => exact absurd rfl hlost
  | missing =>
    rw [if_pos (by decide), bind_ok (modifyFile_run t fp _)]
    refine ⟨none, _, rfl, iff_of_false (fun hin => hin ?_) (not_not_intro rfl),
      fun i hi => by cases hi⟩
    rw [Fat32.setFile_self]
  | found i =>
    obtain ⟨rfl, hroom⟩ := hj i rfl
    have hin := h.moved hmoved
    obtain ⟨u, hread, hmoved'⟩ := hin.freadEntry t.stale (by rw [hmoved.same.shape]; exact hroom)
    rw [hmoved.same.shape, hmoved.same.volume] at hread
    have hrc : (Searched.found j).rc = 0 := rfl
    rw [if_neg (not_not_intro hrc), read_bind, bind_ok hread, bind_ok (modifyFile_run u fp _)]
    refine ⟨_, _, rfl, iff_of_true ?_ (fun hi => by cases hi), fun i hi => ?_⟩
    · rw [Arrived, Fat32.setFile_self]
      show tfFlagOpen ≠ 0xff
      decide
    · cases hi
      rw [Fat32.setFile_self, hmoved'.file]
      rfl

/-- Whether the rest of the path is there or not, the component is looked for in the same way. -/
structure FirstOnly (fp : Nat) (c str : CStr) (s : Fat32) : Prop where
  find : ∃ r t u, tfFindFile fp c s = .ok r t ∧ tfFindFile fp (inPath c str) s = .ok r u ∧
    (r = 0 → t.handles fp = u.handles fp)
  walk : ∃ x y t u, tfWalk c fp s = .ok x t ∧ tfWalk (inPath c str) fp s = .ok y u ∧
    (Arrived (t.handles fp) ↔ Arrived (u.handles fp)) ∧
    (Arrived (t.handles fp) → t.handles fp = u.handles fp)

theorem firstOnly_iff (hc : slash ∉ c) (hne : c ≠ []) (h : InDir s fp cs f k)
    {r r' : Searched} (hn : n + 1 ≤ fileRounds)
    (hr : search s.info.shape cs (dirEntry s.info.shape s.volume cs) c (n + 1) 0 = r)
    (hr' : search s.info.shape cs (dirEntry s.info.shape s.volume cs) (inPath c str) (n + 1) 0 = r')
    (hlost : r ≠ .lost) (hlost' : r' ≠ .lost) :
    FirstOnly fp c str s ↔ r = r' := by
  have hne' : inPath c str ≠ [] := by simp [inPath]
  obtain ⟨hskip, hskip'⟩ := skipSlash_component hc hne str
  obtain ⟨t, i, hfind, hmoved, hi⟩ := tfFindFile_run hne h hn hr hlost
  obtain ⟨t', i', hfind', hmoved', hi'⟩ := tfFindFile_run hne' h hn hr' hlost'
  obtain ⟨x, u, hwalk, hentered, henter⟩ := tfWalk_run hne hskip h hn hr hlost
  obtain ⟨x', u', hwalk', hentered', henter'⟩ := tfWalk_run hne' hskip' h hn hr' hlost'
  constructor
  · rintro ⟨⟨rc, v, v', hv, hv', hsame⟩, _⟩
    rw [hfind] at hv
    rw [hfind'] at hv'
    cases hv
    injection hv' with hrc hstate
    subst hstate
    cases r with
    | lost => exact absurd rfl hlost
    | missing =>
      cases r' with
      | lost => exact absurd rfl hlost'
      | missing => rfl
      | found j => cases hrc
    | found j =>
      cases r' with
      | lost => exact absurd rfl hlost'
      | missing => cases hrc
      | found j' =>
        have hfile := hsame rfl
        rw [hmoved.file, hmoved'.file, (hi j rfl).1, (hi' j' rfl).1] at hfile
        have hpos : 32 * j = 32 * j' := congrArg TFFile.pos hfile
        have hj : j = j' := by omega
        rw [hj]
  · rintro rfl
    refine ⟨⟨_, t, t', hfind, hfind', fun hrc => ?_⟩,
      ⟨x, x', u, u', hwalk, hwalk', hentered.trans hentered'.symm, fun hin => ?_⟩⟩
    · cases r with
      | lost => exact absurd rfl hlost
      | missing => cases hrc
      | found j => rw [hmoved.file, hmoved'.file, (hi j rfl).1, (hi' j rfl).1]
    · cases r with
      | lost => exact absurd rfl hlost
      | missing => exact absurd rfl (hentered.mp hin)
      | found j => rw [henter j rfl, henter' j rfl]

/-- A component is looked for in the same way alone and in a path where both names have as many
entries of a long name; and within a directory, if and only if no long name that the search comes
to is taken for one of them only. -/
theorem tfFindFile_first_component (hc : slash ∉ c) (hne : c ≠ []) (str : CStr) :
    (lfnChunks c = lfnChunks (inPath c str) →
      ∀ fp, tfFindFile fp (inPath c str) = tfFindFile fp c) ∧
    ∀ (s : Fat32) (fp : Nat) (cs : List Nat) (f : TFFile) (k : Nat), InDir s fp cs f k →
      searchDir s.info.shape s.volume cs c ≠ .lost →
      searchDir s.info.shape s.volume cs (inPath c str) ≠ .lost →
      (FirstOnly fp c str s ↔ AlikeFrom (dirEntry s.info.shape s.volume cs) c str 0) := by
  refine ⟨fun hn fp => tfFindFile_inPath hc hn fp, fun s fp cs f k h hlost hlost' => ?_⟩
  unfold searchDir at hlost hlost'
  have hrounds : (2 ^ 27 - 1) + 1 ≤ fileRounds := by decide
  exact (firstOnly_iff hc hne h hrounds rfl rfl hlost hlost').trans
    (search_alike hc hne _ 0 hlost hlost')

/-! ## Directories with an end -/

/-- The directory ends at entry `m`: no long name goes on behind it. -/
structure EndsAt (shape : TFShape) (cs : List Nat) (entry : Nat → FatFileEntry) (m : Nat) :
    Prop where
  room : HasRoom shape cs (m + 1)
  mark : entryByte (entry m) 0 = 0
  names : ∀ k < m, ∀ n, LongNameAt entry k n → k + n ≤ m

theorem EndsAt.compareAt_le {m i : Nat} (h : EndsAt shape cs entry m) (hk : k ≤ m)
    (hi : compareAt entry name k = .found i ∨ compareAt entry name k = .next i) :
    k < m ∧ i ≤ m := by
  have hlt : k < m := by
    rcases Nat.lt_or_eq_of_le hk with hlt | rfl
    · exact hlt
    · have hstop : compareAt entry name k = .stop := by
        unfold compareAt
        simp only
        rw [if_pos h.mark]
      rw [hstop] at hi
      simp at hi
  refine ⟨hlt, ?_⟩
  by_cases hlong : ∃ n, LongNameAt entry k n
  · obtain ⟨n, hn⟩ := hlong
    have hle := h.names k hlt n hn
    rw [compareAt_long hn] at hi
    split at hi
    · simp at hi
      omega
    · simp at hi
      omega
  · unfold compareAt at hi
    simp only at hi
    split at hi
    · simp at hi
    · rename_i hused
      split at hi
      · split at hi
        · simp at hi
          omega
        · simp at hi
          omega
      · rename_i hshort
        split at hi
        · rename_i hlast
          exact absurd ⟨_, hused, not_not.mp hshort, hlast, rfl⟩ hlong
        · simp at hi

/-- No search leaves a directory with an end. -/
theorem search_endsAt {m : Nat} (h : EndsAt shape cs entry m) (hk : k ≤ m) (hfuel : m - k < fuel) :
    search shape cs entry name fuel k ≠ .lost := by
  induction fuel generalizing k with
  | zero => omega
  | succ fuel ih =>
    have hroom : HasRoom shape cs (k + 1) := h.room.le (Nat.add_le_add_right hk 1)
    unfold search
    rw [if_neg (not_not_intro hroom)]
    cases hcompare : compareAt entry name k with
    | stop => simp
    | found i =>
      have hi := (h.compareAt_le hk (Or.inl hcompare)).2
      simp [h.room.le (Nat.add_le_add_right hi 1)]
    | next i =>
      obtain ⟨hlt, hi⟩ := h.compareAt_le hk (Or.inr hcompare)
      have hnext := compareAt_next hcompare
      simp only [if_pos (h.room.le (Nat.le_succ_of_le hi))]
      exact ih hi (by omega)

/-- Names with equally many entries are taken for each other. -/
theorem takenFor_inPath (hc : slash ∉ c) (hn : lfnChunks c = lfnChunks (inPath c str)) :
    TakenFor entry k n c ↔ TakenFor entry k n (inPath c str) := by
  unfold TakenFor
  rw [← hn]
  refine and_congr_right fun hcount => ?_
  have hall : ∀ i ∈ List.range' 0 n,
      tfCompareFilenameSegment (entry (k + n - 1 - i)) (c.drop (13 * i)) =
        tfCompareFilenameSegment (entry (k + n - 1 - i)) ((inPath c str).drop (13 * i)) := by
    intro i hi
    have hin : i < lfnChunks c := by
      simp only [List.mem_range'_1] at hi
      omega
    rw [segment_drop_inPath hc _ str (lfnChunks_bound hin)]
  unfold longNameMatches
  rw [List.all_eq_true, List.all_eq_true]
  constructor
  · intro h i hi
    exact (hall i hi).symm.trans (h i hi)
  · intro h i hi
    exact (hall i hi).trans (h i hi)

/-- A root directory with the long name `ab`, whose short entry is `A~1`. -/
def longNameDisk : Mem := fun a =>
  if a / 512 = 34 then
    if a % 512 < 32 then entryByte (lfnEntry [0x61, 0x62] 0x41 0 0) (a % 512)
    else if a % 512 < 64 then
      entryByte ([0x41, 0x7e, 0x31] ++ List.replicate 8 space ++ List.replicate 21 0) (a % 512 - 32)
    else 0
  else 0

def longNameDirectory : Fat32 :=
  { blankVolume with
    disk := longNameDisk
    handles := fun _ => ⟨2, 0, 2, 0, 0, tfFlagOpen, tfAttrDirectory, 0xffffffff, []⟩ }

theorem longNameDirectory_inDir :
    InDir longNameDirectory 0 [2] (longNameDirectory.handles 0) 0 := by
  refine ⟨⟨by decide, by decide⟩, ?_, ⟨?_, ?_⟩, rfl, rfl, by simp [moveTo, longNameDirectory]⟩
  · apply coherent_of_first_sector
    intro a ha
    exact if_neg (by omega)
  · intro i hi
    simp at hi
  · intro i hi
    simp at hi

/-- The directory ends behind the short entry. -/
theorem longNameDirectory_endsAt : EndsAt longNameDirectory.info.shape [2]
    (dirEntry longNameDirectory.info.shape longNameDirectory.volume [2]) 2 := by
  refine ⟨by decide, by decide, fun k hk n hn => ?_⟩
  have hcount : clearFlag (dirEntry longNameDirectory.info.shape longNameDirectory.volume [2]
      0).sequenceNumber 0x40 = 1 := by decide
  have hshort : (dirEntry longNameDirectory.info.shape longNameDirectory.volume [2] 1).attributes ≠
      tfAttrLongName := by decide
  match k, hk with
  | 0, _ =>
    rw [← hn.count, hcount]
    decide
  | 1, _ => exact absurd hn.long hshort

/-- The long name `ab` is found, but not in front of eleven more characters. -/
theorem tfFindFile_rest_counts :
    ∃ c str : CStr, slash ∉ c ∧ c ≠ [] ∧ ∃ s fp cs f k, InDir s fp cs f k ∧
      searchDir s.info.shape s.volume cs c ≠ .lost ∧
      searchDir s.info.shape s.volume cs (inPath c str) ≠ .lost ∧ ¬ FirstOnly fp c str s := by
  refine ⟨[0x61, 0x62], List.replicate 11 0x78, by decide, by decide, longNameDirectory, 0, [2], _,
    0, longNameDirectory_inDir, search_endsAt longNameDirectory_endsAt (by decide) (by decide),
    search_endsAt longNameDirectory_endsAt (by decide) (by decide), ?_⟩
  have hfound : search longNameDirectory.info.shape [2]
      (dirEntry longNameDirectory.info.shape longNameDirectory.volume [2]) [0x61, 0x62] (2 + 1) 0 =
      .found 1 := by decide +kernel
  have hmissing : search longNameDirectory.info.shape [2]
      (dirEntry longNameDirectory.info.shape longNameDirectory.volume [2])
      (inPath [0x61, 0x62] (List.replicate 11 0x78)) (2 + 1) 0 = .missing := by decide +kernel
  rw [firstOnly_iff (by decide) (by decide) longNameDirectory_inDir (by decide) hfound hmissing
    (by decide) (by decide)]
  decide

theorem tfFindFile_first_component_ab : FirstOnly 0 [0x61, 0x62] [0x78] longNameDirectory :=
  (tfFindFile_first_component (c := [0x61, 0x62]) (by decide) (by decide) [0x78]).2 _ 0 [2] _ 0
    longNameDirectory_inDir (search_endsAt longNameDirectory_endsAt (by decide) (by decide))
    (search_endsAt longNameDirectory_endsAt (by decide) (by decide)) |>.mpr
    fun _ _ _ _ => Or.inl (takenFor_inPath (by decide) (by decide))

end PageFaultOS
