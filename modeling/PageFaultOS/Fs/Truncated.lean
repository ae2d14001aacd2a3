import Mathlib.Tactic
import PageFaultOS.Fs.Frame
import PageFaultOS.Fs.Seek

/-! `tf_parent` opens what it takes for a directory in a mode that truncates it where it is a
file. A file that has been truncated so is of no use for `tf_fflush`: the search for the entry
does not end, or the entry would be written in front of the file. -/

namespace PageFaultOS
open Exec Exec.Comp ByteMem

/-- A file of one byte, at its beginning. -/
structure Truncated (f : TFFile) : Prop where
  size : f.size = 1
  pos : f.pos = 0
  byte : f.currentByte = 0

variable {s t : Fat32} {fp : Nat}

theorem tfFetch_handles (sector : Nat) (s : Fat32) :
    ∃ t, tfFetch sector s = .ok () t ∧ t.handles = s.handles := by
  have hstore : ∃ t, storeDirty s = .ok () t ∧ t.handles = s.handles := by
    unfold storeDirty
    rw [read_bind]
    split
    · exact ⟨_, rfl, rfl⟩
    · exact ⟨s, rfl, rfl⟩
  unfold tfFetch
  rw [read_bind]
  split
  · exact ⟨s, rfl, rfl⟩
  · obtain ⟨t, hrun, hhandles⟩ := hstore
    rw [bind_ok hrun]
    exact ⟨_, rfl, hhandles⟩

/-- Reading gives the one byte. -/
theorem freadEntry_one (h : Truncated (s.handles fp)) (entry : FatFileEntry)
    (hfetch : tfFetch (fileSector s.info.shape (s.handles fp)) s = .ok () t)
    (hhandles : t.handles = s.handles) :
    freadEntry entry fp s = .ok (load t.info.buffer 0 1 ++ (entry.take 32).drop 1) t := by
  have hend : tfFseek fp 0 ((s.handles fp).pos + 1 : Nat) t = .ok tfErrInvalidSeek t := by
    apply tfFseek_behind
    · rw [hhandles, h.size, h.pos]
    · rw [h.pos]
      decide
  have hchunk : chunk (s.handles fp) 32 = 1 := by
    rw [chunk, h.size, h.pos, h.byte]
    decide
  have hoff : ((s.handles fp).currentByte % 512).toNat = 0 := by
    rw [h.byte]
    rfl
  have hread : tfFread 32 fp s = .ok ([] ++ load t.info.buffer 0 1) t := by
    refine loop_done (i := (32, [])) ?_ (2 ^ 33 - 1)
    unfold freadRound
    simp only
    rw [if_neg (by decide), bind_ok (getFile_run s fp), read_bind, bind_ok hfetch,
      if_neg (by rw [h.byte]; decide), read_bind, hchunk, hoff, bind_ok hend, if_pos (by decide)]
    rfl
  exact bind_ok hread _

/-- It does so over and over. -/
theorem freadEntry_truncated (h : Truncated (s.handles fp)) (entry : FatFileEntry) :
    ∃ e t, freadEntry entry fp s = .ok e t ∧ t.handles = s.handles := by
  obtain ⟨t, hfetch, hhandles⟩ := tfFetch_handles (fileSector s.info.shape (s.handles fp)) s
  exact ⟨_, t, freadEntry_one h entry hfetch hhandles, hhandles⟩

/-- In front of the file nothing is read, and nothing written. -/
theorem freadEntry_before (h : (s.handles fp).currentByte < 0) (entry e : FatFileEntry) :
    freadEntry entry fp s ≠ .ok e t := by
  obtain ⟨u, hfetch, hhandles⟩ := tfFetch_handles (fileSector s.info.shape (s.handles fp)) s
  have hread : tfFread 32 fp s = .fault (.undefined "tf_info.buffer") u := by
    refine loop_fault (i := (32, [])) ?_ (2 ^ 33 - 1)
    unfold freadRound
    simp only
    rw [if_neg (by decide), bind_ok (getFile_run s fp), read_bind, bind_ok hfetch, if_pos h]
    rfl
  unfold freadEntry
  rw [bind_fault hread]
  exact fun h => by cases h

theorem tfFwrite_before (h : (s.handles fp).currentByte < 0) (src : Nat) {r : Int} :
    tfFwrite src 32 fp s ≠ .ok r t := by
  unfold tfFwrite
  rw [bind_ok (modifyFile_run s fp _)]
  generalize hs : s.setFile fp { s.handles fp with flags := (s.handles fp).flags ||| tfFlagDirty } = u
  have hbyte : (u.handles fp).currentByte < 0 := by
    rw [← hs, s.setFile_self]
    exact h
  obtain ⟨v, hfetch, hhandles⟩ := tfFetch_handles (fileSector u.info.shape (u.handles fp)) u
  have hwrite : loop (fwriteRound fp) fileRounds (src, 32, 0) u =
      .fault (.undefined "tf_info.buffer") v := by
    refine loop_fault (i := (src, 32, 0)) ?_ (2 ^ 33 - 1)
    unfold fwriteRound
    simp only
    rw [if_neg (by decide), bind_ok (getFile_run u fp), read_bind, bind_ok hfetch, if_pos hbyte]
    rfl
  rw [hwrite]
  exact fun h => by cases h

theorem seekBy_behind (h : Truncated (s.handles fp)) {base : Int} (hbase : 0 < base)
    (hlong : base < 2 ^ 63) :
    seekBy fp base s = .ok tfErrInvalidSeek s := by
  unfold seekBy
  rw [bind_ok (getFile_run s fp)]
  apply tfFseek_end
  rw [h.size, h.pos, toLong_small (by omega) (by omega)]
  omega

/-- The first cluster is always there. -/
theorem seekCluster_zero (s : Fat32) (fp : Nat) :
    ∃ t, seekCluster fp 0 s = .ok 0 t ∧ (t.handles fp).size = (s.handles fp).size := by
  unfold seekCluster
  rw [bind_ok (getFile_run s fp)]
  split
  · exact ⟨s, rfl, rfl⟩
  · rw [if_neg (Nat.not_lt_zero _)]
    refine ⟨_, (bind_ok (modifyFile_run s fp _) _).trans (loop_done rfl (2 ^ 33 - 1)), ?_⟩
    rw [s.setFile_self]

/-- Positions less than a sector in front of the file count as the first cluster. -/
theorem tdiv_clusterBytes (shape : TFShape) (pos : Int) (h : -512 < pos ∧ pos ≤ 0) :
    pos.tdiv (clusterBytes shape) = 0 ∧ pos.tmod (clusterBytes shape) = pos := by
  obtain ⟨p, rfl⟩ : ∃ p : Nat, pos = -(p : Int) := ⟨pos.natAbs, by omega⟩
  have hp : p < 512 := by omega
  have hdiv : p / clusterBytes shape = 0 := by
    rw [clusterBytes]
    cases shape.sectorsPerCluster with
    | zero => simp
    | succ k => exact Nat.div_eq_of_lt (by omega)
  have htdiv : (-(p : Int)).tdiv (clusterBytes shape) = 0 := by
    rw [Int.neg_tdiv, ← Int.ofNat_tdiv, hdiv]
    rfl
  refine ⟨htdiv, ?_⟩
  have hsum := Int.tmod_add_mul_tdiv (-(p : Int)) (clusterBytes shape)
  rw [htdiv, Int.mul_zero, Int.add_zero] at hsum
  exact hsum

theorem tfUnsafeFseek_first (s : Fat32) (fp : Nat) (pos : Int) (hpos : -512 < pos ∧ pos ≤ 0)
    (hsize : pos < (s.handles fp).size) :
    ∃ t, tfUnsafeFseek fp pos 0 s = .ok 0 t ∧ (t.handles fp).size = (s.handles fp).size ∧
      (t.handles fp).currentByte = toShort pos ∧ (t.handles fp).pos = u32OfInt pos := by
  obtain ⟨hdiv, hmod⟩ := tdiv_clusterBytes s.info.shape pos hpos
  obtain ⟨t, hseek, hsize'⟩ := seekCluster_zero s fp
  have hgrow : growAtEnd fp pos s = .ok () s := by
    unfold growAtEnd
    rw [bind_ok (getFile_run s fp), if_neg (by omega)]
    rfl
  refine ⟨t.setFile fp { t.handles fp with currentByte := toShort pos, pos := u32OfInt pos }, ?_,
    ?_, ?_, ?_⟩
  · have hlong : toLong pos = pos := toLong_small (by omega) (by omega)
    unfold tfUnsafeFseek
    simp only [Int.add_zero, hlong]
    rw [bind_ok (getFile_run s fp), if_neg (by omega), bind_ok hgrow, read_bind, hdiv]
    rw [show u32OfInt 0 = 0 from rfl, bind_ok hseek, if_neg (by decide), hmod]
    rfl
  · rw [t.setFile_self, hsize']
  · rw [t.setFile_self]
  · rw [t.setFile_self]

/-- A seek to an earlier entry goes in front of the file. -/
theorem seekBy_before (h : Truncated (s.handles fp)) :
    ∃ t, seekBy fp (-32) s = .ok 0 t ∧ (t.handles fp).currentByte < 0 := by
  obtain ⟨t, hrun, _, hbyte, _⟩ := tfUnsafeFseek_first s fp (-32) (by decide)
    (by rw [h.size]; decide)
  refine ⟨t, ?_, ?_⟩
  · unfold seekBy tfFseek
    simp only
    rw [bind_ok (getFile_run s fp), h.pos, bind_ok (getFile_run s fp), h.size,
      if_neg (by decide +kernel)]
    exact hrun
  · rw [hbyte]
    decide

theorem seekBy_same (h : Truncated (s.handles fp)) :
    ∃ t, seekBy fp 0 s = .ok 0 t ∧ Truncated (t.handles fp) := by
  obtain ⟨t, hrun, hsize, hbyte, hpos⟩ := tfUnsafeFseek_first s fp 0
    (by decide) (by rw [h.size]; decide)
  refine ⟨t, ?_, hsize.trans h.size, hpos, hbyte⟩
  unfold seekBy tfFseek
  simp only
  rw [bind_ok (getFile_run s fp), h.pos, bind_ok (getFile_run s fp), h.size,
    if_neg (by decide +kernel)]
  exact hrun

/-- What a search leaves: the file is at its beginning, or in front of it. -/
def Useless (f : TFFile) : Prop := Truncated f ∨ f.currentByte < 0

theorem tfCompareFilename_truncated (h : Truncated (s.handles fp)) {name : CStr} {r : Int}
    (hrun : tfCompareFilename fp name s = .ok r t) :
    Useless (t.handles fp) ∧ (r ≠ 1 → Truncated (t.handles fp)) := by
  obtain ⟨e, u, hread, hhandles⟩ := freadEntry_truncated h s.stale
  have hu : Truncated (u.handles fp) := hhandles ▸ h
  have hstay : ∀ {r' : Int}, (pure r' : FsComp Int) u = .ok r t →
      Useless (t.handles fp) ∧ (r ≠ 1 → Truncated (t.handles fp)) := by
    intro r' hpure
    cases hpure
    exact ⟨Or.inl hu, fun _ => hu⟩
  unfold tfCompareFilename at hrun
  rw [read_bind, bind_ok hread] at hrun
  split at hrun
  · exact hstay hrun
  · split at hrun
    · split at hrun
      · obtain ⟨v, hseek, hbefore⟩ := seekBy_before hu
        rw [bind_ok hseek] at hrun
        cases hrun
        exact ⟨Or.inr hbefore, fun hne => absurd rfl hne⟩
      · exact hstay hrun
    · split at hrun
      · generalize clearFlag e.sequenceNumber 0x40 = n at hrun
        -- the seek over the long name does not leave the beginning of the file
        obtain ⟨v, r', hseek, hv⟩ : ∃ v r', seekBy fp (u32 (32 * u32 (n + (2 ^ 32 - 1))) : Nat) u =
            .ok r' v ∧ Truncated (v.handles fp) := by
          by_cases hzero : u32 (32 * u32 (n + (2 ^ 32 - 1))) = 0
          · obtain ⟨v, hseek, hv⟩ := seekBy_same hu
            rw [hzero]
            exact ⟨v, 0, hseek, hv⟩
          · have hsmall : u32 (32 * u32 (n + (2 ^ 32 - 1))) < 2 ^ 32 := Nat.mod_lt _ (by decide)
            exact ⟨u, _, seekBy_behind hu (by omega) (by omega), hu⟩
        rw [bind_ok hseek] at hrun
        split at hrun
        · cases hrun
          exact ⟨Or.inl hv, fun _ => hv⟩
        · obtain ⟨x, w, hround, hrest⟩ := bind_eq_ok.mp
            (show (compareLfnRound fp n (0, name, e) >>= _) v = .ok r t from hrun)
          simp only [compareLfnRound] at hround
          split at hround
          · rename_i hzero
            have hn : n = 0 := by omega
            obtain ⟨y, hsame, hy⟩ := seekBy_same hv
            rw [hn, show ((32 * 0 : Nat) : Int) = 0 from rfl, bind_ok hsame] at hround
            cases hround
            cases hrest
            exact ⟨Or.inl hy, fun _ => hy⟩
          · obtain ⟨y, hback, hbefore⟩ := seekBy_before hv
            rw [bind_ok hback] at hround
            obtain ⟨e', z, hread', _⟩ := bind_eq_ok.mp hround
            exact absurd hread' (freadEntry_before hbefore e e')
      · exact hstay hrun

theorem tfFindFile_truncated (h : Truncated (s.handles fp)) {name : CStr} {r : Int}
    (hrun : tfFindFile fp name s = .ok r t) : Useless (t.handles fp) := by
  obtain ⟨u, hseek, hu⟩ : ∃ u, tfFseek fp 0 0 s = .ok 0 u ∧ Truncated (u.handles fp) := by
    obtain ⟨u, hrun, hsize, hbyte, hpos⟩ := tfUnsafeFseek_first s fp 0
      (by decide) (by rw [h.size]; decide)
    refine ⟨u, ?_, hsize.trans h.size, hpos, hbyte⟩
    unfold tfFseek
    rw [bind_ok (getFile_run s fp), h.size, if_neg (by decide +kernel)]
    exact hrun
  unfold tfFindFile at hrun
  rw [bind_ok hseek] at hrun
  generalize fileRounds = n at hrun
  clear hseek
  induction n generalizing u with
  | zero => cases hrun
  | succ n ih =>
    obtain ⟨x, v, hround, hrest⟩ := bind_eq_ok.mp hrun
    obtain ⟨rc, w, hcompare, hround⟩ := bind_eq_ok.mp hround
    obtain ⟨huseless, hagain⟩ := tfCompareFilename_truncated hu hcompare
    split at hround
    · cases hround
      cases hrest
      exact huseless
    · split at hround
      · cases hround
        cases hrest
        exact huseless
      · rename_i hne
        cases hround
        exact ih v (hagain hne) hrest

/-- `tf_fflush` never gets past a parent that is no directory. -/
theorem flushEntry_truncated (h : Truncated (s.handles fp)) (filename : CStr) :
    flushEntry filename fp s ≠ .ok () t := by
  intro hrun
  unfold flushEntry at hrun
  cases hn : strrchr filename slash with
  | none =>
    rw [hn] at hrun
    cases hrun
  | some n =>
    rw [hn] at hrun
    obtain ⟨rc, u, hfind, hrun⟩ := bind_eq_ok.mp hrun
    rw [read_bind] at hrun
    obtain ⟨e, v, hread, hrun⟩ := bind_eq_ok.mp hrun
    rcases tfFindFile_truncated h hfind with hu | hu
    · obtain ⟨e', v', hread', hhandles⟩ := freadEntry_truncated hu u.stale
      rw [hread'] at hread
      cases hread
      obtain ⟨w, hback, hbefore⟩ := seekBy_before (hhandles ▸ hu)
      rw [bind_ok hback, read_bind] at hrun
      obtain ⟨x, y, hwrite, _⟩ := bind_eq_ok.mp hrun
      exact absurd hwrite (tfFwrite_before hbefore _)
    · exact absurd hread (freadEntry_before hu _ e)

/-! ## Opening for writing -/

/-- An empty file becomes one of one byte by a seek to its beginning. -/
theorem tfUnsafeFseek_empty (fp : Nat) (h : (s.handles fp).size = 0) :
    ∃ t, tfUnsafeFseek fp 0 0 s = .ok 0 t ∧ Truncated (t.handles fp) := by
  obtain ⟨u, hgrow, hu⟩ : ∃ u, growAtEnd fp 0 s = .ok () u ∧ (u.handles fp).size = 1 := by
    unfold growAtEnd
    rw [bind_ok (getFile_run s fp), h, if_pos (by decide)]
    refine ⟨_, modifyFile_run s fp _, ?_⟩
    rw [s.setFile_self, h]
    rfl
  obtain ⟨t, hseek, hsize⟩ := seekCluster_zero u fp
  obtain ⟨hdiv, hmod⟩ := tdiv_clusterBytes u.info.shape 0 (by decide)
  refine ⟨t.setFile fp { t.handles fp with currentByte := 0, pos := 0 }, ?_, ?_⟩
  · have hlong : toLong ((0 : Int) + 0) = 0 := toLong_zero
    unfold tfUnsafeFseek
    rw [hlong, bind_ok (getFile_run s fp), h, if_neg (by decide),
      bind_ok hgrow, read_bind, hdiv, show u32OfInt 0 = 0 from rfl, bind_ok hseek,
      if_neg (by decide), hmod]
    rfl
  · rw [t.setFile_self]
    exact ⟨hsize.trans hu, rfl, rfl⟩

theorem truncate_truncated (hrun : truncate fp s = .ok () t) :
    (t.handles fp).attributes &&& tfAttrDirectory ≠ 0 ∨ Truncated (t.handles fp) := by
  unfold truncate at hrun
  rw [bind_ok (getFile_run s fp)] at hrun
  split at hrun
  · right
    rw [bind_ok (modifyFile_run s fp _)] at hrun
    obtain ⟨u, hseek, hu⟩ := tfUnsafeFseek_empty fp
      (s := s.setFile fp { s.handles fp with size := 0 }) (by rw [s.setFile_self])
    rw [bind_ok hseek] at hrun
    have hkeep : Keeps Fat32.handles (tfGetFatEntry (s.handles fp).startCluster >>= fun cluster =>
        if cluster ≠ tfMarkEoc32 then do
          tfFreeClusterchain cluster
          tfSetFatEntry (s.handles fp).startCluster tfMarkEoc32
        else pure ()) :=
      keeps_bind (uncached_handles.tfGetFatEntry _) fun _ => keeps_ite
        (keeps_bind (uncached_handles.tfFreeClusterchain _) fun _ =>
          uncached_handles.tfSetFatEntry _ _) (keeps_pure _ _)
    rw [hkeep _ _ _ hrun]
    exact hu
  · rename_i hdir
    cases hrun
    exact Or.inl hdir

/-- What `tf_parent` opens is a directory, or a file that it has truncated. -/
theorem tfParent_truncated {filename : CStr} (hrun : tfParent filename s = .ok (.handle fp) t) :
    (t.handles fp).attributes &&& tfAttrDirectory ≠ 0 ∨ Truncated (t.handles fp) := by
  unfold tfParent at hrun
  cases hn : strrchr filename slash with
  | none =>
    rw [hn] at hrun
    cases hrun
  | some n =>
    rw [hn] at hrun
    obtain ⟨handle, u, _, hrun⟩ := bind_eq_ok.mp hrun
    cases handle with
    | none => cases hrun
    | some fp' =>
      simp only at hrun
      split at hrun
      · cases hrun
      · obtain ⟨_, v, _, hrun⟩ := bind_eq_ok.mp hrun
        obtain ⟨found, w, _, hrun⟩ := bind_eq_ok.mp hrun
        split at hrun
        · obtain ⟨_, x, _, hrun⟩ := bind_eq_ok.mp hrun
          cases hrun
        · obtain ⟨_, x, htruncate, hrun⟩ := bind_eq_ok.mp hrun
          cases hrun
          have h := truncate_truncated htruncate
          rw [x.setFile_self]
          exact h.imp id fun h => ⟨h.size, h.pos, h.byte⟩

end PageFaultOS
