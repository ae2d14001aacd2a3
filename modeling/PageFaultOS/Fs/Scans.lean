import Mathlib.Tactic
import PageFaultOS.Fs.FailedSeek
import PageFaultOS.Fs.Completeness
import PageFaultOS.Fs.Balance
import PageFaultOS.Fs.Init
import PageFaultOS.Fs.Truncated

/-! When the scans of a directory come to an end. A directory has the size `0xffffffff`, so that
the reads go on along the FAT, around a cycle or into clusters that are added, until an entry ends
the scan; at the last entry the read is short of a byte and the position stays. -/

namespace PageFaultOS
open Exec Exec.Comp ByteMem

/-- The last entry that the size of a directory admits. -/
def lastEntry : Nat := 2 ^ 27 - 1

/-- The index of the cluster of entry `k`. -/
def entryCluster (shape : TFShape) (k : Nat) : Nat := 32 * k / clusterBytes shape

/-- The volume and the cluster after `j` links from cluster `c`, where clusters are added at the
end of the chain. -/
def grownAt (shape : TFShape) (v : Mem) (c : Nat) : Nat → Mem × Nat
  | 0 => (v, c)
  | j + 1 =>
    (linkVolume shape (grownAt shape v c j).1 (grownAt shape v c j).2,
      nextLink shape (grownAt shape v c j).1 (grownAt shape v c j).2)

/-- Entry `k` of a directory whose cluster there is `d`. -/
def entryIn (shape : TFShape) (v : Mem) (d k : Nat) : FatFileEntry :=
  load v (u32 (tfFirstSector shape d + 32 * k % clusterBytes shape / 512) * 512 + 32 * k % 512) 32

/-- Entry `k` of the directory that begins with cluster `c`, as the reads first come to it. -/
def grownEntry (shape : TFShape) (v : Mem) (c k : Nat) : FatFileEntry :=
  entryIn shape (grownAt shape v c (entryCluster shape k)).1
    (grownAt shape v c (entryCluster shape k)).2 k

/-- The handle of the directory that begins with cluster `c` is at entry `k`, and `j` links have
been followed so far. -/
structure ReadsAt (s : Fat32) (fp : Nat) (shape : TFShape) (v : Mem) (c k j : Nat) : Prop where
  valid : shape.Valid
  sectors : shape.totalSectors < 2 ^ 32
  coherent : s.Coherent
  sameShape : s.info.shape = shape
  reached : entryCluster shape k ≤ j
  volume : s.volume = (grownAt shape v c j).1
  directory : (s.handles fp).attributes &&& tfAttrDirectory ≠ 0
  start : (s.handles fp).startCluster = c
  size : (s.handles fp).size = 0xffffffff
  pos : (s.handles fp).pos = 32 * k
  byte : (s.handles fp).currentByte = (32 * k % clusterBytes shape : Nat)
  index : (s.handles fp).currentClusterIdx = entryCluster shape k
  cluster : (s.handles fp).currentCluster = (grownAt shape v c (entryCluster shape k)).2

/-- The clusters of the directory remain what they are when others are added: the same links lead
to them, and the entries in them stay. -/
structure Steady (shape : TFShape) (v : Mem) (c : Nat) : Prop where
  below : ∀ i ≤ entryCluster shape lastEntry, (grownAt shape v c i).2 < tfMarkEoc32
  link : ∀ i j, i < j → j ≤ entryCluster shape lastEntry →
    nextLink shape (grownAt shape v c j).1 (grownAt shape v c i).2 = (grownAt shape v c (i + 1)).2
  volume : ∀ i j, i < j → j ≤ entryCluster shape lastEntry →
    linkVolume shape (grownAt shape v c j).1 (grownAt shape v c i).2 = (grownAt shape v c j).1
  entries : ∀ k j, entryCluster shape k ≤ j → j ≤ entryCluster shape lastEntry →
    entryIn shape (grownAt shape v c j).1 (grownAt shape v c (entryCluster shape k)).2 k =
      grownEntry shape v c k

/-- The computation returns. -/
def Terminates {α : Type} (x : FsComp α) (s : Fat32) : Prop := ∃ a t, x s = .ok a t

/-! ## The scan of `tf_find_file` -/

/-- The entry behind entry `k`, or `k` again where it is the last one. -/
def behind (k : Nat) : Nat := min (k + 1) lastEntry

/-- The entry at which the comparison with a long name of `n` entries that begins at entry `k`
leaves the directory. -/
def behindName (k n : Nat) : Nat :=
  if n = 0 ∨ lastEntry < behind k + n - 1 then behind k else behind k + n - 1

/-- Where `tf_find_file` goes on from entry `k`, if it does. -/
def nextEntry (entry : Nat → FatFileEntry) (name : CStr) (k : Nat) : Option Nat :=
  let e := entry k
  if entryByte e 0 = 0 then
    none
  else if e.attributes ≠ tfAttrLongName then
    if tfCompareFilenameSegment e name then none else some (behind k)
  else if e.sequenceNumber &&& 0xc0 = 0x40 then
    let n := clearFlag e.sequenceNumber 0x40
    if lfnChunks name = n ∧ longNameMatches entry name (behindName k n - n) n then none
    else some (behindName k n)
  else
    none

/-- `tf_find_file` comes from entry `i` to entry `k`. -/
def Visits (entry : Nat → FatFileEntry) (name : CStr) : Nat → Nat → Prop :=
  Relation.ReflTransGen fun i k => nextEntry entry name i = some k

/-- `tf_find_file` comes to an entry from which it does not go on. -/
def ScanEnds (entry : Nat → FatFileEntry) (name : CStr) (i : Nat) : Prop :=
  ∃ k, Visits entry name i k ∧ nextEntry entry name k = none

variable {s t : Fat32} {fp k q n c i j : Nat} {shape : TFShape} {v : Mem} {name : CStr}
  {entry : Nat → FatFileEntry} {e old : FatFileEntry}

/-! ## Seeking -/

/-- A seek to the next cluster, along the FAT or to one that is added. -/
theorem seekCluster_next (hco : s.Coherent) (hsectors : s.info.shape.totalSectors < 2 ^ 32)
    (fp : Nat) :
    ∃ t, seekCluster fp ((s.handles fp).currentClusterIdx + 1) s = .ok 0 t ∧ t.Coherent ∧
      t.info.shape = s.info.shape ∧
      t.handles fp = { s.handles fp with
        currentClusterIdx := (s.handles fp).currentClusterIdx + 1
        currentCluster := nextLink s.info.shape s.volume (s.handles fp).currentCluster } ∧
      t.volume = linkVolume s.info.shape s.volume (s.handles fp).currentCluster := by
  obtain ⟨t, hnext, hco', hshape, hfile, hvolume⟩ := nextCluster_total
    (s := s.setFile fp { s.handles fp with
      currentClusterIdx := (s.handles fp).currentClusterIdx + 1 }) hco hsectors fp
  rw [s.setFile_self] at hfile hvolume
  refine ⟨t, ?_, hco', hshape, hfile, hvolume⟩
  have hround : seekRound fp (0 + 1) (s.setFile fp { s.handles fp with
      currentClusterIdx := (s.handles fp).currentClusterIdx + 1 }) = .ok (.inl 0) t := by
    rw [seekRound_run hnext rfl, if_neg fun h => absurd h.2 (by decide)]
  have hstop : seekRound fp 0 t = .ok (.inr 0) t := rfl
  have hloop : loop (seekRound fp) (fileRounds - 2 + 1 + 1) 1 (s.setFile fp { s.handles fp with
      currentClusterIdx := (s.handles fp).currentClusterIdx + 1 }) = .ok 0 t :=
    (loop_again hround _).trans (loop_done hstop _)
  unfold seekCluster
  rw [bind_ok (getFile_run s fp), if_neg (Nat.succ_ne_self _), if_pos (Nat.lt_succ_self _),
    bind_ok (modifyFile_run s fp _), Nat.add_sub_cancel_left]
  exact hloop

/-- A seek to entry `q`, of which the way along the chain is known. -/
theorem ReadsAt.seek_of (h : ReadsAt s fp shape v c k i) (hq : q ≤ lastEntry) {base offset : Int}
    (hpos : toLong (base + offset) = (32 * q : Nat))
    (hpos' : toLong (toInt base + offset) = (32 * q : Nat)) (hreached : entryCluster shape q ≤ j)
    (hseek : ∃ t, seekCluster fp (entryCluster shape q) s = .ok 0 t ∧ t.Coherent ∧
      t.info.shape = shape ∧ t.volume = (grownAt shape v c j).1 ∧
      t.handles fp = { s.handles fp with
        currentClusterIdx := entryCluster shape q
        currentCluster := (grownAt shape v c (entryCluster shape q)).2 }) :
    ∃ t, tfFseek fp base offset s = .ok 0 t ∧ ReadsAt t fp shape v c q j := by
  have hvalid := h.valid
  have hsize := h.size
  have hcb := hvalid.clusterBytes_pos
  have hle := hvalid.clusterBytes_le
  have hq' : q ≤ 2 ^ 27 - 1 := hq
  have hgrow : growAtEnd fp (32 * q : Nat) s = .ok () s := by
    unfold growAtEnd
    rw [bind_ok (getFile_run s fp), if_neg (by omega)]
    rfl
  have hidx : 32 * q / clusterBytes shape < 2 ^ 32 :=
    Nat.lt_of_le_of_lt (Nat.div_le_self _ _) (by omega)
  have hmod : 32 * q % clusterBytes shape < 2 ^ 15 :=
    Nat.lt_of_lt_of_le (Nat.mod_lt _ hcb) (by omega)
  obtain ⟨t, hrun, hco, hshape, hvolume, hfile⟩ := hseek
  rw [entryCluster] at hrun
  refine ⟨t.setFile fp { t.handles fp with
    currentByte := (32 * q % clusterBytes shape : Nat), pos := 32 * q }, ?_, ?_⟩
  · unfold tfFseek tfUnsafeFseek
    simp only [hpos, hpos']
    rw [bind_ok (getFile_run s fp), if_neg (by omega), bind_ok (getFile_run s fp),
      if_neg (by omega), bind_ok hgrow, read_bind, h.sameShape, ← Int.ofNat_tdiv,
      u32OfInt_natCast hidx, bind_ok hrun, if_neg (by decide), bind_ok (modifyFile_run t fp _),
      ← Int.ofNat_tmod, toShort_natCast hmod, u32OfInt_natCast (by omega)]
    rfl
  · refine ⟨hvalid, h.sectors, hco, hshape, hreached, hvolume, ?_, ?_, ?_, ?_, ?_, ?_, ?_⟩
    · rw [t.setFile_self, hfile]
      exact h.directory
    · rw [t.setFile_self, hfile]
      exact h.start
    · rw [t.setFile_self, hfile]
      exact hsize
    · rw [t.setFile_self]
    · rw [t.setFile_self]
    · rw [t.setFile_self, hfile]
    · rw [t.setFile_self, hfile]

theorem entryCluster_succ (hvalid : shape.Valid) (k : Nat) :
    entryCluster shape k ≤ entryCluster shape (k + 1) ∧
      entryCluster shape (k + 1) ≤ entryCluster shape k + 1 := by
  have hcb := hvalid.clusterBytes_pos
  have hge : 512 ≤ clusterBytes shape := by
    have := hvalid.pos
    rw [clusterBytes]
    omega
  have h1 := Nat.div_le_div_right (c := clusterBytes shape) (show 32 * k ≤ 32 * (k + 1) by omega)
  have h2 := Nat.div_le_div_right (c := clusterBytes shape)
    (show 32 * (k + 1) ≤ 32 * k + clusterBytes shape by omega)
  rw [Nat.add_div_right _ hcb] at h2
  exact ⟨h1, h2⟩

/-- The seek behind entry `k`, where nothing further on has been read. -/
theorem ReadsAt.seek_next (h : ReadsAt s fp shape v c k (entryCluster shape k))
    (hk : k < lastEntry) :
    ∃ t, tfFseek fp 0 (32 * (k + 1) : Nat) s = .ok 0 t ∧
      ReadsAt t fp shape v c (k + 1) (entryCluster shape (k + 1)) := by
  have hshape := h.sameShape
  have hk' : k < 2 ^ 27 - 1 := hk
  have hlong : toLong (0 + (32 * (k + 1) : Nat)) = (32 * (k + 1) : Nat) := by
    rw [Int.zero_add, toLong_natCast (by omega)]
  refine h.seek_of hk hlong hlong (Nat.le_refl _) ?_
  -- the cluster of the new position is this one or the next one
  by_cases hsame : entryCluster shape (k + 1) = entryCluster shape k
  · refine ⟨s, ?_, h.coherent, hshape, by rw [hsame, h.volume], ?_⟩
    · unfold seekCluster
      rw [bind_ok (getFile_run s fp), hsame, if_pos h.index.symm]
      rfl
    · rw [hsame, ← h.cluster, ← h.index]
  · have hnext : entryCluster shape (k + 1) = entryCluster shape k + 1 := by
      have := entryCluster_succ h.valid k
      omega
    obtain ⟨t, hrun, hco, hshape', hfile, hvolume⟩ := seekCluster_next h.coherent
      (by rw [hshape]; exact h.sectors) fp
    rw [h.index, h.cluster, hshape, h.volume] at hfile
    rw [h.cluster, hshape, h.volume] at hvolume
    rw [h.index] at hrun
    rw [hnext]
    exact ⟨t, hrun, hco, hshape'.trans hshape, hvolume, hfile⟩

/-- The seek loop goes along the chain, and adds to it where it ends. -/
theorem Steady.seek_loop (hsteady : Steady shape v c) (fp fuel : Nat) (hfuel : n < fuel)
    (hco : s.Coherent) (hshape : s.info.shape = shape) (hsectors : shape.totalSectors < 2 ^ 32)
    (hin : i + n ≤ entryCluster shape lastEntry) (hij : i ≤ j)
    (hj : j ≤ entryCluster shape lastEntry) (hvolume : s.volume = (grownAt shape v c j).1)
    (hcluster : (s.handles fp).currentCluster = (grownAt shape v c i).2) :
    ∃ t, loop (seekRound fp) fuel n s = .ok 0 t ∧ t.Coherent ∧ t.info.shape = shape ∧
      t.volume = (grownAt shape v c (max j (i + n))).1 ∧
      t.handles fp = { s.handles fp with currentCluster := (grownAt shape v c (i + n)).2 } := by
  induction n generalizing s i j fuel with
  | zero =>
    obtain ⟨fuel, rfl⟩ := Nat.exists_eq_succ_of_ne_zero (Nat.ne_of_gt hfuel)
    refine ⟨s, loop_done rfl fuel, hco, hshape, ?_, ?_⟩
    · rw [Nat.add_zero, Nat.max_eq_left hij, hvolume]
    · rw [Nat.add_zero, ← hcluster]
  | succ n ih =>
    obtain ⟨fuel, rfl⟩ := Nat.exists_eq_succ_of_ne_zero (Nat.ne_zero_of_lt hfuel)
    obtain ⟨t, hnext, hco', hshape', hfile, hvolume'⟩ := nextCluster_total hco
      (by rw [hshape]; exact hsectors) fp
    rw [hshape, hvolume, hcluster] at hfile hvolume'
    rw [hshape] at hshape'
    -- the link is one that was followed before, or a new one
    have hlink : nextLink shape (grownAt shape v c j).1 (grownAt shape v c i).2 =
        (grownAt shape v c (i + 1)).2 ∧ linkVolume shape (grownAt shape v c j).1
          (grownAt shape v c i).2 = (grownAt shape v c (max j (i + 1))).1 := by
      rcases Nat.lt_or_eq_of_le hij with hlt | rfl
      · rw [Nat.max_eq_left hlt]
        exact ⟨hsteady.link i j hlt hj, hsteady.volume i j hlt hj⟩
      · rw [Nat.max_eq_right (Nat.le_succ i)]
        exact ⟨rfl, rfl⟩
    rw [hlink.1] at hfile
    rw [hlink.2] at hvolume'
    have hbelow := hsteady.below (i + 1) (by omega)
    have hround : seekRound fp (n + 1) s = .ok (.inl n) t := by
      rw [seekRound_run hnext rfl, hfile, if_neg]
      exact fun h => absurd hbelow (Nat.not_lt.mpr h.1)
    obtain ⟨u, hloop, hco'', hshape'', hvolume'', hfile'⟩ := ih fuel (s := t) (i := i + 1)
      (j := max j (i + 1)) (by omega) hco' hshape' (by omega) (Nat.le_max_right _ _)
      (Nat.max_le.mpr ⟨hj, by omega⟩) hvolume' (by rw [hfile])
    refine ⟨u, (loop_again hround fuel).trans hloop, hco'', hshape'', ?_, ?_⟩
    · rw [hvolume'', Nat.max_assoc, Nat.max_eq_right (show i + 1 ≤ i + 1 + n by omega),
        Nat.add_right_comm i 1 n, Nat.add_assoc]
    · rw [hfile', hfile, Nat.add_right_comm i 1 n, Nat.add_assoc]

theorem entryCluster_mono (shape : TFShape) (h : k ≤ q) :
    entryCluster shape k ≤ entryCluster shape q :=
  Nat.div_le_div_right (Nat.mul_le_mul_left 32 h)

theorem entryCluster_lt (shape : TFShape) (hq : q ≤ lastEntry) : entryCluster shape q < 2 ^ 32 := by
  have hq' : q ≤ 2 ^ 27 - 1 := hq
  exact Nat.lt_of_le_of_lt (Nat.div_le_self _ _) (by omega)

/-- The chain of a steady directory leads to the cluster of each entry. -/
theorem Steady.seekCluster (hsteady : Steady shape v c) (h : ReadsAt s fp shape v c k j)
    (hj : j ≤ entryCluster shape lastEntry) (hq : q ≤ lastEntry) :
    ∃ t, seekCluster fp (entryCluster shape q) s = .ok 0 t ∧ t.Coherent ∧
      t.info.shape = shape ∧ t.volume = (grownAt shape v c (max j (entryCluster shape q))).1 ∧
      t.handles fp = { s.handles fp with
        currentClusterIdx := entryCluster shape q
        currentCluster := (grownAt shape v c (entryCluster shape q)).2 } := by
  have hle := entryCluster_mono shape hq
  have hlt := entryCluster_lt shape hq
  have hreached := h.reached
  unfold PageFaultOS.seekCluster
  rw [bind_ok (getFile_run s fp), h.index]
  by_cases heq : entryCluster shape q = entryCluster shape k
  · refine ⟨s, ?_, h.coherent, h.sameShape, ?_, ?_⟩
    · rw [if_pos heq]
      rfl
    · rw [heq, Nat.max_eq_left hreached, h.volume]
    · rw [heq, ← h.cluster, ← h.index]
  rw [if_neg heq]
  by_cases hforth : entryCluster shape k < entryCluster shape q
  · rw [if_pos hforth, bind_ok (modifyFile_run s fp _)]
    obtain ⟨t, hloop, hco, hshape, hvolume, hfile⟩ := hsteady.seek_loop fp fileRounds
      (n := entryCluster shape q - entryCluster shape k)
      (s := s.setFile fp { s.handles fp with currentClusterIdx := entryCluster shape q })
      (by simp only [fileRounds]; omega) h.coherent h.sameShape h.sectors (by omega) hreached hj
      h.volume (by rw [s.setFile_self]; exact h.cluster)
    rw [s.setFile_self] at hfile
    rw [Nat.add_sub_cancel' (Nat.le_of_lt hforth)] at hvolume hfile
    exact ⟨t, hloop, hco, hshape, hvolume, hfile⟩
  · rw [if_neg hforth, bind_ok (modifyFile_run s fp _)]
    obtain ⟨t, hloop, hco, hshape, hvolume, hfile⟩ := hsteady.seek_loop fp fileRounds
      (n := entryCluster shape q) (i := 0)
      (s := s.setFile fp { s.handles fp with
        currentCluster := (s.handles fp).startCluster
        currentClusterIdx := entryCluster shape q })
      (by simp only [fileRounds]; omega) h.coherent h.sameShape h.sectors (by omega)
      (Nat.zero_le j) hj h.volume (by rw [s.setFile_self]; exact h.start)
    rw [s.setFile_self] at hfile
    rw [Nat.zero_add] at hvolume hfile
    exact ⟨t, hloop, hco, hshape, hvolume, hfile⟩

/-- The handle is at entry `k` of the directory. -/
def StandsAt (s : Fat32) (fp : Nat) (shape : TFShape) (v : Mem) (c k : Nat) : Prop :=
  k ≤ lastEntry ∧ ∃ j ≤ entryCluster shape lastEntry, ReadsAt s fp shape v c k j

/-- A seek to any entry. -/
theorem Steady.fseek (hsteady : Steady shape v c) (h : StandsAt s fp shape v c k)
    (hq : q ≤ lastEntry) {b o : Int} (hpos : b + o = (32 * q : Nat))
    (hsmall : -2 ^ 31 ≤ b ∧ b < 2 ^ 31) :
    ∃ t, tfFseek fp b o s = .ok 0 t ∧ StandsAt t fp shape v c q := by
  obtain ⟨_, j, hj, hat⟩ := h
  have hq' : q ≤ 2 ^ 27 - 1 := hq
  have hlong : toLong (b + o) = (32 * q : Nat) := by
    rw [hpos, toLong_natCast (by omega)]
  obtain ⟨t, hrun, hat'⟩ := hat.seek_of hq hlong
    (by rw [toInt_small hsmall.1 hsmall.2, hlong]) (Nat.le_max_right j _)
    (hsteady.seekCluster hat hj hq)
  exact ⟨t, hrun, hq, _, Nat.max_le.mpr ⟨hj, entryCluster_mono shape hq⟩, hat'⟩

theorem Steady.seekBy (hsteady : Steady shape v c) (h : StandsAt s fp shape v c k)
    (hq : q ≤ lastEntry) {b : Int} (hbase : b + (32 * k : Nat) = (32 * q : Nat))
    (hsmall : -2 ^ 31 ≤ b ∧ b < 2 ^ 31) :
    ∃ t, seekBy fp b s = .ok 0 t ∧ StandsAt t fp shape v c q := by
  have hat := h
  obtain ⟨_, j, _, hat⟩ := hat
  obtain ⟨t, hrun, hopen⟩ := hsteady.fseek h hq (o := (s.handles fp).pos)
    (by rw [hat.pos]; exact hbase) hsmall
  exact ⟨t, hrun, hopen⟩

/-! ## Reading -/

/-- A round of `tf_fread` reads the entry, but for the last byte of the last one, and seeks behind
it. -/
theorem ReadsAt.round (h : ReadsAt s fp shape v c k j) (hk : k ≤ lastEntry) {x : Nat}
    (hx : x = if k < lastEntry then 32 else 31) :
    ∃ t, ReadsAt t fp shape v c k j ∧ freadRound fp (32, []) s =
      (tfFseek fp 0 (32 * k + x : Nat) >>= fun r =>
        if r ≠ 0 then pure (.inr ((entryIn shape (grownAt shape v c j).1
          (grownAt shape v c (entryCluster shape k)).2 k).take x))
        else pure (.inl (32 - x, (entryIn shape (grownAt shape v c j).1
          (grownAt shape v c (entryCluster shape k)).2 k).take x))) t := by
  have hk' : k ≤ 2 ^ 27 - 1 := hk
  have hmod := mod_clusterBytes shape (32 * k)
  obtain ⟨t, hfetch, hsame, hhandles, hbuffer⟩ :=
    tfFetch_run h.coherent (fileSector shape (s.handles fp))
  have hbyte : ¬ (s.handles fp).currentByte < 0 := by
    rw [h.byte]
    omega
  have hoff : ((s.handles fp).currentByte % 512).toNat = 32 * k % 512 := by
    rw [h.byte]
    omega
  have hchunk : chunk (s.handles fp) 32 = x := by
    have hb : (512 - (s.handles fp).currentByte.tmod 512).toNat = 512 - 32 * k % 512 := by
      have hcast : ((512 : Nat) : Int) = 512 := rfl
      rw [h.byte, ← hcast, ← Int.ofNat_tmod]
      omega
    have hleft : u32 ((s.handles fp).size + (2 ^ 32 - (s.handles fp).pos)) =
        0xffffffff - 32 * k := by
      rw [h.size, h.pos, u32]
      omega
    rw [chunk, hb, hleft, hx]
    unfold lastEntry
    split <;> omega
  have hsector : fileSector shape (s.handles fp) = u32 (tfFirstSector shape
      (grownAt shape v c (entryCluster shape k)).2 + 32 * k % clusterBytes shape / 512) := by
    have hdiv : u32OfInt ((s.handles fp).currentByte.tdiv 512) =
        32 * k % clusterBytes shape / 512 % 2 ^ 32 := by
      have hcast : ((512 : Nat) : Int) = 512 := rfl
      rw [h.byte, ← hcast, ← Int.ofNat_tdiv, u32OfInt]
      omega
    rw [fileSector, hdiv, h.cluster, u32, u32, Nat.add_mod_mod]
  have hx32 : x ≤ 32 := by
    rw [hx]
    split <;> omega
  have hload : load t.info.buffer (32 * k % 512) x = (entryIn shape (grownAt shape v c j).1
      (grownAt shape v c (entryCluster shape k)).2 k).take x := by
    rw [entryIn, ByteMem.load, ByteMem.load, ← List.map_take, List.take_range,
      Nat.min_eq_left hx32]
    apply List.map_congr_left
    intro i hi
    have hi' := List.mem_range.mp hi
    rw [hbuffer _ (by omega), hsector, h.volume, Nat.add_assoc]
  refine ⟨t, ?_, ?_⟩
  · have hfile : t.handles fp = s.handles fp := by rw [hhandles]
    exact ⟨h.valid, h.sectors, hsame.coherent, hsame.shape.trans h.sameShape, h.reached,
      hsame.volume.trans h.volume, hfile ▸ h.directory, hfile ▸ h.start, hfile ▸ h.size, hfile ▸ h.pos,
      hfile ▸ h.byte, hfile ▸ h.index, hfile ▸ h.cluster⟩
  · unfold freadRound
    simp only
    rw [if_neg (by decide), bind_ok (getFile_run s fp), read_bind, h.sameShape, bind_ok hfetch,
      if_neg hbyte, read_bind, hchunk, hoff, hload, h.pos, List.nil_append]

theorem entryIn_length (v : Mem) (d k : Nat) : (entryIn shape v d k).length = 32 := by
  simp [entryIn, ByteMem.load]

/-- An entry before the last one is read, where the seek behind it succeeds. -/
theorem ReadsAt.fread (h : ReadsAt s fp shape v c k j) (hk : k < lastEntry) {P : Fat32 → Prop}
    (hseek : ∀ t, ReadsAt t fp shape v c k j →
      ∃ u, tfFseek fp 0 (32 * (k + 1) : Nat) t = .ok 0 u ∧ P u) :
    ∃ t, tfFread 32 fp s = .ok (entryIn shape (grownAt shape v c j).1
      (grownAt shape v c (entryCluster shape k)).2 k) t ∧ P t := by
  obtain ⟨t, hat, hround⟩ := h.round (x := 32) (Nat.le_of_lt hk) (by rw [if_pos hk])
  obtain ⟨u, hrun, hu⟩ := hseek t hat
  rw [show 32 * k + 32 = 32 * (k + 1) by omega, bind_ok hrun, if_neg (by decide),
    List.take_of_length_le (by rw [entryIn_length])] at hround
  have hloop : loop (freadRound fp) (fileRounds - 2 + 1 + 1) (32, []) s =
      .ok (entryIn shape (grownAt shape v c j).1
        (grownAt shape v c (entryCluster shape k)).2 k) u :=
    (loop_again hround _).trans (loop_done rfl _)
  exact ⟨u, hloop, hu⟩

theorem ReadsAt.read (h : ReadsAt s fp shape v c k j) (hk : k < lastEntry) {P : Fat32 → Prop}
    (hseek : ∀ t, ReadsAt t fp shape v c k j →
      ∃ u, tfFseek fp 0 (32 * (k + 1) : Nat) t = .ok 0 u ∧ P u) (old : FatFileEntry) :
    ∃ t, freadEntry old fp s = .ok (entryIn shape (grownAt shape v c j).1
      (grownAt shape v c (entryCluster shape k)).2 k) t ∧ P t := by
  obtain ⟨u, hread, hu⟩ := h.fread hk hseek
  refine ⟨u, ?_, hu⟩
  unfold freadEntry
  rw [bind_ok hread, entryIn_length, List.drop_of_length_le (List.length_take_le 32 old),
    List.append_nil]
  rfl

/-- At the last entry its last byte is not read, and the handle stays. -/
theorem ReadsAt.fread_last (h : ReadsAt s fp shape v c lastEntry j) :
    ∃ t, tfFread 32 fp s = .ok ((entryIn shape (grownAt shape v c j).1
      (grownAt shape v c (entryCluster shape lastEntry)).2 lastEntry).take 31) t ∧
      ReadsAt t fp shape v c lastEntry j := by
  obtain ⟨t, hat, hround⟩ := h.round (x := 31) (Nat.le_refl _) (by rw [if_neg (Nat.lt_irrefl _)])
  have hend : tfFseek fp 0 (32 * lastEntry + 31 : Nat) t = .ok tfErrInvalidSeek t :=
    tfFseek_behind (by rw [hat.size]; decide) (by decide)
  rw [bind_ok hend, if_pos (by decide)] at hround
  have hloop : loop (freadRound fp) (fileRounds - 1 + 1) (32, []) s =
      .ok ((entryIn shape (grownAt shape v c j).1
        (grownAt shape v c (entryCluster shape lastEntry)).2 lastEntry).take 31) t :=
    loop_done hround _
  exact ⟨t, hloop, hat⟩

theorem entryIn_take_length (shape : TFShape) (v : Mem) (d k : Nat) :
    ((entryIn shape v d k).take 31).length = 31 := by
  rw [List.length_take, entryIn_length]
  rfl

theorem ReadsAt.read_last (h : ReadsAt s fp shape v c lastEntry j) (old : FatFileEntry) :
    ∃ e t, freadEntry old fp s = .ok e t ∧ ReadsAt t fp shape v c lastEntry j ∧
      e.take 31 = (entryIn shape (grownAt shape v c j).1
        (grownAt shape v c (entryCluster shape lastEntry)).2 lastEntry).take 31 := by
  obtain ⟨t, hread, hat⟩ := h.fread_last
  have hlen := entryIn_take_length shape (grownAt shape v c j).1
    (grownAt shape v c (entryCluster shape lastEntry)).2 lastEntry
  refine ⟨_, t, bind_ok hread _, hat, ?_⟩
  rw [hlen, List.take_append_of_le_length (by rw [hlen]), List.take_take, Nat.min_self]

/-! ## Comparing -/

theorem entryByte_of_take (h : e.take 31 = old.take 31) (hi : i < 31) :
    entryByte e i = entryByte old i := by
  have hget : ∀ l : FatFileEntry, entryByte l i = (l.take 31).getD i 0 := by
    intro l
    rw [entryByte, List.getD_eq_getElem?_getD, List.getD_eq_getElem?_getD, List.getElem?_take,
      if_pos hi]
  rw [hget, hget, h]

/-- The last byte of an entry does not matter for its name. -/
theorem segment_of_take (h : e.take 31 = old.take 31) (name : CStr) :
    tfCompareFilenameSegment e name = tfCompareFilenameSegment old name := by
  have hname : ∀ l : FatFileEntry, l.take 8 = (l.take 31).take 8 := by
    intro l
    rw [List.take_take]
    rfl
  have hextension : ∀ l : FatFileEntry, (l.drop 8).take 3 = ((l.take 31).drop 8).take 3 := by
    intro l
    rw [List.drop_take, List.take_take]
    rfl
  have hfile : reformattedFile e = reformattedFile old := by
    unfold reformattedFile FatFileEntry.attributes
    rw [hname e, hname old, hextension e, hextension old, h,
      entryByte_of_take h (show 11 < 31 by decide)]
    congr 1
    apply List.map_congr_left
    intro i hi
    exact entryByte_of_take h (by fin_cases hi <;> decide)
  unfold tfCompareFilenameSegment
  rw [hfile]

section
variable (hsteady : Steady shape v c)
include hsteady

theorem Steady.read (h : StandsAt s fp shape v c k) (old : FatFileEntry) :
    ∃ e t, freadEntry old fp s = .ok e t ∧ StandsAt t fp shape v c (behind k) ∧
      e.take 31 = (grownEntry shape v c k).take 31 := by
  obtain ⟨hk, j, hj, hat⟩ := h
  rcases Nat.lt_or_eq_of_le hk with hlt | rfl
  · obtain ⟨t, hread, hopen⟩ := hat.read hlt (P := fun t => StandsAt t fp shape v c (k + 1))
      (fun t hat' => hsteady.fseek ⟨hk, j, hj, hat'⟩ hlt (Int.zero_add _) (by decide)) old
    have hbehind : behind k = k + 1 := Nat.min_eq_left hlt
    rw [hsteady.entries k j hat.reached hj] at hread
    rw [hbehind]
    exact ⟨_, t, hread, hopen, rfl⟩
  · obtain ⟨e, t, hread, hat', htake⟩ := hat.read_last old
    have hbehind : behind lastEntry = lastEntry := Nat.min_eq_right (Nat.le_succ _)
    rw [hsteady.entries lastEntry j hat.reached hj] at htake
    rw [hbehind]
    exact ⟨e, t, hread, ⟨hk, j, hj, hat'⟩, htake⟩

/-- The loop over the entries of a long name, with `m` of them to go. -/
theorem Steady.compareLfn_loop (fuel m : Nat) (name : CStr) (old : FatFileEntry)
    (him : i + m = n) (hfuel : m < fuel) (h : StandsAt s fp shape v c (k + m)) (hn : n < 2 ^ 20)
    (hroom : k + n ≤ lastEntry) :
    ∃ t, loop (compareLfnRound fp n) fuel (i, name.drop (13 * i), old) s =
        .ok (if (List.range' i m).all (fun i => tfCompareFilenameSegment
            (grownEntry shape v c (k + n - 1 - i)) (name.drop (13 * i))) then 1 else 0) t ∧
      StandsAt t fp shape v c (k + n) := by
  induction m generalizing s i fuel old with
  | zero =>
    obtain ⟨fuel, rfl⟩ := Nat.exists_eq_succ_of_ne_zero (Nat.ne_of_gt hfuel)
    obtain ⟨t, hseek, hopen⟩ := hsteady.seekBy h hroom (b := (32 * n : Nat)) (by omega)
      (by omega)
    have hround : compareLfnRound fp n (i, name.drop (13 * i), old) s = .ok (.inr 1) t := by
      simp only [compareLfnRound]
      rw [if_pos (by omega), bind_ok hseek]
      rfl
    exact ⟨t, loop_done hround fuel, hopen⟩
  | succ m ih =>
    obtain ⟨fuel, rfl⟩ := Nat.exists_eq_succ_of_ne_zero (Nat.ne_zero_of_lt hfuel)
    obtain ⟨t, hback, h1⟩ := hsteady.seekBy h (q := k + m) (b := -32) (by omega) (by omega)
      (by decide)
    obtain ⟨e, u, hread, h2, htake⟩ := hsteady.read h1 old
    have hbehind : behind (k + m) = k + (m + 1) := Nat.min_eq_left (by omega)
    rw [hbehind] at h2
    have hidx : k + n - 1 - i = k + m := by omega
    have hsame := segment_of_take htake (name.drop (13 * i))
    rw [List.range'_succ, List.all_cons, hidx, ← hsame]
    cases hseg : tfCompareFilenameSegment e (name.drop (13 * i)) with
    | false =>
      obtain ⟨w, hforth, h3⟩ := hsteady.seekBy h2 hroom (b := (i * 32 : Nat)) (by omega)
        (by omega)
      have hround : compareLfnRound fp n (i, name.drop (13 * i), old) s = .ok (.inr 0) w := by
        simp only [compareLfnRound]
        rw [if_neg (by omega), bind_ok hback, bind_ok hread, if_pos hseg, bind_ok hforth]
        rfl
      exact ⟨w, loop_done hround fuel, h3⟩
    | true =>
      obtain ⟨w, hforth, h3⟩ := hsteady.seekBy h2 (q := k + m) (b := -32) (by omega)
        (by omega) (by decide)
      have hround : compareLfnRound fp n (i, name.drop (13 * i), old) s =
          .ok (.inl (i + 1, name.drop (13 * (i + 1)), e)) w := by
        have hseg' : ¬ tfCompareFilenameSegment e (name.drop (13 * i)) = false := by
          rw [hseg]
          decide
        simp only [compareLfnRound]
        rw [if_neg (by omega), bind_ok hback, bind_ok hread, if_neg hseg', bind_ok hforth,
          List.drop_drop, Nat.mul_succ]
        rfl
      obtain ⟨x, hloop, h4⟩ := ih fuel (s := w) (i := i + 1) e (by omega) (by omega) h3
      exact ⟨x, (loop_again hround fuel).trans hloop, h4⟩

/-- The seek over a long name of `n` entries. It fails where the name goes on behind the last
entry, and for no entries, where the distance wraps. -/
theorem Steady.seekName (h : StandsAt s fp shape v c (behind k)) (hn : n ≤ 191) :
    ∃ r t, PageFaultOS.seekBy fp (u32 (32 * u32 (n + (2 ^ 32 - 1)))) s = .ok r t ∧
      StandsAt t fp shape v c (behindName k n) := by
  have hlast : lastEntry = 2 ^ 27 - 1 := rfl
  have hbehind : behind k = min (k + 1) lastEntry := rfl
  unfold behindName
  split
  · rename_i hend
    have hopen := h
    obtain ⟨_, j, _, hat⟩ := hopen
    refine ⟨tfErrInvalidSeek, s, ?_, h⟩
    unfold PageFaultOS.seekBy
    rw [bind_ok (getFile_run s fp)]
    apply tfFseek_end
    rw [hat.size, hat.pos, toLong_small (by omega) (by simp only [u32]; omega)]
    rcases hend with rfl | hend
    · have hbase : (u32 (32 * u32 (0 + (2 ^ 32 - 1))) : Nat) = 0xffffffe0 := by decide
      rw [hbase]
      omega
    · have hbase : u32 (32 * u32 (n + (2 ^ 32 - 1))) = 32 * (n - 1) := by
        simp only [u32]
        omega
      rw [hbase]
      omega
  · rename_i hroom
    have hbase : u32 (32 * u32 (n + (2 ^ 32 - 1))) = 32 * (n - 1) := by
      simp only [u32]
      omega
    rw [hbase]
    obtain ⟨t, hrun, hopen⟩ := hsteady.seekBy h (q := behind k + n - 1)
      (b := (32 * (n - 1) : Nat)) (by omega) (by omega) (by omega)
    exact ⟨0, t, hrun, hopen⟩

/-- `tf_compare_filename` at entry `k`: the scan ends, or goes on at the next entry. -/
theorem Steady.compareFilename (h : StandsAt s fp shape v c k) (name : CStr) :
    ∃ r t, tfCompareFilename fp name s = .ok r t ∧
      match nextEntry (grownEntry shape v c) name k with
      | none => r = 1 ∨ r = -1
      | some p => r = 0 ∧ StandsAt t fp shape v c p := by
  obtain ⟨e, t, hread, hopen, htake⟩ := hsteady.read h s.stale
  have hfirst : entryByte e 0 = entryByte (grownEntry shape v c k) 0 :=
    entryByte_of_take htake (by decide)
  have hattributes : e.attributes = (grownEntry shape v c k).attributes := by
    rw [FatFileEntry.attributes, entryByte_of_take htake (by decide), FatFileEntry.attributes]
  have hnumber : e.sequenceNumber = (grownEntry shape v c k).sequenceNumber := by
    rw [FatFileEntry.sequenceNumber, hfirst, FatFileEntry.sequenceNumber]
  have hsegment := segment_of_take htake name
  have hlast : lastEntry = 2 ^ 27 - 1 := rfl
  have hbehind : behind k = min (k + 1) lastEntry := rfl
  unfold tfCompareFilename nextEntry
  simp only
  rw [read_bind, bind_ok hread, ← hfirst, ← hattributes, ← hnumber, ← hsegment]
  by_cases hend : entryByte e 0 = 0
  · rw [if_pos hend, if_pos hend]
    exact ⟨-1, t, rfl, Or.inr rfl⟩
  rw [if_neg hend, if_neg hend]
  by_cases hshort : e.attributes ≠ tfAttrLongName
  · rw [if_pos hshort, if_pos hshort]
    by_cases hseg : tfCompareFilenameSegment e name = true
    · rw [if_pos hseg, if_pos hseg]
      obtain ⟨u, hback, _⟩ := hsteady.seekBy hopen (q := behind k - 1) (b := -32) (by omega)
        (by omega) (by decide)
      rw [bind_ok hback]
      exact ⟨1, u, rfl, Or.inl rfl⟩
    · rw [if_neg hseg, if_neg hseg]
      exact ⟨0, t, rfl, rfl, hopen⟩
  rw [if_neg hshort, if_neg hshort]
  by_cases hseq : e.sequenceNumber &&& 0xc0 = 0x40
  · rw [if_pos hseq, if_pos hseq]
    have hn191 : clearFlag e.sequenceNumber 0x40 ≤ 191 := Nat.and_le_right
    generalize clearFlag e.sequenceNumber 0x40 = n at hn191 ⊢
    obtain ⟨r, u, hforth, hopen'⟩ := hsteady.seekName hopen hn191
    have hle : n ≤ behindName k n := by
      unfold behindName
      split
      · omega
      · omega
    have hp : behindName k n - n + n = behindName k n := Nat.sub_add_cancel hle
    rw [bind_ok hforth]
    by_cases hlfn : (name.length + 12) / 13 = n
    · rw [if_neg (not_not_intro hlfn)]
      obtain ⟨w, hloop, hopen''⟩ := hsteady.compareLfn_loop fileRounds n (k := behindName k n - n)
        (i := 0) name e (Nat.zero_add n) (by simp only [fileRounds]; omega)
        (by rw [hp]; exact hopen') (by omega) (by rw [hp]; exact hopen'.1)
      rw [Nat.mul_zero, List.drop_zero] at hloop
      rw [hp] at hopen''
      refine ⟨_, w, hloop, ?_⟩
      by_cases hmatch : longNameMatches (grownEntry shape v c) name (behindName k n - n) n = true
      · rw [if_pos ⟨hlfn, hmatch⟩]
        rw [longNameMatches] at hmatch
        rw [if_pos hmatch]
        exact Or.inl rfl
      · rw [if_neg fun hc => hmatch hc.2]
        rw [longNameMatches] at hmatch
        rw [if_neg hmatch]
        exact ⟨rfl, hopen''⟩
    · rw [if_pos hlfn, if_neg fun hc => hlfn hc.1]
      exact ⟨0, u, rfl, rfl, hopen'⟩
  · rw [if_neg hseq, if_neg hseq]
    exact ⟨-1, t, rfl, Or.inr rfl⟩

end

/-! ## The ends of the scans -/

/-- The scan goes forward, but for the last entry, where it may stay. -/
theorem nextEntry_lt (hk : k ≤ lastEntry) (h : nextEntry entry name k = some q) (hq : q ≠ k) :
    k < q := by
  have hbehind : behind k = min (k + 1) lastEntry := rfl
  have hto : q = behind k ∨ ∃ n, q = behindName k n := by
    unfold nextEntry at h
    simp only at h
    split at h
    · cases h
    split at h
    · split at h
      · cases h
      · exact Or.inl (Option.some.inj h).symm
    split at h
    · split at h
      · cases h
      · exact Or.inr ⟨_, (Option.some.inj h).symm⟩
    · cases h
  have hle : behind k ≤ q := by
    rcases hto with rfl | ⟨n, rfl⟩
    · exact Nat.le_refl _
    · unfold behindName
      split <;> omega
  omega

/-- A scan that ends goes on from each entry before its end. -/
theorem ScanEnds.step (h : ScanEnds entry name k) : nextEntry entry name k = none ∨
    ∃ q, nextEntry entry name k = some q ∧ q ≠ k ∧ ScanEnds entry name q := by
  obtain ⟨p, hvisits, hend⟩ := h
  rcases hvisits.cases_head with rfl | ⟨q, hstep, hrest⟩
  · exact Or.inl hend
  · refine Or.inr ⟨q, hstep, ?_, p, hrest, hend⟩
    rintro rfl
    -- from there it comes to no other entry
    have hstays : ∀ i, Visits entry name q i → i = q := by
      intro i hi
      induction hi with
      | refl => rfl
      | tail _ hto ih =>
        rw [ih, hstep] at hto
        exact (Option.some.inj hto).symm
    rw [hstays p hrest, hstep] at hend
    cases hend

theorem ScanEnds.of_next (hstep : nextEntry entry name k = some q) (h : ScanEnds entry name q) :
    ScanEnds entry name k := by
  obtain ⟨p, hvisits, hend⟩ := h
  exact ⟨p, hvisits.head hstep, hend⟩

/-- The loop of `tf_find_file`, with any number of rounds that is not too small. -/
theorem Steady.findFile_loop (hsteady : Steady shape v c) (h : StandsAt s fp shape v c k)
    (name : CStr) {r : Nat} (hr : lastEntry < r) :
    Terminates (loop (findFileRound fp name) r ()) s ↔
      ScanEnds (grownEntry shape v c) name k := by
  constructor
  · rintro ⟨a, t, hrun⟩
    by_contra hnot
    refine loop_never (I := fun _ s => ∃ k, StandsAt s fp shape v c k ∧
      ¬ ScanEnds (grownEntry shape v c) name k) ?_ r ⟨k, h, hnot⟩ a t hrun
    rintro _ u ⟨i, hopen, hi⟩
    obtain ⟨r, w, hcompare, hnext⟩ := hsteady.compareFilename hopen name
    cases hstep : nextEntry (grownEntry shape v c) name i with
    | none => exact absurd ⟨i, .refl, hstep⟩ hi
    | some q =>
      rw [hstep] at hnext
      obtain ⟨rfl, hopen'⟩ := hnext
      refine ⟨(), w, ?_, q, hopen', fun hq => hi (hq.of_next hstep)⟩
      unfold findFileRound
      rw [bind_ok hcompare]
      rfl
  · intro hends
    refine loop_returns (I := fun m _ s => ∃ k, StandsAt s fp shape v c k ∧
      ScanEnds (grownEntry shape v c) name k ∧ m = lastEntry - k) ?_
      (m := lastEntry - k) ⟨k, h, hends, rfl⟩ (by omega)
    rintro m _ u ⟨i, hopen, hi, rfl⟩
    obtain ⟨r, w, hcompare, hnext⟩ := hsteady.compareFilename hopen name
    unfold findFileRound
    rw [bind_ok hcompare]
    rcases hi.step with hstep | ⟨q, hstep, hne, hq⟩
    · rw [hstep] at hnext
      refine Or.inl ?_
      rcases hnext with rfl | rfl
      · exact ⟨0, w, rfl⟩
      · exact ⟨-1, w, rfl⟩
    · rw [hstep] at hnext
      obtain ⟨rfl, hopen'⟩ := hnext
      have hlt := nextEntry_lt hopen.1 hstep hne
      have hle := hopen'.1
      exact Or.inr ⟨(), w, lastEntry - q, rfl, ⟨q, hopen', hq, rfl⟩, by omega⟩

theorem Steady.findFile (hsteady : Steady shape v c) (h : StandsAt s fp shape v c k)
    (name : CStr) : Terminates (tfFindFile fp name) s ↔
      ScanEnds (grownEntry shape v c) name 0 := by
  obtain ⟨t, hseek, hopen⟩ := hsteady.fseek h (q := 0) (Nat.zero_le _) (b := 0) (o := 0)
    rfl (by decide)
  rw [← hsteady.findFile_loop hopen name (r := fileRounds) (by decide)]
  unfold tfFindFile Terminates
  rw [bind_ok hseek]

/-- One round of the scan for the end of the directory. -/
theorem ReadsAt.skip (h : ReadsAt s fp shape v c k (entryCluster shape k)) (hk : k ≤ lastEntry)
    (old : FatFileEntry) :
    ∃ e t, entryByte e 0 = entryByte (grownEntry shape v c k) 0 ∧
      skipEntriesRound fp old s =
        .ok (if entryByte (grownEntry shape v c k) 0 ≠ 0 then .inl e else .inr e) t ∧
      ReadsAt t fp shape v c (behind k) (entryCluster shape (behind k)) := by
  have hround : ∀ {e t}, freadEntry old fp s = .ok e t → e.take 31 =
      (grownEntry shape v c k).take 31 → skipEntriesRound fp old s =
        .ok (if entryByte (grownEntry shape v c k) 0 ≠ 0 then .inl e else .inr e) t := by
    intro e t hread htake
    unfold skipEntriesRound
    rw [bind_ok hread, entryByte_of_take htake (by decide)]
    split <;> rfl
  rcases Nat.lt_or_eq_of_le hk with hlt | rfl
  · obtain ⟨t, hread, hat⟩ := h.read hlt (fun t hat => hat.seek_next hlt) old
    have hbehind : behind k = k + 1 := Nat.min_eq_left hlt
    rw [hbehind]
    exact ⟨_, t, rfl, hround hread rfl, hat⟩
  · obtain ⟨e, t, hread, hat, htake⟩ := h.read_last old
    have hbehind : behind lastEntry = lastEntry := Nat.min_eq_right (Nat.le_succ _)
    rw [hbehind]
    exact ⟨e, t, entryByte_of_take htake (by decide), hround hread htake, hat⟩

/-- It leaves the handle in the directory. -/
theorem ReadsAt.skipEntries_run (h : ReadsAt s fp shape v c 0 (entryCluster shape 0))
    {r : Nat} (hrun : loop (skipEntriesRound fp) r old s = .ok e t) :
    ∃ k, ReadsAt t fp shape v c k (entryCluster shape k) := by
  have hloop : (loop (skipEntriesRound fp) r old s).Holds
      (fun _ t => ∃ k, ReadsAt t fp shape v c k (entryCluster shape k)) fun _ _ => True := by
    refine Res.holds_loop (I := fun _ s => ∃ k ≤ lastEntry,
      ReadsAt s fp shape v c k (entryCluster shape k)) ?_ (fun _ _ _ => trivial) r old s
      ⟨0, Nat.zero_le _, h⟩
    rintro x u ⟨k, hk, hat⟩
    obtain ⟨e', w, _, hround, hat'⟩ := hat.skip hk x
    rw [hround]
    split
    · exact ⟨behind k, Nat.min_le_right _ _, hat'⟩
    · exact ⟨behind k, hat'⟩
  rw [hrun] at hloop
  exact hloop

/-- The scan for the end of a directory. -/
theorem ReadsAt.skipEntries (h : ReadsAt s fp shape v c 0 (entryCluster shape 0))
    (old : FatFileEntry) {r : Nat} (hr : lastEntry < r) :
    Terminates (loop (skipEntriesRound fp) r old) s ↔
      ∃ k ≤ lastEntry, entryByte (grownEntry shape v c k) 0 = 0 := by
  constructor
  · rintro ⟨a, t, hrun⟩
    by_contra hnone
    refine loop_never (I := fun _ s => ∃ k ≤ lastEntry,
      ReadsAt s fp shape v c k (entryCluster shape k)) ?_ r ⟨0, Nat.zero_le _, h⟩ a t hrun
    rintro e u ⟨k, hk, hat⟩
    obtain ⟨e', w, _, hround, hat'⟩ := hat.skip hk e
    rw [if_pos fun hzero => hnone ⟨k, hk, hzero⟩] at hround
    exact ⟨e', w, hround, behind k, Nat.min_le_right _ _, hat'⟩
  · rintro ⟨q, hq, hzero⟩
    refine loop_returns (I := fun m _ s => ∃ k ≤ q,
      ReadsAt s fp shape v c k (entryCluster shape k) ∧ m = q - k) ?_ (m := q)
      ⟨0, Nat.zero_le _, h, rfl⟩ (by omega)
    rintro m e u ⟨k, hk, hat, rfl⟩
    obtain ⟨e', w, _, hround, hat'⟩ := hat.skip (hk.trans hq) e
    by_cases hend : entryByte (grownEntry shape v c k) 0 ≠ 0
    · rw [if_pos hend] at hround
      have hlt : k < q := Nat.lt_of_le_of_ne hk fun heq => hend (heq ▸ hzero)
      have hbehind : behind k = k + 1 := Nat.min_eq_left (by omega)
      rw [hbehind] at hat'
      exact Or.inr ⟨e', w, q - (k + 1), hround, ⟨k + 1, hlt, hat', rfl⟩, by omega⟩
    · rw [if_neg hend] at hround
      exact Or.inl ⟨e', w, hround⟩

/-- A file in the place of the directory, which has been truncated to one byte. -/
theorem skipEntries_truncated (h : Truncated (s.handles fp)) (hco : s.Coherent)
    (old : FatFileEntry) {r : Nat} (hr : 0 < r) :
    Terminates (loop (skipEntriesRound fp) r old) s ↔
      s.volume (fileSector s.info.shape (s.handles fp) * 512) = 0 := by
  have hround : ∀ {u}, Same s u → u.handles = s.handles → ∀ old, ∃ e w,
      skipEntriesRound fp old u =
        .ok (if s.volume (fileSector s.info.shape (s.handles fp) * 512) ≠ 0 then .inl e
          else .inr e) w ∧ Same s w ∧ w.handles = s.handles := by
    intro u hsame hhandles old
    obtain ⟨w, hfetch, hsame', hhandles', hbuffer⟩ := tfFetch_run hsame.coherent
      (fileSector u.info.shape (u.handles fp))
    have hread := freadEntry_one (by rw [hhandles]; exact h) old hfetch hhandles'
    have hbyte : entryByte (load w.info.buffer 0 1 ++ (old.take 32).drop 1) 0 =
        s.volume (fileSector s.info.shape (s.handles fp) * 512) := by
      have hfirst := hbuffer 0 (by decide)
      rw [hsame.volume, hsame.shape, hhandles, Nat.add_zero] at hfirst
      rw [← hfirst]
      rfl
    refine ⟨load w.info.buffer 0 1 ++ (old.take 32).drop 1, w, ?_, hsame.trans hsame',
      hhandles'.trans hhandles⟩
    unfold skipEntriesRound
    rw [bind_ok hread, hbyte]
    split <;> rfl
  obtain ⟨r, rfl⟩ := Nat.exists_eq_succ_of_ne_zero (Nat.ne_of_gt hr)
  constructor
  · rintro ⟨a, t, hrun⟩
    by_contra hnot
    refine loop_never (I := fun _ u => Same s u ∧ u.handles = s.handles) ?_ (r + 1)
      ⟨Same.refl hco, rfl⟩ a t hrun
    rintro e u ⟨hsame, hhandles⟩
    obtain ⟨e', w, hrun', hw⟩ := hround hsame hhandles e
    rw [if_pos hnot] at hrun'
    exact ⟨e', w, hrun', hw⟩
  · intro hzero
    obtain ⟨e, w, hrun, _⟩ := hround (Same.refl hco) rfl old
    rw [if_neg (not_not_intro hzero)] at hrun
    exact ⟨e, w, loop_done hrun r⟩

/-! ## Mounting -/

/-- The root directory that `tf_init` opens. -/
theorem tfFopen_root (hfree : s.Free) :
    ∃ fp < tfFileHandles, ∃ f, tfFopen [slash] .r s = .ok (.handle fp) (s.setFile fp f) ∧
      f.attributes = tfAttrDirectory ∧ f.startCluster = 2 ∧ f.size = 0xffffffff ∧ f.pos = 0 ∧
      f.currentByte = 0 ∧ f.currentClusterIdx = 0 ∧ f.currentCluster = 2 := by
  rcases tfGetFreeHandle_cases s with ⟨hnone, _⟩ | ⟨fp, _, hfp, hget⟩
  · exact absurd hfree hnone
  refine ⟨fp, hfp, { rootFile { s.handles fp with flags := tfFlagOpen } with filename := [slash] }, ?_,
    rfl, rfl, rfl, rfl, rfl, rfl, rfl⟩
  have htwice : ∀ f g : TFFile, (s.setFile fp f).setFile fp g = s.setFile fp g := by
    intro f g
    rw [Fat32.setFile, Fat32.setFile, Fat32.setFile]
    simp only [Function.update_idem]
  have hwalk : loop (walkRound fp) fileRounds [slash] (s.setFile fp (rootFile { s.handles fp with
      flags := tfFlagOpen })) = .ok true (s.setFile fp (rootFile { s.handles fp with
      flags := tfFlagOpen })) := by
    have hnone : ∀ u, tfWalk [slash] fp u = .ok none u := fun u => rfl
    have hflags : ¬ ((s.setFile fp (rootFile { s.handles fp with
        flags := tfFlagOpen })).handles fp).flags = 0xff := by
      rw [s.setFile_self]
      show ¬ tfFlagOpen ||| tfFlagRoot = 0xff
      decide
    refine loop_done ?_ (2 ^ 33 - 1)
    unfold walkRound
    rw [bind_ok (hnone _), bind_ok (getFile_run _ fp), if_neg hflags]
    rfl
  have hopen : tfFnopen [slash] .r 1 s = .ok (.handle fp) (s.setFile fp
      { rootFile { s.handles fp with flags := tfFlagOpen } with filename := [slash] }) := by
    have hread : Mode.r.write = false := rfl
    unfold tfFnopen
    rw [bind_ok hget]
    simp only [hread]
    rw [if_neg (by decide), bind_ok (modifyFile_run _ fp rootFile), Fat32.setFile_self, htwice]
    have hpath : [slash].take 1 = [slash] := rfl
    rw [hpath, bind_ok hwalk, if_neg (by decide), if_neg (by decide)]
    show Res.ok _ ((s.setFile fp _).setFile fp _) = _
    rw [htwice, s.setFile_self]
  unfold tfFopen
  rw [if_neg (by decide)]
  exact bind_ok hopen _

/-- Closing a directory. -/
theorem tfFclose_directory (hco : s.Coherent)
    (hdir : (s.handles fp).attributes &&& tfAttrDirectory ≠ 0) : Terminates (tfFclose fp) s := by
  have hflush : Terminates (tfFflush flushDepth fp) s := by
    unfold flushDepth tfFflush
    rw [Terminates, bind_ok (getFile_run s fp)]
    split
    · exact ⟨0, s, rfl⟩
    · obtain ⟨t, hrun, _⟩ := storeDirty_run hco
      rw [bind_ok hrun, if_pos (Or.inr hdir)]
      exact ⟨0, _, rfl⟩
  obtain ⟨rc, t, hrun⟩ := hflush
  exact ⟨rc, _, bind_ok hrun _⟩

/-- A handle without flags is closed at once. -/
theorem tfFclose_cleared (hflags : (s.handles fp).flags = 0) : Terminates (tfFclose fp) s := by
  have hflush : tfFflush flushDepth fp s = .ok 0 s := by
    unfold flushDepth tfFflush
    rw [bind_ok (getFile_run s fp), hflags, if_pos (by decide)]
    rfl
  exact ⟨0, _, bind_ok hflush _⟩

/-- The scan of the root directory in `tf_init`. -/
theorem tfInitScan_terminates (hvalid : shape.Valid) (hsectors : shape.totalSectors < 2 ^ 32)
    (hco : s.Coherent) (hshape : s.info.shape = shape) (hfree : s.Free) :
    Terminates tfInitScan s ↔
      ∃ k ≤ lastEntry, entryByte (grownEntry shape s.volume 2 k) 0 = 0 := by
  obtain ⟨fp, hfp, f, hopen, hattributes, hstart, hsize, hpos, hbyte, hidx, hcluster⟩ :=
    tfFopen_root hfree
  have hzero : entryCluster shape 0 = 0 := Nat.zero_div _
  have hat : ReadsAt (s.setFile fp f) fp shape s.volume 2 0 (entryCluster shape 0) := by
    refine ⟨hvalid, hsectors, hco, hshape, Nat.le_refl _, ?_, ?_, ?_, ?_, ?_, ?_, ?_, ?_⟩
    · rw [hzero]
      rfl
    all_goals rw [s.setFile_self]
    · rw [hattributes]
      decide
    · exact hstart
    · exact hsize
    · exact hpos
    · rw [hbyte, Nat.mul_zero, Nat.zero_mod]
      rfl
    · rw [hidx, hzero]
    · rw [hcluster, hzero]
      rfl
  have hscan := hat.skipEntries s.stale (r := fileRounds) (by decide)
  rw [← hscan]
  have hinit : tfInitScan s = (loop (skipEntriesRound fp) fileRounds s.stale >>= fun _ =>
      tfFclose fp >>= fun _ => Comp.modify (fun s => { s with
        handles := fun i => if i < tfFileHandles then clearedFile else s.handles i }) >>= fun _ =>
      tfFclose fp >>= fun _ => tfReleaseHandle fp >>= fun _ => pure 0) (s.setFile fp f) := by
    have hderef : (FilePtr.handle fp).deref (s.setFile fp f) = .ok fp (s.setFile fp f) := rfl
    have hstale : (s.setFile fp f).stale = s.stale := rfl
    unfold tfInitScan
    rw [bind_ok hopen, bind_ok hderef, read_bind, hstale]
  constructor
  · rintro ⟨a, t, hrun⟩
    rw [hinit] at hrun
    obtain ⟨e, u, hloop, _⟩ := bind_eq_ok.mp hrun
    exact ⟨e, u, hloop⟩
  · rintro ⟨e, u, hloop⟩
    obtain ⟨k, hat'⟩ := hat.skipEntries_run hloop
    obtain ⟨rc, w, hclose⟩ := tfFclose_directory hat'.coherent hat'.directory
    have hflags : (if fp < tfFileHandles then clearedFile else w.handles fp).flags = 0 := by
      rw [if_pos hfp]
      rfl
    have hcleared : Terminates (tfFclose fp) { w with
        handles := fun i => if i < tfFileHandles then clearedFile else w.handles i } :=
      tfFclose_cleared hflags
    obtain ⟨rc', x, hclose'⟩ := hcleared
    rw [Terminates, hinit, bind_ok hloop, bind_ok hclose, modify_bind, bind_ok hclose']
    exact ⟨0, _, rfl⟩

/-- `tf_init` returns where it rejects the volume, and where the root directory has an end. -/
theorem tfInit_terminates (hsmall : s.bootSector.sectorsPerCluster ≤ 64) (hfree : s.Free) :
    Terminates tfInit s ↔ s.bootSector.badFsType = true ∨
      s.bootSector.sectorsPerCluster ≠ 0 ∧
        ∃ k ≤ lastEntry, entryByte (grownEntry s.bootSector.shape s.disk 2 k) 0 = 0 := by
  have hvolume : s.booted.volume = s.disk := writeSector_readSector s.disk 0
  rw [Terminates, tfInit_run]
  by_cases hbad : s.bootSector.badFsType = true
  · rw [if_pos hbad]
    exact iff_of_true ⟨_, _, rfl⟩ (Or.inl hbad)
  rw [if_neg hbad, or_iff_right hbad]
  by_cases hzero : s.bootSector.sectorsPerCluster = 0
  · rw [if_pos hzero]
    refine iff_of_false ?_ fun h => h.1 hzero
    rintro ⟨a, t, hrun⟩
    cases hrun
  · rw [if_neg hzero, and_iff_right hzero]
    have hscan := tfInitScan_terminates 
      (s := { s.booted with info := { s.booted.info with shape := s.bootSector.shape } })
      ⟨Nat.pos_of_ne_zero hzero, hsmall⟩ (totalSectors_lt _) (fun _ => hvolume) rfl hfree
    have hsame : Fat32.volume { s.booted with info := { s.booted.info with
        shape := s.bootSector.shape } } = s.disk := hvolume
    rw [hsame] at hscan
    exact hscan

end PageFaultOS
