import Mathlib.Tactic
import PageFaultOS.Fs.Growth
import PageFaultOS.Fs.Ops

/-! Where `tf_find_free_cluster` and `tf_find_free_cluster_from` stop. They search the clusters
from `0`, or from the given one, up to the number of sectors over the sectors of a cluster; where
that is how far they come, it is what they return. -/

namespace PageFaultOS
open Exec Exec.Comp ByteMem

variable {s t : Fat32} {shape : TFShape} {v : Mem} {c i j fp : Nat}

/-- The clusters for which there are sectors. -/
def dataClusters (shape : TFShape) : Nat :=
  (shape.totalSectors - shape.firstDataSector) / shape.sectorsPerCluster

/-- The sectors of the cluster are on the volume. -/
def OnVolume (shape : TFShape) (i : Nat) : Prop := 2 ≤ i ∧ i < 2 + dataClusters shape

instance (shape : TFShape) (i : Nat) : Decidable (OnVolume shape i) :=
  inferInstanceAs (Decidable (_ ∧ _))

/-- A free cluster of the volume. -/
def Available (shape : TFShape) (v : Mem) (i : Nat) : Prop :=
  OnVolume shape i ∧ FreeCluster shape v i

/-! ## The searches -/

/-- The search from `c` on stops at `j`. -/
structure StopsAt (shape : TFShape) (v : Mem) (c j : Nat) : Prop where
  le : c ≤ j
  passed : ∀ k, c ≤ k → k < j → k < totalClusters shape ∧ ¬ FreeCluster shape v k
  stop : totalClusters shape ≤ j ∨ FreeCluster shape v j

theorem StopsAt.unique (h : StopsAt shape v c i) (h' : StopsAt shape v c j) : i = j := by
  rcases Nat.lt_trichotomy i j with hlt | heq | hlt
  · obtain ⟨hin, hfull⟩ := h'.passed i h.le hlt
    rcases h.stop with hout | hfree
    · omega
    · exact absurd hfree hfull
  · exact heq
  · obtain ⟨hin, hfull⟩ := h.passed j h'.le hlt
    rcases h'.stop with hout | hfree
    · omega
    · exact absurd hfree hfull

theorem StopsAt.le_total (h : StopsAt shape v c j) (hc : c ≤ totalClusters shape) :
    j ≤ totalClusters shape := by
  by_contra hlt
  have hpassed := h.passed (totalClusters shape) hc (by omega)
  omega

theorem StopsAt.eq_of_lt (h : StopsAt shape v c j) (hc : totalClusters shape < c) : j = c := by
  by_contra hne
  have hle := h.le
  have hpassed := h.passed c (Nat.le_refl c) (by omega)
  omega

theorem findFree_stops {n : Nat} (hco : s.Coherent) (hn : totalClusters s.info.shape - c < n) :
    ∃ j t, loop findFreeRound n c s = .ok j t ∧ Same s t ∧
      StopsAt s.info.shape s.volume c j := by
  induction n generalizing s c with
  | zero => omega
  | succ n ih =>
    by_cases hc : c < totalClusters s.info.shape
    · obtain ⟨u, hget, hsame, _⟩ := tfGetFatEntry_run hco c
      by_cases hfree : fatEntry s.info.shape s.volume c &&& 0x0fffffff = 0
      · have hround : findFreeRound c s = .ok (.inr c) u := by
          unfold findFreeRound
          rw [read_bind, if_neg (not_not_intro hc), bind_ok hget, if_pos hfree]
          rfl
        exact ⟨c, u, loop_done hround n, hsame, Nat.le_refl c, fun k h1 h2 => by omega,
          Or.inr hfree⟩
      · have hround : findFreeRound c s = .ok (.inl (c + 1)) u := by
          unfold findFreeRound
          rw [read_bind, if_neg (not_not_intro hc), bind_ok hget, if_neg hfree]
          rfl
        obtain ⟨j, t, hrun, hsame', hstops⟩ := ih (s := u) (c := c + 1) hsame.coherent
          (by rw [hsame.shape]; omega)
        rw [hsame.shape, hsame.volume] at hstops
        refine ⟨j, t, (loop_again hround n).trans hrun, hsame.trans hsame',
          Nat.le_of_succ_le hstops.le, fun k h1 h2 => ?_, hstops.stop⟩
        rcases Nat.lt_or_eq_of_le h1 with hlt | rfl
        · exact hstops.passed k hlt h2
        · exact ⟨hc, hfree⟩
    · have hround : findFreeRound c s = .ok (.inr c) s := by
        unfold findFreeRound
        rw [read_bind, if_pos hc]
        rfl
      exact ⟨c, s, loop_done hround n, Same.refl hco, Nat.le_refl c, fun k h1 h2 => by omega,
        Or.inl (Nat.le_of_not_lt hc)⟩

/-- Sectors are numbered with 32 bits. -/
theorem totalClusters_lt (h : shape.totalSectors < 2 ^ 32) (c : Nat) :
    totalClusters shape - c < fileRounds := by
  have hle : totalClusters shape ≤ shape.totalSectors := Nat.div_le_self _ _
  unfold fileRounds
  omega

theorem tfFindFreeCluster_stops (hco : s.Coherent) (hsectors : s.info.shape.totalSectors < 2 ^ 32) :
    ∃ j t, tfFindFreeCluster s = .ok j t ∧ StopsAt s.info.shape s.volume 0 j := by
  obtain ⟨j, t, hrun, _, hstops⟩ := findFree_stops hco (totalClusters_lt hsectors 0)
  exact ⟨j, t, hrun, hstops⟩

/-- At the end of the FAT the search starts again. -/
theorem tfFindFreeClusterFrom_stops (hco : s.Coherent)
    (hsectors : s.info.shape.totalSectors < 2 ^ 32)
    (hfirst : StopsAt s.info.shape s.volume 0 i) (hc : StopsAt s.info.shape s.volume c j) :
    ∃ t, tfFindFreeClusterFrom c s =
      .ok (if j = totalClusters s.info.shape then i else j) t := by
  obtain ⟨j', t, hrun, hsame, hstops⟩ := findFree_stops hco (totalClusters_lt hsectors c)
  rw [hstops.unique hc] at hrun
  unfold tfFindFreeClusterFrom
  rw [bind_ok hrun, read_bind, hsame.shape]
  by_cases hend : j = totalClusters s.info.shape
  · obtain ⟨i', u, hrun', hstops'⟩ := tfFindFreeCluster_stops hsame.coherent
      (by rw [hsame.shape]; exact hsectors)
    rw [hsame.shape, hsame.volume] at hstops'
    rw [hstops'.unique hfirst] at hrun'
    rw [if_pos hend, if_pos hend]
    exact ⟨u, hrun'⟩
  · rw [if_neg hend, if_neg hend]
    exact ⟨t, rfl⟩

/-! ## Seeking behind the last cluster -/

/-- A seek into the cluster behind the one of the file, which is the last one of its chain. -/
structure GrowingSeek (s : Fat32) (fp : Nat) (base offset : Int) : Prop where
  last : LastOfChain s.info.shape s.volume (s.handles fp).currentCluster
  inside : toLong (base + offset) ≤ (s.handles fp).size
  next : u32OfInt ((toLong (base + offset)).tdiv (clusterBytes s.info.shape)) =
    (s.handles fp).currentClusterIdx + 1

/-- One link more, and the seek is at its end. -/
theorem seek_once {r : Int} {n : Nat} (hrun : loop (seekRound fp) n 1 s = .ok r t) : r = 0 := by
  cases n with
  | zero => cases hrun
  | succ n =>
    rw [loop_succ] at hrun
    obtain ⟨x, u, hround, hrest⟩ := bind_eq_ok.mp hrun
    unfold seekRound at hround
    rw [if_neg (by decide)] at hround
    obtain ⟨_, w, _, hround⟩ := bind_eq_ok.mp hround
    rw [bind_ok (getFile_run w fp), if_neg fun h => absurd h.2 (by decide)] at hround
    cases hround
    cases n with
    | zero => cases hrest
    | succ n =>
      have hstop : seekRound fp 0 u = .ok (.inr 0) u := rfl
      have hlast : loop (seekRound fp) (n + 1) 0 u = .ok r t := hrest
      rw [loop_done hstop] at hlast
      cases hlast
      rfl

/-- Whatever the search for a free cluster returns, the seek takes it. -/
theorem GrowingSeek.succeeds {base offset r : Int} (h : GrowingSeek s fp base offset)
    (hrun : tfUnsafeFseek fp base offset s = .ok r t) : r = 0 := by
  unfold tfUnsafeFseek at hrun
  rw [bind_ok (getFile_run s fp), if_neg (Int.not_lt.mpr h.inside)] at hrun
  obtain ⟨_, u, hgrow, hrun⟩ := bind_eq_ok.mp hrun
  have hu : u.info = s.info ∧ (u.handles fp).currentClusterIdx =
      (s.handles fp).currentClusterIdx := by
    unfold growAtEnd at hgrow
    rw [bind_ok (getFile_run s fp)] at hgrow
    split at hgrow
    · cases hgrow
      refine ⟨rfl, ?_⟩
      rw [s.setFile_self]
    · cases hgrow
      exact ⟨rfl, rfl⟩
  rw [read_bind, hu.1, h.next] at hrun
  obtain ⟨r', w, hseek, hrun⟩ := bind_eq_ok.mp hrun
  have hr' : r' = 0 := by
    unfold seekCluster at hseek
    rw [bind_ok (getFile_run u fp), hu.2, if_neg (Nat.succ_ne_self _),
      if_pos (Nat.lt_succ_self _), bind_ok (modifyFile_run u fp _), Nat.add_sub_cancel_left]
      at hseek
    exact seek_once hseek
  rw [hr', if_neg (not_not_intro rfl)] at hrun
  cases hrun
  rfl

/-! ## Allocating -/

/-- The operation fails, and changes no FAT entry. -/
def Fails (s : Fat32) (x : FsComp Int) : Prop :=
  ∃ r t, x s = .ok r t ∧ r ≠ 0 ∧
    ∀ d < 2 ^ 30, fatEntry t.info.shape t.volume d = fatEntry s.info.shape s.volume d

/-- The searches find a free cluster of the volume, from `c` on or at all. Where there is none the
seek, and the making of files and directories, fail. -/
structure Allocates (s : Fat32) (c fp : Nat) (base offset : Int) (path : CStr) : Prop where
  takes : (∃ i, Available s.info.shape s.volume i) →
    (∃ i t, tfFindFreeCluster s = .ok i t ∧ Available s.info.shape s.volume i) ∧
    ∃ i t, tfFindFreeClusterFrom c s = .ok i t ∧ Available s.info.shape s.volume i
  refuses : (¬ ∃ i, Available s.info.shape s.volume i) →
    Fails s (tfUnsafeFseek fp base offset) ∧ Fails s (tfCreate path) ∧ Fails s (tfMkdir path)

/-- The first free entry of the FAT from `c` on. -/
structure FirstFree (shape : TFShape) (v : Mem) (c i : Nat) : Prop where
  le : c ≤ i
  free : FreeCluster shape v i
  least : ∀ k, c ≤ k → k < i → ¬ FreeCluster shape v k

/-- The first free entry of the FAT is that of a cluster of the volume, not behind the end of the
search. So is the first one from `c` on, if the search comes to it; and so is `c` itself, if it is
behind that end. -/
structure InOrder (shape : TFShape) (v : Mem) (c : Nat) : Prop where
  first : ∃ i ≤ totalClusters shape, FirstFree shape v 0 i ∧ OnVolume shape i
  within : c ≤ totalClusters shape → ∀ i < totalClusters shape, FirstFree shape v c i →
    OnVolume shape i
  beyond : totalClusters shape < c → Available shape v c

theorem FirstFree.stopsAt (h : FirstFree shape v c i) (hi : i ≤ totalClusters shape) :
    StopsAt shape v c i :=
  ⟨h.le, fun k h1 h2 => ⟨by omega, h.least k h1 h2⟩, Or.inr h.free⟩

theorem StopsAt.firstFree (h : StopsAt shape v c j) (hfree : FreeCluster shape v j) :
    FirstFree shape v c j := ⟨h.le, hfree, fun k h1 h2 => (h.passed k h1 h2).2⟩

theorem inOrder_iff (h : StopsAt shape v 0 i) (h' : StopsAt shape v c j) :
    Available shape v i ∧ Available shape v (if j = totalClusters shape then i else j) ↔
      InOrder shape v c := by
  have hi := h.le_total (Nat.zero_le _)
  constructor
  · rintro ⟨hfirst, hfrom⟩
    refine ⟨⟨i, hi, h.firstFree hfirst.2, hfirst.1⟩, fun hc k hk hfree => ?_, fun hc => ?_⟩
    · rw [h'.unique (hfree.stopsAt (Nat.le_of_lt hk)), if_neg (Nat.ne_of_lt hk)] at hfrom
      exact hfrom.1
    · rw [h'.eq_of_lt hc, if_neg (Nat.ne_of_gt hc)] at hfrom
      exact hfrom
  · rintro ⟨⟨k, hk, hfree, hon⟩, hwithin, hbeyond⟩
    have hfirst : Available shape v i := by
      rw [h.unique (hfree.stopsAt hk)]
      exact ⟨hon, hfree.free⟩
    refine ⟨hfirst, ?_⟩
    by_cases hend : j = totalClusters shape
    · rw [if_pos hend]
      exact hfirst
    · rw [if_neg hend]
      by_cases hc : totalClusters shape < c
      · rw [h'.eq_of_lt hc]
        exact hbeyond hc
      · have hj := h'.le_total (Nat.le_of_not_lt hc)
        have hfreej : FreeCluster shape v j := h'.stop.resolve_left fun hle => by omega
        exact ⟨hwithin (Nat.le_of_not_lt hc) j (by omega) (h'.firstFree hfreej), hfreej⟩

/-- Both searches find a free cluster of the volume. -/
theorem takes_iff (hco : s.Coherent) (hsectors : s.info.shape.totalSectors < 2 ^ 32) (c : Nat) :
    (∃ i t, tfFindFreeCluster s = .ok i t ∧ Available s.info.shape s.volume i) ∧
      (∃ i t, tfFindFreeClusterFrom c s = .ok i t ∧ Available s.info.shape s.volume i) ↔
    InOrder s.info.shape s.volume c := by
  obtain ⟨i, t, hrun, hi⟩ := tfFindFreeCluster_stops hco hsectors
  obtain ⟨j, _, _, _, hj⟩ := findFree_stops hco (totalClusters_lt hsectors c)
  obtain ⟨u, hfrom⟩ := tfFindFreeClusterFrom_stops hco hsectors hi hj
  rw [← inOrder_iff hi hj]
  constructor
  · rintro ⟨⟨i', t', hrun', havail⟩, ⟨j', u', hfrom', havail'⟩⟩
    rw [hrun] at hrun'
    rw [hfrom] at hfrom'
    cases hrun'
    injection hfrom' with hj' _
    rw [hj']
    exact ⟨havail, havail'⟩
  · rintro ⟨havail, havail'⟩
    exact ⟨⟨i, t, hrun, havail⟩, ⟨_, u, hfrom, havail'⟩⟩

/-- Clusters are allocated as they should exactly if the FAT has its free entries in order. -/
theorem allocates_iff (s : Fat32) (c fp : Nat) (base offset : Int) (path : CStr)
    (hco : s.Coherent) (hsectors : s.info.shape.totalSectors < 2 ^ 32)
    (hseek : GrowingSeek s fp base offset) :
    Allocates s c fp base offset path ↔ InOrder s.info.shape s.volume c := by
  rw [← takes_iff hco hsectors]
  constructor
  · intro h
    by_cases havail : ∃ i, Available s.info.shape s.volume i
    · exact h.takes havail
    · obtain ⟨⟨r, t, hrun, hr, _⟩, _⟩ := h.refuses havail
      exact absurd (hseek.succeeds hrun) hr
  · intro h
    refine ⟨fun _ => h, fun hnone => ?_⟩
    obtain ⟨i, _, _, havail⟩ := h.1
    exact absurd ⟨i, havail⟩ hnone

/-! ## A volume that is full -/

/-- A FAT where the clusters below `n` are in use. -/
def filledDisk (n : Nat) : Mem := fun a =>
  if 1024 ≤ a ∧ a < 1024 + 4 * n then if a % 4 = 3 then 0x0f else 0xff else 0

/-- A volume with six clusters, and the root directory open at its first entry. -/
def filledVolume (n : Nat) : Fat32 :=
  { blankVolume with
    info := ⟨⟨1, 34, 40, 2⟩, 0, false, fun _ => 0⟩
    disk := filledDisk n
    handles := fun _ => ⟨2, 0, 2, 0, 0, tfFlagOpen, tfAttrDirectory, 0xffffffff, []⟩ }

theorem filledVolume_coherent (n : Nat) : (filledVolume n).Coherent := by
  apply coherent_of_first_sector
  intro a ha
  exact if_neg (by omega)

/-- What the FAT says about the first clusters. -/
theorem filledVolume_free {n : Nat} (hn : n = 7 ∨ n = 8) (i : Nat) (hi : i < 8) :
    FreeCluster (filledVolume n).info.shape (filledVolume n).volume i ↔ n ≤ i := by
  unfold FreeCluster
  rcases hn with rfl | rfl
  · interval_cases i <;> decide
  · interval_cases i <;> decide

theorem filledVolume_growing {n : Nat} (hn : n = 7 ∨ n = 8) :
    GrowingSeek (filledVolume n) 0 0 512 := by
  rcases hn with rfl | rfl
  · refine ⟨?_, by decide +kernel, by decide +kernel⟩
    unfold LastOfChain
    decide +kernel
  · refine ⟨?_, by decide +kernel, by decide +kernel⟩
    unfold LastOfChain
    decide +kernel

/-- Where all clusters are in use a cluster behind the end of the volume is taken. -/
theorem allocates_from_full : ∃ s c fp base offset path, s.Coherent ∧
    s.info.shape.totalSectors < 2 ^ 32 ∧ GrowingSeek s fp base offset ∧
    ¬ Allocates s c fp base offset path := by
  refine ⟨filledVolume 8, 2, 0, 0, 512, [slash, 0x41], filledVolume_coherent 8, by decide,
    filledVolume_growing (Or.inr rfl), fun h => ?_⟩
  have hnone : ¬ ∃ i, Available (filledVolume 8).info.shape (filledVolume 8).volume i := by
    rintro ⟨i, ⟨_, hi⟩, hfree⟩
    have hi8 : i < 8 := hi
    exact absurd ((filledVolume_free (Or.inr rfl) i hi8).mp hfree) (by omega)
  obtain ⟨⟨r, t, hrun, hr, _⟩, _⟩ := h.refuses hnone
  exact hr ((filledVolume_growing (Or.inr rfl)).succeeds hrun)

/-- Where there is one cluster left it is found. -/
theorem allocates_iff_last : Allocates (filledVolume 7) 2 0 0 512 [slash, 0x41] := by
  refine (allocates_iff (filledVolume 7) 2 0 0 512 [slash, 0x41] (filledVolume_coherent 7)
    (by decide) (filledVolume_growing (Or.inl rfl))).mpr ⟨?_, fun _ i _ hfree => ?_, fun hc => ?_⟩
  · refine ⟨7, by decide, ⟨Nat.zero_le _, ?_, fun k _ hk => ?_⟩, by decide⟩
    · exact (filledVolume_free (Or.inl rfl) 7 (by decide)).mpr (Nat.le_refl 7)
    · rw [filledVolume_free (Or.inl rfl) k (by omega)]
      omega
  · have hseven := (filledVolume_free (Or.inl rfl) 7 (by decide)).mpr (Nat.le_refl 7)
    have hle : i ≤ 7 := by
      by_contra hlt
      exact hfree.least 7 (by decide) (by omega) hseven
    exact ⟨hfree.le, Nat.lt_succ_of_le hle⟩
  · exact absurd hc (by decide)

end PageFaultOS
