import Mathlib.Tactic
import PageFaultOS.Fs.Volume

/-! How a chain grows. `tf_unsafe_fseek` links a free cluster to the end of a chain, and marks
it as the new end. Links that are there before stay as they are. -/

namespace PageFaultOS
open Exec Exec.Comp ByteMem

/-! ## Entries of the FAT -/

/-- Where the FAT entry of a cluster is in the volume. -/
def fatAddr (shape : TFShape) (cluster : Nat) : Nat :=
  u32 (shape.reservedSectors + u32 (cluster * 4) / 512) * 512 + u32 (cluster * 4) % 512

theorem fatEntry_eq (shape : TFShape) (v : Mem) (cluster : Nat) :
    fatEntry shape v cluster = readLE v (fatAddr shape cluster) 4 := rfl

theorem fatAddr_mod (shape : TFShape) (cluster : Nat) : fatAddr shape cluster % 4 = 0 := by
  rw [fatAddr, u32, u32]
  omega

/-- The entries of the clusters of a volume are in different places. -/
theorem fatAddr_inj {shape : TFShape} {c d : Nat} (hc : c < 2 ^ 30) (hd : d < 2 ^ 30)
    (h : fatAddr shape c = fatAddr shape d) : c = d := by
  rw [fatAddr, fatAddr, u32, u32, u32, u32] at h
  omega

/-- The volume with another FAT entry. -/
def setEntry (shape : TFShape) (v : Mem) (cluster value : Nat) : Mem :=
  writeLE v (fatAddr shape cluster) 4 value

theorem fatEntry_setEntry_same {shape : TFShape} {c d : Nat} (v : Mem) (value : Nat)
    (h : fatAddr shape c = fatAddr shape d) :
    fatEntry shape (setEntry shape v d value) c = value % 2 ^ 32 := by
  rw [fatEntry_eq, setEntry, h, readLE_writeLE]
  rfl

theorem fatEntry_setEntry_other {shape : TFShape} {c d : Nat} (v : Mem) (value : Nat)
    (h : fatAddr shape c ≠ fatAddr shape d) :
    fatEntry shape (setEntry shape v d value) c = fatEntry shape v c := by
  have hc := fatAddr_mod shape c
  have hd := fatAddr_mod shape d
  rw [fatEntry_eq, setEntry, readLE_writeLE_of_disjoint _ _ _ _ _ _ (by omega), fatEntry_eq]

/-! ## Setting an entry -/

/-- From `s` to `t` the FAT may have changed, but neither the files nor the memory. -/
structure Written (s t : Fat32) (v : Mem) : Prop where
  volume : t.volume = v
  coherent : t.Coherent
  shape : t.info.shape = s.info.shape
  stale : t.stale = s.stale
  handles : t.handles = s.handles

theorem tfFetch_sector {s t : Fat32} {sector : Nat} (hrun : tfFetch sector s = .ok () t) :
    t.info.currentSector = sector := by
  unfold tfFetch at hrun
  rw [read_bind] at hrun
  split at hrun
  · rename_i heq
    cases hrun
    exact heq.symm
  · obtain ⟨_, u, _, hu⟩ := bind_eq_ok.mp hrun
    cases hu
    rfl

/-- Bytes of the sector in memory are bytes of the volume. -/
theorem writeSector_writeLE (s : Fat32) {off n : Nat} (value : Nat) (hoff : off + n ≤ 512) :
    writeSector s.disk (writeLE s.info.buffer off n value) s.info.currentSector =
      writeLE s.volume (s.info.currentSector * 512 + off) n value := by
  funext b
  by_cases hb : b / 512 = s.info.currentSector
  · obtain ⟨i, hi, rfl⟩ : ∃ i < 512, b = s.info.currentSector * 512 + i :=
      ⟨b % 512, Nat.mod_lt _ (by decide), by omega⟩
    rw [writeSector_apply _ _ _ hi, writeLE, writeLE, s.volume_buffer hi]
    by_cases hin : off ≤ i ∧ i < off + n
    · rw [if_pos hin, if_pos (by omega)]
      congr 3
      omega
    · rw [if_neg hin, if_neg (by omega)]
  · rw [writeSector, if_neg hb, writeLE, if_neg (by omega)]
    rw [Fat32.volume, writeSector, if_neg hb]

theorem tfSetFatEntry_run {s : Fat32} (h : s.Coherent) (cluster value : Nat) :
    ∃ t, tfSetFatEntry cluster value s = .ok () t ∧
      Written s t (setEntry s.info.shape s.volume cluster value) := by
  obtain ⟨t, hrun, hsame, hhandles, _⟩ := tfFetch_run h
    (u32 (s.info.shape.reservedSectors + u32 (cluster * 4) / 512))
  have hoff := fat_offset_lt cluster
  have hsector := tfFetch_sector hrun
  have hwrite := writeSector_writeLE t value hoff
  rw [hsector, hsame.volume] at hwrite
  unfold tfSetFatEntry
  simp only [read_bind]
  rw [bind_ok hrun, read_bind]
  by_cases hvalue : readLE t.info.buffer (u32 (cluster * 4) % 512) 4 ≠ value
  · rw [if_pos hvalue]
    refine ⟨_, rfl, ?_, (fun hd => by cases hd), hsame.shape, hsame.stale, hhandles⟩
    rw [← hsector] at hwrite
    rw [Fat32.volume, hwrite, setEntry, fatAddr, hsector]
  · rw [if_neg hvalue]
    refine ⟨t, rfl, ?_, hsame.coherent, hsame.shape, hsame.stale, hhandles⟩
    rw [setEntry, fatAddr, ← hwrite, ← not_not.mp hvalue, writeLE_readLE, ← hsector]
    rfl

/-! ## A free cluster -/

/-- The FAT entry says that the cluster is free. -/
def FreeCluster (shape : TFShape) (v : Mem) (c : Nat) : Prop :=
  fatEntry shape v c &&& 0x0fffffff = 0

/-- The cluster is the last one of a chain. -/
def LastOfChain (shape : TFShape) (v : Mem) (c : Nat) : Prop :=
  fatEntry shape v c &&& 0x0fffffff = tfMarkEoc32

/-- The cluster has a link to another one. -/
def Linked (shape : TFShape) (v : Mem) (c : Nat) : Prop :=
  ¬ FreeCluster shape v c ∧ ¬ LastOfChain shape v c

/-- What is found behind the cluster `c`: a free cluster, or where there is none, no cluster
of the volume. -/
def Candidate (shape : TFShape) (v : Mem) (c j : Nat) : Prop :=
  j < totalClusters shape ∧ FreeCluster shape v j ∨ j = totalClusters shape ∨
    j = c ∧ totalClusters shape < c

variable {s t : Fat32} {shape : TFShape} {v : Mem} {c j : Nat}

theorem findFree_run {n i : Nat} (hco : s.Coherent) (hrun : loop findFreeRound n i s = .ok j t) :
    Same s t ∧ t.handles = s.handles ∧
      (j < totalClusters s.info.shape ∧ FreeCluster s.info.shape s.volume j ∨
        j = max i (totalClusters s.info.shape)) := by
  induction n generalizing s i with
  | zero => cases hrun
  | succ n ih =>
    by_cases hi : i < totalClusters s.info.shape
    · obtain ⟨u, hget, hsame, hhandles⟩ := tfGetFatEntry_run hco i
      by_cases hfree : fatEntry s.info.shape s.volume i &&& 0x0fffffff = 0
      · have hround : findFreeRound i s = .ok (.inr i) u := by
          unfold findFreeRound
          rw [read_bind, if_neg (not_not_intro hi), bind_ok hget, if_pos hfree]
          rfl
        rw [loop_done hround] at hrun
        cases hrun
        exact ⟨hsame, hhandles, Or.inl ⟨hi, hfree⟩⟩
      · have hround : findFreeRound i s = .ok (.inl (i + 1)) u := by
          unfold findFreeRound
          rw [read_bind, if_neg (not_not_intro hi), bind_ok hget, if_neg hfree]
          rfl
        rw [loop_again hround] at hrun
        have h := ih hsame.coherent hrun
        rw [hsame.shape, hsame.volume] at h
        refine ⟨hsame.trans h.1, h.2.1.trans hhandles, h.2.2.imp id fun hj => ?_⟩
        omega
    · have hround : findFreeRound i s = .ok (.inr i) s := by
        unfold findFreeRound
        rw [read_bind, if_pos hi]
        rfl
      rw [loop_done hround] at hrun
      cases hrun
      exact ⟨Same.refl hco, rfl, Or.inr (by omega)⟩

theorem tfFindFreeClusterFrom_run (hco : s.Coherent)
    (hrun : tfFindFreeClusterFrom c s = .ok j t) :
    Same s t ∧ t.handles = s.handles ∧ Candidate s.info.shape s.volume c j := by
  obtain ⟨i, u, hfirst, hrest⟩ := bind_eq_ok.mp hrun
  obtain ⟨hsame, hhandles, hi⟩ := findFree_run hco hfirst
  rw [read_bind] at hrest
  split at hrest
  · obtain ⟨hsame', hhandles', hj⟩ := findFree_run hsame.coherent hrest
    rw [hsame.shape, hsame.volume] at hj
    refine ⟨hsame.trans hsame', hhandles'.trans hhandles, hj.imp id fun hj => Or.inl ?_⟩
    omega
  · rename_i hne
    cases hrest
    rw [hsame.shape] at hne
    refine ⟨hsame, hhandles, hi.imp id fun hi => Or.inr ?_⟩
    omega

/-! ## Growing -/

/-- The volume `w` is `v` with the cluster `j` linked to the end `c` of a chain. -/
structure Appended (shape : TFShape) (v : Mem) (c j : Nat) (w : Mem) : Prop where
  last : LastOfChain shape v c
  candidate : Candidate shape v c j
  volume : w = setEntry shape (setEntry shape v c j) j tfMarkEoc32

/-- One link: along the chain, or to a new cluster. -/
theorem nextCluster_cases {fp : Nat} (hco : s.Coherent) (hrun : nextCluster fp s = .ok () t) :
    t.Coherent ∧ t.info.shape = s.info.shape ∧ t.stale = s.stale ∧
      (¬ LastOfChain s.info.shape s.volume (s.handles fp).currentCluster ∧ t.volume = s.volume ∨
        ∃ j, Appended s.info.shape s.volume (s.handles fp).currentCluster j t.volume) := by
  unfold nextCluster at hrun
  rw [bind_ok (getFile_run s fp)] at hrun
  obtain ⟨u, hget, hsame, hhandles⟩ := tfGetFatEntry_run hco (s.handles fp).currentCluster
  rw [bind_ok hget] at hrun
  split at hrun
  · rename_i hlast
    cases hrun
    exact ⟨hsame.coherent, hsame.shape, hsame.stale, Or.inl ⟨hlast, hsame.volume⟩⟩
  · rename_i hlast
    obtain ⟨j, w, hfind, hrest⟩ := bind_eq_ok.mp hrun
    obtain ⟨hsame', _, hj⟩ := tfFindFreeClusterFrom_run hsame.coherent hfind
    rw [hsame.shape, hsame.volume] at hj
    have hto := hsame.trans hsame'
    obtain ⟨x, hlink, hx⟩ := tfSetFatEntry_run hto.coherent (s.handles fp).currentCluster j
    rw [bind_ok hlink] at hrest
    obtain ⟨y, hmark, hy⟩ := tfSetFatEntry_run hx.coherent j tfMarkEoc32
    rw [bind_ok hmark] at hrest
    cases hrest
    refine ⟨hy.coherent, hy.shape.trans (hx.shape.trans hto.shape),
      hy.stale.trans (hx.stale.trans hto.stale), Or.inr ⟨j, not_not.mp hlast, hj, ?_⟩⟩
    show y.volume = _
    rw [hy.volume, hx.volume, hx.shape, hto.shape, hto.volume]

section
variable {w : Mem} (h : Appended shape v c j w)
include h

/-- Links stay. -/
theorem Appended.linked {d : Nat} (htotal : totalClusters shape < tfMarkEoc32)
    (hd : d < totalClusters shape) (hlinked : Linked shape v d) :
    fatEntry shape w d = fatEntry shape v d := by
  unfold tfMarkEoc32 at htotal
  have hc : fatAddr shape d ≠ fatAddr shape c := by
    intro heq
    apply hlinked.2
    rw [LastOfChain, fatEntry_eq, heq]
    exact h.last
  have hj : fatAddr shape d ≠ fatAddr shape j := by
    intro heq
    rcases h.candidate with ⟨_, hfree⟩ | htotal | ⟨hjc, _⟩
    · apply hlinked.1
      rw [FreeCluster, fatEntry_eq, heq]
      exact hfree
    · have hdj := fatAddr_inj (by omega) (by omega) heq
      omega
    · rw [hjc] at heq
      exact hc heq
  rw [h.volume, fatEntry_setEntry_other _ _ hj, fatEntry_setEntry_other _ _ hc]

/-- The end of a chain gets a link, where cluster `0` is not free. -/
theorem Appended.last_linked (htotal : totalClusters shape < tfMarkEoc32)
    (hzero : ¬ FreeCluster shape v 0) (hc : c < totalClusters shape) : Linked shape w c := by
  unfold tfMarkEoc32 at htotal
  have hjc : fatAddr shape c ≠ fatAddr shape j := by
    intro heq
    have hfree : ¬ FreeCluster shape v j := by
      have hlast := h.last
      unfold LastOfChain at hlast
      rw [FreeCluster, fatEntry_eq, ← heq, ← fatEntry_eq, hlast]
      decide
    rcases h.candidate with ⟨_, hj⟩ | hj | ⟨_, hc'⟩
    · exact hfree hj
    · have hcj := fatAddr_inj (by omega) (by omega) heq
      omega
    · omega
  have hj0 : j ≠ 0 := by
    intro hj
    rcases h.candidate with ⟨_, hfree⟩ | htotal | ⟨_, hc'⟩
    · rw [hj] at hfree
      exact hzero hfree
    · omega
    · omega
  have hj : j ≤ totalClusters shape := by
    rcases h.candidate with ⟨hj, _⟩ | hj | ⟨_, hc'⟩
    · omega
    · omega
    · omega
  have hentry : fatEntry shape w c &&& 0x0fffffff = j := by
    rw [h.volume, fatEntry_setEntry_other _ _ hjc, fatEntry_setEntry_same _ _ rfl,
      Nat.mod_eq_of_lt (by omega)]
    exact Nat.and_two_pow_sub_one_of_lt_two_pow (n := 28) (by omega)
  constructor
  · rw [FreeCluster, hentry]
    exact hj0
  · rw [LastOfChain, hentry, tfMarkEoc32]
    omega

end

end PageFaultOS
