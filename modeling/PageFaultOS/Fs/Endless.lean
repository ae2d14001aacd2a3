import Mathlib.Tactic
import PageFaultOS.Fs.Scans

/-! Directories to which clusters can be added, and when the scans of a directory come to an end.
Where the chain goes round in a circle and no entry ends the scan, it reads the last entry again
and again. -/

namespace PageFaultOS
open Exec Exec.Comp ByteMem

variable {s t : Fat32} {fp k q n c i j : Nat} {shape : TFShape} {v : Mem} {name : CStr}

/-! ## Directories that have a cluster for each entry -/

section
variable {cs : List Nat} (hchain : FatChain shape v cs)
include hchain

theorem FatChain.grown_eq (hi : i < cs.length) :
    grownAt shape v (cs.getD 0 0) i = (v, cs.getD i 0) := by
  induction i with
  | zero => rfl
  | succ i ih =>
    have hbelow := hchain.below i hi
    have hlast : ¬ LastOfChain shape v (cs.getD i 0) := by
      intro hlast
      have hle : cs.getD (i + 1) 0 &&& 0x0fffffff ≤ cs.getD (i + 1) 0 := Nat.and_le_left
      rw [LastOfChain, hchain.next i hi] at hlast
      omega
    rw [grownAt, ih (by omega), linkVolume, if_neg hlast, nextLink, if_neg hlast,
      hchain.next i hi]

/-- A chain of the length of the largest directory is steady, also where it goes round in a
circle. -/
theorem FatChain.steady (hfirst : cs.getD 0 0 < tfMarkEoc32)
    (hlong : entryCluster shape lastEntry < cs.length) : Steady shape v (cs.getD 0 0) := by
  have hgrown : ∀ i ≤ entryCluster shape lastEntry,
      grownAt shape v (cs.getD 0 0) i = (v, cs.getD i 0) := fun i hi =>
    hchain.grown_eq (Nat.lt_of_le_of_lt hi hlong)
  refine ⟨fun i hi => ?_, fun i j hij hj => ?_, fun i j hij hj => ?_, fun k j hk hj => ?_⟩
  · rw [hgrown i hi]
    cases i with
    | zero => exact hfirst
    | succ i => exact hchain.below i (Nat.lt_of_le_of_lt hi hlong)
  · have hnext := hgrown (i + 1) (by omega)
    rw [grownAt, hgrown i (by omega)] at hnext
    rw [hgrown j hj, hgrown i (by omega), hgrown (i + 1) (by omega)]
    exact congrArg Prod.snd hnext
  · have hnext := hgrown (i + 1) (by omega)
    rw [grownAt, hgrown i (by omega)] at hnext
    rw [hgrown j hj, hgrown i (by omega)]
    exact congrArg Prod.fst hnext
  · rw [grownEntry, hgrown j hj, hgrown _ (hk.trans hj)]

end

/-! ## Directories at the end of which clusters are added -/

/-- A chain of clusters of the volume. The FAT lies in front of the data, and its first two entries
belong to no cluster. -/
structure SoundChain (shape : TFShape) (v : Mem) (cs : List Nat) : Prop where
  chain : FatChain shape v cs
  nonempty : cs ≠ []
  last : LastOfChain shape v (cs.getD (cs.length - 1) 0)
  clusters : ∀ i < cs.length, 2 ≤ cs.getD i 0 ∧ cs.getD i 0 < totalClusters shape
  reserved : ∀ d < 2, ¬ FreeCluster shape v d
  total : totalClusters shape < tfMarkEoc32
  front : shape.reservedSectors + totalClusters shape / 128 < shape.firstDataSector
  sectors : shape.firstDataSector + totalClusters shape * shape.sectorsPerCluster < 2 ^ 32

/-- What holds after `j` links, from the end of the chain on. When there is no free cluster left
the number of clusters is taken for one. -/
structure GrowsAt (shape : TFShape) (v : Mem) (c j : Nat) : Prop where
  range : ∀ i ≤ j, 2 ≤ (grownAt shape v c i).2 ∧ (grownAt shape v c i).2 ≤ totalClusters shape
  links : ∀ i < j, (grownAt shape v c i).2 < totalClusters shape →
    fatEntry shape (grownAt shape v c j).1 (grownAt shape v c i).2 = (grownAt shape v c (i + 1)).2
  last : LastOfChain shape (grownAt shape v c j).1 (grownAt shape v c j).2
  reserved : ∀ d < 2, ¬ FreeCluster shape (grownAt shape v c j).1 d
  full : ∀ i < j, (grownAt shape v c i).2 = totalClusters shape →
    (grownAt shape v c (i + 1)).2 = totalClusters shape
  stuck : (grownAt shape v c j).2 = totalClusters shape →
    (∀ k < totalClusters shape, ¬ FreeCluster shape (grownAt shape v c j).1 k) ∧
      ∃ w, (grownAt shape v c j).1 = setEntry shape w (totalClusters shape) tfMarkEoc32
  data : ∀ a, shape.firstDataSector * 512 ≤ a → (grownAt shape v c j).1 a = v a

theorem setEntry_twice (w : Mem) (d x y : Nat) :
    setEntry shape (setEntry shape w d x) d y = setEntry shape w d y := by
  funext a
  unfold setEntry writeLE
  split <;> rfl

/-- The FAT entries of the clusters are in front of the data. -/
theorem setEntry_data {d a : Nat} (hd : d ≤ totalClusters shape)
    (htotal : totalClusters shape < tfMarkEoc32)
    (hfront : shape.reservedSectors + totalClusters shape / 128 < shape.firstDataSector)
    (ha : shape.firstDataSector * 512 ≤ a) (w : Mem) (x : Nat) : setEntry shape w d x a = w a := by
  have hdiv : d / 128 ≤ totalClusters shape / 128 := Nat.div_le_div_right hd
  unfold tfMarkEoc32 at htotal
  have haddr : fatAddr shape d + 4 ≤ shape.firstDataSector * 512 := by
    have h4 : u32 (d * 4) = d * 4 := Nat.mod_eq_of_lt (by omega)
    have hmod : u32 (shape.reservedSectors + d * 4 / 512) ≤ shape.reservedSectors + d * 4 / 512 :=
      Nat.mod_le _ _
    have hsector : u32 (shape.reservedSectors + d * 4 / 512) + 1 ≤ shape.firstDataSector := by
      have hcluster : d * 4 / 512 = d / 128 := by omega
      omega
    have hoff := fat_offset_lt d
    rw [h4] at hoff
    rw [fatAddr, h4]
    have hle := Nat.mul_le_mul_right 512 hsector
    rw [Nat.add_mul] at hle
    exact (Nat.add_assoc _ _ _).trans_le ((Nat.add_le_add_left hoff _).trans hle)
  unfold setEntry writeLE
  rw [if_neg (by omega)]

/-- A cluster with a link to a cluster is neither free nor the last one. -/
theorem linked_of_entry {w : Mem} {d e : Nat} (hentry : fatEntry shape w d = e) (he : 2 ≤ e)
    (he' : e < tfMarkEoc32) : Linked shape w d := by
  have hmask : fatEntry shape w d &&& 0x0fffffff = e := by
    rw [hentry]
    exact Nat.and_two_pow_sub_one_of_lt_two_pow (n := 28) (by unfold tfMarkEoc32 at he'; omega)
  constructor
  · rw [FreeCluster, hmask]
    omega
  · rw [LastOfChain, hmask]
    omega

/-- At the end of a chain the first free cluster is taken, or else the number of clusters. -/
theorem nextLink_last {w : Mem} {d : Nat} (hlast : LastOfChain shape w d)
    (hd : d ≤ totalClusters shape) :
    nextLink shape w d < totalClusters shape ∧ FreeCluster shape w (nextLink shape w d) ∨
      nextLink shape w d = totalClusters shape ∧
        ∀ k < totalClusters shape, ¬ FreeCluster shape w k := by
  have hfrom := firstFree_stops shape w d
  have hall := firstFree_stops shape w 0
  rw [Nat.sub_zero] at hall
  rw [nextLink, if_pos hlast]
  simp only
  by_cases hend : firstFree shape w (totalClusters shape - d) d = totalClusters shape
  · rw [if_pos hend]
    rcases hall.stop with hout | hfree
    · have heq := Nat.le_antisymm (hall.le_total (Nat.zero_le _)) hout
      exact Or.inr ⟨heq, fun k hk => (hall.passed k (Nat.zero_le k) (by omega)).2⟩
    · rcases Nat.lt_or_eq_of_le (hall.le_total (Nat.zero_le _)) with hlt | heq
      · exact Or.inl ⟨hlt, hfree⟩
      · exact Or.inr ⟨heq, fun k hk => (hall.passed k (Nat.zero_le k) (by omega)).2⟩
  · rw [if_neg hend]
    have hlt := Nat.lt_of_le_of_ne (hfrom.le_total hd) hend
    exact Or.inl ⟨hlt, hfrom.stop.resolve_left (by omega)⟩

/-- What one more cluster leaves. -/
theorem GrowsAt.succ (h : GrowsAt shape v c j) (htotal : totalClusters shape < tfMarkEoc32)
    (hfront : shape.reservedSectors + totalClusters shape / 128 < shape.firstDataSector) :
    GrowsAt shape v c (j + 1) := by
  have hrange := h.range j (Nat.le_refl j)
  have hnext : (grownAt shape v c (j + 1)).2 =
      nextLink shape (grownAt shape v c j).1 (grownAt shape v c j).2 := rfl
  have hvolume : (grownAt shape v c (j + 1)).1 = setEntry shape
      (setEntry shape (grownAt shape v c j).1 (grownAt shape v c j).2
        (grownAt shape v c (j + 1)).2) (grownAt shape v c (j + 1)).2 tfMarkEoc32 :=
    if_pos h.last
  have hcases := nextLink_last h.last hrange.2
  rw [← hnext] at hcases
  by_cases hfull : (grownAt shape v c j).2 = totalClusters shape
  · -- there is no free cluster left, and nothing changes
    obtain ⟨hnone, w, hw⟩ := h.stuck hfull
    have hsame : (grownAt shape v c (j + 1)).2 = totalClusters shape := by
      rcases hcases with ⟨hlt, hfree⟩ | ⟨heq, _⟩
      · exact absurd hfree (hnone _ hlt)
      · exact heq
    have hvolume' : (grownAt shape v c (j + 1)).1 = (grownAt shape v c j).1 := by
      rw [hvolume, hsame, hfull, setEntry_twice, hw, setEntry_twice]
    refine ⟨fun i hi => ?_, fun i hi hlt => ?_, ?_, ?_, fun i hi heq => ?_, fun _ => ?_, ?_⟩
    · rcases Nat.lt_or_eq_of_le hi with hlt | rfl
      · exact h.range i (by omega)
      · rw [hsame]
        exact ⟨hfull ▸ hrange.1, Nat.le_refl _⟩
    · rcases Nat.lt_or_eq_of_le (Nat.le_of_lt_succ hi) with hij | rfl
      · rw [hvolume']
        exact h.links i hij hlt
      · omega
    · rw [hvolume', hsame, ← hfull]
      exact h.last
    · rw [hvolume']
      exact h.reserved
    · rcases Nat.lt_or_eq_of_le (Nat.le_of_lt_succ hi) with hij | rfl
      · exact h.full i hij heq
      · exact hsame
    · rw [hvolume']
      exact ⟨hnone, w, hw⟩
    · rw [hvolume']
      exact h.data
  · have hlt : (grownAt shape v c j).2 < totalClusters shape := by omega
    unfold tfMarkEoc32 at htotal
    have hnew : 2 ≤ (grownAt shape v c (j + 1)).2 ∧
        (grownAt shape v c (j + 1)).2 ≤ totalClusters shape := by
      rcases hcases with ⟨hin, hfree⟩ | ⟨heq, _⟩
      · refine ⟨?_, Nat.le_of_lt hin⟩
        by_contra hsmall
        exact h.reserved _ (by omega) hfree
      · omega
    have hne : (grownAt shape v c j).2 ≠ (grownAt shape v c (j + 1)).2 := by
      intro heq
      rcases hcases with ⟨_, hfree⟩ | ⟨hout, _⟩
      · have hlast := h.last
        rw [← heq] at hfree
        rw [LastOfChain, hfree] at hlast
        exact absurd hlast (by decide)
      · omega
    -- which entries of the FAT change
    have hother : ∀ k ≤ totalClusters shape, k ≠ (grownAt shape v c j).2 →
        k ≠ (grownAt shape v c (j + 1)).2 → fatEntry shape (grownAt shape v c (j + 1)).1 k =
          fatEntry shape (grownAt shape v c j).1 k := by
      intro k hk hold hk'
      rw [hvolume,
        fatEntry_setEntry_other _ _ fun h => hk' (fatAddr_inj (by omega) (by omega) h),
        fatEntry_setEntry_other _ _ fun h => hold (fatAddr_inj (by omega) (by omega) h)]
    have hlink : fatEntry shape (grownAt shape v c (j + 1)).1 (grownAt shape v c j).2 =
        (grownAt shape v c (j + 1)).2 := by
      rw [hvolume,
        fatEntry_setEntry_other _ _ fun h => hne (fatAddr_inj (by omega) (by omega) h),
        fatEntry_setEntry_same _ _ rfl, Nat.mod_eq_of_lt (by omega)]
    have hmark : LastOfChain shape (grownAt shape v c (j + 1)).1 (grownAt shape v c (j + 1)).2 := by
      rw [LastOfChain, hvolume, fatEntry_setEntry_same _ _ rfl]
      decide
    have happended : Appended shape (grownAt shape v c j).1 (grownAt shape v c j).2
        (grownAt shape v c (j + 1)).2 (grownAt shape v c (j + 1)).1 :=
      ⟨h.last, hcases.imp id fun heq => Or.inl heq.1, hvolume⟩
    refine ⟨fun i hi => ?_, fun i hi hin => ?_, hmark, fun d hd => ?_, fun i hi heq => ?_,
      fun heq => ⟨fun k hk => ?_, _, by rw [← heq]; exact hvolume⟩, fun a ha => ?_⟩
    · rcases Nat.lt_or_eq_of_le hi with hij | rfl
      · exact h.range i (by omega)
      · exact hnew
    · rcases Nat.lt_or_eq_of_le (Nat.le_of_lt_succ hi) with hij | rfl
      · have hentry := h.links i hij hin
        have hrange' := h.range (i + 1) hij
        have hlinked := linked_of_entry hentry hrange'.1
          (by unfold tfMarkEoc32; omega)
        rw [happended.linked (by unfold tfMarkEoc32; omega) hin hlinked, hentry]
      · exact hlink
    · rw [FreeCluster, hother d (by omega) (by omega) (by omega)]
      exact h.reserved d hd
    · rcases Nat.lt_or_eq_of_le (Nat.le_of_lt_succ hi) with hij | rfl
      · exact h.full i hij heq
      · exact absurd heq hfull
    · rcases hcases with ⟨hin, _⟩ | ⟨_, hnone⟩
      · omega
      · by_cases hk' : k = (grownAt shape v c j).2
        · rw [hk']
          exact (linked_of_entry hlink hnew.1 (by unfold tfMarkEoc32; omega)).1
        · rw [FreeCluster, hother k (Nat.le_of_lt hk) hk' (by omega)]
          exact hnone k hk
    · rw [hvolume, setEntry_data hnew.2 (by unfold tfMarkEoc32; omega) hfront ha,
        setEntry_data hrange.2 (by unfold tfMarkEoc32; omega) hfront ha]
      exact h.data a ha

section
variable {cs : List Nat} (h : SoundChain shape v cs)
include h

theorem SoundChain.growsAt (hj : cs.length - 1 ≤ j) : GrowsAt shape v (cs.getD 0 0) j := by
  have hpos := List.length_pos_of_ne_nil h.nonempty
  induction j, hj using Nat.le_induction with
  | base =>
    have hgrown : ∀ i ≤ cs.length - 1, grownAt shape v (cs.getD 0 0) i = (v, cs.getD i 0) :=
      fun i hi => h.chain.grown_eq (by omega)
    refine ⟨fun i hi => ?_, fun i hi _ => ?_, ?_, ?_, fun i hi heq => ?_, fun heq => ?_, ?_⟩
    · have hin := h.clusters i (by omega)
      rw [hgrown i hi]
      exact ⟨hin.1, Nat.le_of_lt hin.2⟩
    · rw [hgrown i (by omega), hgrown (i + 1) hi, hgrown _ (Nat.le_refl _)]
      exact h.chain.next i (by omega)
    · rw [hgrown _ (Nat.le_refl _)]
      exact h.last
    · rw [hgrown _ (Nat.le_refl _)]
      exact h.reserved
    · have hin := h.clusters i (by omega)
      rw [hgrown i (by omega)] at heq
      exact absurd heq (Nat.ne_of_lt hin.2)
    · have hin := h.clusters (cs.length - 1) (by omega)
      rw [hgrown _ (Nat.le_refl _)] at heq
      exact absurd heq (Nat.ne_of_lt hin.2)
    · rw [hgrown _ (Nat.le_refl _)]
      exact fun a _ => rfl
  | succ j _ ih => exact ih.succ h.total h.front

/-- The clusters that are reached, and the data that is found there. -/
theorem SoundChain.reached (j : Nat) :
    (2 ≤ (grownAt shape v (cs.getD 0 0) j).2 ∧
      (grownAt shape v (cs.getD 0 0) j).2 ≤ totalClusters shape) ∧
    ∀ a, shape.firstDataSector * 512 ≤ a → (grownAt shape v (cs.getD 0 0) j).1 a = v a := by
  rcases Nat.lt_or_ge j (cs.length - 1) with hlt | hge
  · have hin := h.clusters j (by omega)
    rw [h.chain.grown_eq (by omega)]
    exact ⟨⟨hin.1, Nat.le_of_lt hin.2⟩, fun a _ => rfl⟩
  · have hgrows := h.growsAt hge
    exact ⟨hgrows.range j (Nat.le_refl j), hgrows.data⟩

/-- The same links lead to the same clusters. -/
theorem SoundChain.links (hij : i < j) :
    nextLink shape (grownAt shape v (cs.getD 0 0) j).1 (grownAt shape v (cs.getD 0 0) i).2 =
      (grownAt shape v (cs.getD 0 0) (i + 1)).2 ∧
    linkVolume shape (grownAt shape v (cs.getD 0 0) j).1 (grownAt shape v (cs.getD 0 0) i).2 =
      (grownAt shape v (cs.getD 0 0) j).1 := by
  rcases Nat.lt_or_ge j (cs.length - 1) with hlt | hge
  · have hnext := h.chain.grown_eq (show i + 1 < cs.length by omega)
    rw [h.chain.grown_eq (show j < cs.length by omega), h.chain.grown_eq (show i < cs.length by omega),
      hnext]
    rw [grownAt, h.chain.grown_eq (show i < cs.length by omega)] at hnext
    exact ⟨congrArg Prod.snd hnext, congrArg Prod.fst hnext⟩
  · have hgrows := h.growsAt hge
    have hrange := hgrows.range i (Nat.le_of_lt hij)
    rcases Nat.lt_or_eq_of_le hrange.2 with hin | hfull
    · have hentry := hgrows.links i hij hin
      have hrange' := hgrows.range (i + 1) hij
      have hlast := (linked_of_entry hentry hrange'.1
        (Nat.lt_of_le_of_lt hrange'.2 h.total)).2
      rw [nextLink, if_neg hlast, linkVolume, if_neg hlast]
      exact ⟨hentry, rfl⟩
    · -- behind the last free cluster all are the same
      have hall : ∀ k, i ≤ k → k ≤ j →
          (grownAt shape v (cs.getD 0 0) k).2 = totalClusters shape := by
        intro k hik
        induction k, hik using Nat.le_induction with
        | base => exact fun _ => hfull
        | succ k _ ih => exact fun hk => hgrows.full k hk (ih (by omega))
      have hj := hall j (Nat.le_of_lt hij) (Nat.le_refl j)
      obtain ⟨hnone, w, hw⟩ := hgrows.stuck hj
      have hlast := hgrows.last
      have hcases := nextLink_last hlast (Nat.le_of_eq hj)
      rw [hj] at hlast hcases
      have hnext : nextLink shape (grownAt shape v (cs.getD 0 0) j).1 (totalClusters shape) =
          totalClusters shape := by
        rcases hcases with ⟨hlt, hfree⟩ | ⟨heq, _⟩
        · exact absurd hfree (hnone _ hlt)
        · exact heq
      rw [hfull, hall (i + 1) (Nat.le_succ i) hij, linkVolume, if_pos hlast, hnext, hw,
        setEntry_twice, setEntry_twice]
      exact ⟨rfl, rfl⟩

/-- The entries of a cluster are among the data. -/
theorem SoundChain.entryIn_eq (hvalid : shape.Valid) {d : Nat} (hd : 2 ≤ d)
    (hd' : d ≤ totalClusters shape) {w : Mem}
    (hw : ∀ a, shape.firstDataSector * 512 ≤ a → w a = v a) (k : Nat) :
    entryIn shape w d k = entryIn shape v d k := by
  have hsectors := h.sectors
  have htotal := h.total
  have hmod := Nat.mod_lt (32 * k) hvalid.clusterBytes_pos
  unfold tfMarkEoc32 at htotal
  have hoff : 32 * k % clusterBytes shape / 512 < shape.sectorsPerCluster := by
    rw [Nat.div_lt_iff_lt_mul (by decide)]
    exact hmod
  have hbefore : (d - 2) * shape.sectorsPerCluster + 2 * shape.sectorsPerCluster ≤
      totalClusters shape * shape.sectorsPerCluster := by
    rw [← Nat.add_mul, Nat.sub_add_cancel hd]
    exact Nat.mul_le_mul_right _ hd'
  have hfirst : tfFirstSector shape d =
      (d - 2) * shape.sectorsPerCluster + shape.firstDataSector := by
    have hidx : u32 (d + (2 ^ 32 - 2)) = d - 2 := by
      rw [u32]
      omega
    rw [tfFirstSector, hidx, u32, Nat.mod_eq_of_lt (by omega)]
  have hsector : u32 (tfFirstSector shape d + 32 * k % clusterBytes shape / 512) =
      (d - 2) * shape.sectorsPerCluster + shape.firstDataSector +
        32 * k % clusterBytes shape / 512 := by
    rw [hfirst, u32, Nat.mod_eq_of_lt (by omega)]
  rw [entryIn, entryIn, hsector, ByteMem.load, ByteMem.load]
  apply List.map_congr_left
  intro i _
  refine hw _ ?_
  have hge : shape.firstDataSector ≤ (d - 2) * shape.sectorsPerCluster +
      shape.firstDataSector + 32 * k % clusterBytes shape / 512 := by omega
  have hmul := Nat.mul_le_mul_right 512 hge
  exact (hmul.trans (Nat.le_add_right _ _)).trans (Nat.le_add_right _ _)

/-- A chain that comes to an end is steady. -/
theorem SoundChain.steady (hvalid : shape.Valid) : Steady shape v (cs.getD 0 0) := by
  refine ⟨fun i _ => ?_, fun i j hij _ => (h.links hij).1, fun i j hij _ => (h.links hij).2,
    fun k j _ _ => ?_⟩
  · exact Nat.lt_of_le_of_lt (h.reached i).1.2 h.total
  · have hin := (h.reached (entryCluster shape k)).1
    rw [grownEntry, h.entryIn_eq hvalid hin.1 hin.2 (h.reached j).2,
      h.entryIn_eq hvalid hin.1 hin.2 (h.reached _).2]

end

/-! ## The scans -/

/-- The scans for the end of a directory, in `tf_create`, `tf_mkdir` and `tf_init`, come to an end
just where the reads come to an entry whose first byte is `0`; a file in the place of the directory
gives its first byte over and over. `tf_find_file` comes to an end in a steady directory just where
it comes to an entry from which it does not go on. Chains that are as long as the largest directory
are steady, and so are those that end, on a sound volume. In any other directory the search comes to
an end if it does so within the clusters of the directory. -/
theorem scans_terminate_iff (s : Fat32) (fp : Nat) (shape : TFShape) (v : Mem) :
    (∀ c old rounds, ReadsAt s fp shape v c 0 (entryCluster shape 0) →
      fileRounds ≤ rounds → (Terminates (loop (skipEntriesRound fp) rounds old) s ↔
        ∃ k ≤ lastEntry, entryByte (grownEntry shape v c k) 0 = 0)) ∧
    (∀ old rounds, Truncated (s.handles fp) → s.Coherent → fileRounds ≤ rounds →
      (Terminates (loop (skipEntriesRound fp) rounds old) s ↔
        s.volume (fileSector s.info.shape (s.handles fp) * 512) = 0)) ∧
    (s.bootSector.sectorsPerCluster ≤ 64 → s.Free →
      (Terminates tfInit s ↔ s.bootSector.badFsType = true ∨
        s.bootSector.sectorsPerCluster ≠ 0 ∧
          ∃ k ≤ lastEntry, entryByte (grownEntry s.bootSector.shape s.disk 2 k) 0 = 0)) ∧
    (∀ c k name, Steady shape v c → StandsAt s fp shape v c k →
      (Terminates (tfFindFile fp name) s ↔ ScanEnds (grownEntry shape v c) name 0)) ∧
    (∀ cs, FatChain shape v cs → cs.getD 0 0 < tfMarkEoc32 →
      entryCluster shape lastEntry < cs.length → Steady shape v (cs.getD 0 0)) ∧
    (∀ cs, SoundChain shape v cs → shape.Valid → Steady shape v (cs.getD 0 0)) ∧
    ∀ cs f k name, InDir s fp cs f k → name ≠ [] →
      searchDir s.info.shape s.volume cs name ≠ .lost → Terminates (tfFindFile fp name) s := by
  have hrounds : lastEntry < fileRounds := by decide
  refine ⟨?_, ?_, ?_, ?_, ?_, ?_, ?_⟩
  · intro c old rounds hat hle
    exact hat.skipEntries old (Nat.lt_of_lt_of_le hrounds hle)
  · intro old rounds htruncated hco hle
    exact skipEntries_truncated htruncated hco old (Nat.lt_of_lt_of_le (by decide) hle)
  · intro hsmall hfree
    exact tfInit_terminates hsmall hfree
  · intro c k name hsteady hopen
    exact hsteady.findFile hopen name
  · intro cs hchain hfirst hlong
    exact hchain.steady hfirst hlong
  · intro cs hsound hvalid
    exact hsound.steady hvalid
  · intro cs f k name hin hname hlost
    have hfuel : 2 ^ 27 = 2 ^ 27 - 1 + 1 := rfl
    unfold searchDir at hlost
    rw [hfuel] at hlost
    obtain ⟨t, j, hrun, _⟩ := tfFindFile_run hname hin (by decide) rfl hlost
    exact ⟨_, t, hrun⟩

/-! ## A directory without an end -/

/-- The boot sector of a volume of 1000 sectors. -/
def endlessBoot : List UInt8 :=
  0xe9 :: List.replicate 10 0 ++ [0, 2, 1, 1, 0, 1, 0, 0, 0xe8, 3, 0xf8, 8, 0]

/-- A volume on which cluster 2 has a link to itself, and all clusters are full of entries. -/
def endlessDisk : Mem := fun a =>
  if a < 512 then endlessBoot.getD a 0
  else if a < 4608 then if a = 520 then 2 else 0
  else entryByte entryA (a % 32)

def endlessShape : TFShape := ⟨1, 9, 1000, 1⟩

def endlessVolume : Fat32 :=
  { blankVolume with
    info := ⟨endlessShape, 0, false, readSector endlessDisk 0⟩
    disk := endlessDisk
    handles := fun i => if i = 0 then notesFile else clearedFile }

theorem endless_volume : endlessVolume.volume = endlessDisk := writeSector_readSector endlessDisk 0

theorem endless_chain : FatChain endlessShape endlessDisk (List.replicate (2 ^ 23) 2) := by
  have hlink : fatEntry endlessShape endlessDisk 2 = 2 := by decide
  have hget : ∀ i < 2 ^ 23, (List.replicate (2 ^ 23) 2).getD i 0 = 2 := by
    intro i hi
    rw [List.getD_eq_getElem _ _ (by rw [List.length_replicate]; exact hi),
      List.getElem_replicate]
  constructor
  · intro i hi
    rw [List.length_replicate] at hi
    rw [hget i (by omega), hget (i + 1) hi, hlink]
  · intro i hi
    rw [List.length_replicate] at hi
    rw [hget (i + 1) hi]
    decide

theorem endless_first : (List.replicate (2 ^ 23) 2).getD 0 0 = 2 := by
  rw [List.getD_eq_getElem _ _ (by rw [List.length_replicate]; decide), List.getElem_replicate]

theorem endless_last : entryCluster endlessShape lastEntry < 2 ^ 23 := by decide

theorem endless_steady : Steady endlessShape endlessDisk 2 := by
  have hsteady := endless_chain.steady (by rw [endless_first]; decide)
    (by rw [List.length_replicate]; exact endless_last)
  rw [endless_first] at hsteady
  exact hsteady

theorem endless_entry (hk : k ≤ lastEntry) :
    grownEntry endlessShape endlessDisk 2 k = entryA := by
  have hgrown : grownAt endlessShape endlessDisk 2 (entryCluster endlessShape k) =
      (endlessDisk, 2) := by
    have hlt := Nat.lt_of_le_of_lt (entryCluster_mono endlessShape hk) endless_last
    have heq := endless_chain.grown_eq (i := entryCluster endlessShape k)
      (by rw [List.length_replicate]; exact hlt)
    rw [endless_first, List.getD_eq_getElem _ _ (by rw [List.length_replicate]; exact hlt),
      List.getElem_replicate] at heq
    exact heq
  have hsector : tfFirstSector endlessShape 2 = 9 := by decide
  have hoff : 32 * k % clusterBytes endlessShape = 32 * k % 512 := rfl
  have haddr : u32 (9 + 32 * k % 512 / 512) = 9 := by
    rw [u32]
    omega
  rw [grownEntry, hgrown, entryIn, hsector, hoff, haddr]
  have hbytes : entryA = (List.range 32).map (entryByte entryA) := by decide
  rw [hbytes, ByteMem.load]
  apply List.map_congr_left
  intro i hi
  have hi32 := List.mem_range.mp hi
  show endlessDisk (9 * 512 + 32 * k % 512 + i) = entryByte entryA i
  rw [endlessDisk, if_neg (by omega), if_neg (by omega),
    show (9 * 512 + 32 * k % 512 + i) % 32 = i by omega]

theorem endless_readsAt :
    ReadsAt endlessVolume 0 endlessShape endlessDisk 2 0 (entryCluster endlessShape 0) where
  valid := ⟨Nat.one_pos, (by decide : 1 ≤ 64)⟩
  sectors := by decide
  coherent := fun _ => endless_volume
  sameShape := rfl
  reached := Nat.le_refl _
  volume := endless_volume
  directory := by decide
  start := rfl
  size := rfl
  pos := rfl
  byte := rfl
  index := rfl
  cluster := rfl

theorem endless_scans (name : CStr) (hname : tfCompareFilenameSegment entryA name = false) :
    ¬ ScanEnds (grownEntry endlessShape endlessDisk 2) name 0 := by
  have hgoes : ∀ k ≤ lastEntry,
      nextEntry (grownEntry endlessShape endlessDisk 2) name k = some (behind k) := by
    intro k hk
    have hused : ¬ entryByte entryA 0 = 0 := by decide
    have hshort : entryA.attributes ≠ tfAttrLongName := by decide
    unfold nextEntry
    simp only
    rw [endless_entry hk, if_neg hused, if_pos hshort, hname]
    rfl
  have hle : ∀ k, Visits (grownEntry endlessShape endlessDisk 2) name 0 k → k ≤ lastEntry := by
    intro k hk
    induction hk with
    | refl => exact Nat.zero_le _
    | tail _ hstep ih =>
      rw [hgoes _ ih] at hstep
      rw [← Option.some.inj hstep]
      exact Nat.min_le_right _ _
  rintro ⟨k, hvisits, hend⟩
  rw [hgoes k (hle k hvisits)] at hend
  cases hend

theorem endless_opened : StandsAt endlessVolume 0 endlessShape endlessDisk 2 0 :=
  ⟨Nat.zero_le _, _, entryCluster_mono endlessShape (Nat.zero_le _), endless_readsAt⟩

theorem endless_free : endlessVolume.Free := ⟨1, by decide, by decide⟩

/-- The volume with a file that has been truncated. -/
def oneByteVolume : Fat32 :=
  { endlessVolume with handles := fun _ => { notesFile with attributes := 0, size := 1 } }

/-- A volume on which a directory ends with its cluster 2. -/
def endingDisk : Mem := fun a =>
  if a < 512 ∨ 524 ≤ a then 0 else if a % 4 = 3 then 0x0f else 0xff

theorem ending_sound : SoundChain endlessShape endingDisk [2] where
  chain := fatChain_single _ _ 2
  nonempty := by decide
  last := by decide
  clusters := by decide
  reserved := by
    unfold FreeCluster
    decide
  total := by decide
  front := by decide
  sectors := by decide

theorem scans_terminate_endless :
    (Terminates (loop (skipEntriesRound 0) fileRounds []) endlessVolume ↔
      ∃ k ≤ lastEntry, entryByte (grownEntry endlessShape endlessDisk 2 k) 0 = 0) ∧
    (Terminates (loop (skipEntriesRound 0) fileRounds []) oneByteVolume ↔
      oneByteVolume.volume (fileSector endlessShape (oneByteVolume.handles 0) * 512) = 0) ∧
    (Terminates tfInit endlessVolume ↔ endlessVolume.bootSector.badFsType = true ∨
      endlessVolume.bootSector.sectorsPerCluster ≠ 0 ∧ ∃ k ≤ lastEntry,
        entryByte (grownEntry endlessVolume.bootSector.shape endlessVolume.disk 2 k) 0 = 0) ∧
    (Terminates (tfFindFile 0 [0x42]) endlessVolume ↔
      ScanEnds (grownEntry endlessShape endlessDisk 2) [0x42] 0) ∧
    Steady endlessShape endlessDisk ((List.replicate (2 ^ 23) 2).getD 0 0) ∧
    Steady endlessShape endingDisk 2 ∧
    Terminates (tfFindFile 0 [0x41]) (rootVolume [entryA]) := by
  obtain ⟨hskip, -, hinit, hfind, hlong, -, -⟩ :=
    scans_terminate_iff endlessVolume 0 endlessShape endlessDisk
  obtain ⟨-, hone, -, -, -, hsound, -⟩ :=
    scans_terminate_iff oneByteVolume 0 endlessShape endingDisk
  obtain ⟨-, -, -, -, -, -, hin⟩ :=
    scans_terminate_iff (rootVolume [entryA]) 0 endlessShape endlessDisk
  exact ⟨hskip 2 [] fileRounds endless_readsAt (Nat.le_refl _),
    hone [] fileRounds ⟨rfl, rfl, rfl⟩ (fun _ => endless_volume) (Nat.le_refl _),
    hinit (by decide +kernel) endless_free,
    hfind 2 0 _ endless_steady endless_opened,
    hlong _ endless_chain (by rw [endless_first]; decide)
      (by rw [List.length_replicate]; exact endless_last),
    hsound [2] ending_sound endless_readsAt.valid,
    hin [2] _ 0 _ (rootVolume_inDir [entryA]) (by decide) (by decide +kernel)⟩

/-- The directory of entries `A` without an end: neither the scans for its end nor the one for the
name `B` come to an end, and the volume cannot be mounted. -/
theorem scans_endless : ¬ Terminates (tfFindFile 0 [0x42]) endlessVolume ∧
    ¬ Terminates (loop (skipEntriesRound 0) fileRounds []) endlessVolume ∧
    ¬ Terminates tfInit endlessVolume := by
  have hused : ∀ k ≤ lastEntry,
      entryByte (grownEntry endlessShape endlessDisk 2 k) 0 ≠ 0 := by
    intro k hk
    rw [endless_entry hk]
    decide
  have hshape : endlessVolume.bootSector.shape = endlessShape := rfl
  refine ⟨?_, ?_, ?_⟩
  · rw [endless_steady.findFile endless_opened]
    exact endless_scans [0x42] (by decide)
  · rw [endless_readsAt.skipEntries [] (by decide)]
    rintro ⟨k, hk, hzero⟩
    exact hused k hk hzero
  · rw [tfInit_terminates (by decide +kernel) endless_free, hshape]
    rintro (hbad | ⟨_, k, hk, hzero⟩)
    · exact absurd hbad (by decide +kernel)
    · exact hused k hk hzero

end PageFaultOS
