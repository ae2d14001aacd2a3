import Mathlib.Tactic
import PageFaultOS.Fs.FailedSeek

/-! `tf_init` of `fs/fat32.cpp`: what it takes from the boot sector, which of it is checked, and
what the arithmetic of the volume rests on. -/

namespace PageFaultOS
open Exec Exec.Comp ByteMem

def tfErrBadFsType : Int := 2

/-- `BPB_struct`, less the fields that nothing reads. -/
structure BPB where
  jumpBoot0 : Nat
  jumpBoot2 : Nat
  bytesPerSector : Nat
  sectorsPerCluster : Nat
  reservedSectorCount : Nat
  numFATs : Nat
  rootEntryCount : Nat
  totalSectors16 : Nat
  media : Nat
  fatSize16 : Nat
  totalSectors32 : Nat
  fatSize32 : Nat

/-- The sector in memory as a `BPB_struct`. -/
def bpbOf (buffer : Mem) : BPB where
  jumpBoot0 := readLE buffer 0 1
  jumpBoot2 := readLE buffer 2 1
  bytesPerSector := readLE buffer 11 2
  sectorsPerCluster := readLE buffer 13 1
  reservedSectorCount := readLE buffer 14 2
  numFATs := readLE buffer 16 1
  rootEntryCount := readLE buffer 17 2
  totalSectors16 := readLE buffer 19 2
  media := readLE buffer 21 1
  fatSize16 := readLE buffer 22 2
  totalSectors32 := readLE buffer 32 4
  fatSize32 := readLE buffer 36 4

/-- The checks of `tf_init`, all of which end in `TF_ERR_BAD_FS_TYPE`. -/
def BPB.badFsType (b : BPB) : Bool :=
  (¬ (b.jumpBoot0 = 0xEB ∧ b.jumpBoot2 = 0x90) ∧ ¬ b.jumpBoot0 = 0xE9) ∨
    b.bytesPerSector ≠ 512 ∨ b.reservedSectorCount = 0 ∨
    (b.media ≠ 0xF0 ∧ (b.media < 0xF8 ∨ 0xFF < b.media))

def BPB.fatSize (b : BPB) : Nat := if b.fatSize16 ≠ 0 then b.fatSize16 else b.fatSize32

def BPB.rootDirSectors (b : BPB) : Nat :=
  (b.rootEntryCount * 32 + (b.bytesPerSector - 1)) / 512

def BPB.totalSectors (b : BPB) : Nat :=
  if b.totalSectors16 ≠ 0 then b.totalSectors16 else b.totalSectors32

def BPB.firstDataSector (b : BPB) : Nat :=
  u32 (b.reservedSectorCount + u32 (b.numFATs * b.fatSize) + b.rootDirSectors)

def BPB.dataSectors (b : BPB) : Nat :=
  u32 (b.totalSectors + (2 ^ 32 - b.firstDataSector))

/-- What `tf_init` makes of `tf_info`. -/
def BPB.shape (b : BPB) : TFShape where
  sectorsPerCluster := b.sectorsPerCluster
  firstDataSector := b.firstDataSector
  totalSectors := b.totalSectors
  reservedSectors := b.reservedSectorCount

/-- A `TFFile` of zeros. -/
def clearedFile : TFFile := ⟨0, 0, 0, 0, 0, 0, 0, 0, []⟩

/-- The part of `tf_init` that reads the root directory. Its size is never used. -/
def tfInitScan : FsComp Int := do
  let p ← tfFopen [slash] .r
  let fp ← p.deref
  let s ← read
  let _ ← loop (skipEntriesRound fp) fileRounds s.stale
  let _ ← tfFclose fp
  modify fun s => { s with
    handles := fun i => if i < tfFileHandles then clearedFile else s.handles i }
  let _ ← tfFclose fp
  tfReleaseHandle fp
  pure 0

/-- `cluster_count` is not used, but for it the number of sectors is divided. -/
def tfInit : FsComp Int := do
  modify fun s => { s with info := { s.info with currentSector := 2 ^ 32 - 1, dirty := false } }
  tfFetch 0
  let s ← read
  let b := bpbOf s.info.buffer
  if b.badFsType then
    pure tfErrBadFsType
  else if b.sectorsPerCluster = 0 then
    fault (.undefined "cluster_count")
  else do
    modify fun s => { s with info := { s.info with shape := b.shape } }
    tfInitScan

/-- The state in which `tf_init` has read the boot sector. -/
def Fat32.booted (s : Fat32) : Fat32 :=
  { s with info := ⟨s.info.shape, 0, false, readSector s.disk 0⟩ }

/-- The boot sector of the device. -/
def Fat32.bootSector (s : Fat32) : BPB := bpbOf (readSector s.disk 0)

variable {s t : Fat32} {fp : Nat} {b : BPB}

/-- What is between the checks and the root directory. -/
theorem tfInit_run (s : Fat32) : tfInit s =
    if s.bootSector.badFsType then .ok tfErrBadFsType s.booted
    else if s.bootSector.sectorsPerCluster = 0 then
      .fault (.undefined "cluster_count") s.booted
    else tfInitScan { s.booted with info := { s.booted.info with shape := s.bootSector.shape } } := by
  have hfetch : tfFetch 0 { s with info := { s.info with
      currentSector := 2 ^ 32 - 1, dirty := false } } = .ok () s.booted := rfl
  have hboot : bpbOf s.booted.info.buffer = s.bootSector := rfl
  unfold tfInit
  rw [modify_bind, bind_ok hfetch, read_bind]
  simp only [hboot]
  split
  · rfl
  · split <;> rfl

/-! ## The arithmetic -/

/-- The sectors in front of the first cluster. -/
def BPB.overhead (b : BPB) : Nat :=
  b.reservedSectorCount + b.numFATs * b.fatSize + b.rootDirSectors

theorem BPB.firstDataSector_eq (b : BPB) : b.firstDataSector = b.overhead % 2 ^ 32 := by
  rw [firstDataSector, overhead, u32, u32]
  omega

theorem totalSectors_lt (buffer : Mem) : (bpbOf buffer).totalSectors < 2 ^ 32 := by
  have h16 : (bpbOf buffer).totalSectors16 < 256 ^ 2 := readLE_lt buffer 19 2
  have h32 : (bpbOf buffer).totalSectors32 < 256 ^ 4 := readLE_lt buffer 32 4
  rw [BPB.totalSectors]
  split <;> omega

/-- There is room for the sectors in front of the first cluster just where no 32-bit computation
wraps. -/
theorem BPB.fits_iff (b : BPB) (htotal : b.totalSectors < 2 ^ 32) :
    b.overhead ≤ b.totalSectors ↔ b.firstDataSector = b.overhead ∧
      (b.dataSectors : Int) = b.totalSectors - b.overhead := by
  rw [BPB.dataSectors, b.firstDataSector_eq, u32]
  omega

/-- A `short` has room for the offsets in a cluster of at most 64 sectors. -/
theorem offsets_fit_iff (shape : TFShape) :
    (∀ i, i < clusterBytes shape → toShort i = i) ↔ shape.sectorsPerCluster ≤ 64 := by
  constructor
  · intro h
    by_contra hlarge
    have hbig := h 32768 (by rw [clusterBytes]; omega)
    exact absurd hbig (by decide)
  · intro h i hi
    rw [clusterBytes] at hi
    exact toShort_natCast (by omega)

/-! ## Seeking -/

/-- What a seek that succeeds has stored. -/
theorem tfUnsafeFseek_byte {base offset : Int} (hrun : tfUnsafeFseek fp base offset s = .ok 0 t) :
    (t.handles fp).currentByte =
      toShort ((toLong (base + offset)).tmod (clusterBytes s.info.shape)) := by
  unfold tfUnsafeFseek at hrun
  generalize toLong (base + offset) = pos at hrun ⊢
  rw [bind_ok (getFile_run s fp)] at hrun
  split at hrun
  · cases hrun
  · obtain ⟨_, u, hgrow, hrun⟩ := bind_eq_ok.mp hrun
    have hinfo : u.info = s.info := by
      unfold growAtEnd at hgrow
      rw [bind_ok (getFile_run s fp)] at hgrow
      split at hgrow <;> cases hgrow <;> rfl
    rw [read_bind, hinfo] at hrun
    obtain ⟨r, w, _, hrun⟩ := bind_eq_ok.mp hrun
    split at hrun
    · rename_i hne
      cases hrun
      exact absurd rfl hne
    · cases hrun
      rw [w.setFile_self]

theorem tmod_negative {pos : Int} {n : Nat} (hpos : pos < 0) :
    pos.tmod n = -((pos.natAbs % n : Nat) : Int) := by
  have hneg : pos = -(pos.natAbs : Int) := by omega
  rw [hneg, Int.neg_tmod, ← Int.ofNat_tmod, Int.natAbs_neg, Int.natAbs_natCast]

/-- Positions in front of the file are kept as negative offsets, but for whole clusters. -/
theorem offset_nonneg_iff {shape : TFShape} (hvalid : shape.Valid) (pos : Int) :
    0 ≤ toShort (pos.tmod (clusterBytes shape)) ↔ 0 ≤ pos ∨ (clusterBytes shape : Int) ∣ pos := by
  have hcb := hvalid.clusterBytes_pos
  have hle := hvalid.clusterBytes_le
  rcases Int.lt_or_le pos 0 with hneg | hpos
  · have hmod := Nat.mod_lt pos.natAbs hcb
    have hdvd : (clusterBytes shape : Int) ∣ pos ↔ pos.natAbs % clusterBytes shape = 0 := by
      rw [Int.natCast_dvd, Nat.dvd_iff_mod_eq_zero]
    have hshort : toShort (-((pos.natAbs % clusterBytes shape : Nat) : Int)) =
        -((pos.natAbs % clusterBytes shape : Nat) : Int) := by
      rw [toShort, Int.bmod_def]
      omega
    rw [tmod_negative hneg, hshort, hdvd]
    omega
  · obtain ⟨p, rfl⟩ := Int.eq_ofNat_of_zero_le hpos
    have hmod := Nat.mod_lt p hcb
    rw [← Int.ofNat_tmod, toShort_natCast (by omega)]
    omega

/-- The volume is sound as far as a seek is concerned: there are clusters, nothing wraps, a
`short` has room for the offsets in them, and the seek stores no negative offset. -/
structure VolumeSound (b : BPB) (s : Fat32) (fp : Nat) (base offset : Int) : Prop where
  clusters : 1 ≤ b.shape.sectorsPerCluster
  divisor : clusterBytes b.shape ≠ 0
  first : b.shape.firstDataSector = b.overhead
  data : (b.dataSectors : Int) = b.totalSectors - b.overhead
  inside : b.shape.firstDataSector ≤ b.shape.totalSectors
  offsets : ∀ i, i < clusterBytes b.shape → toShort i = i
  seek : ∀ t, tfFseek fp base offset s = .ok 0 t → 0 ≤ (t.handles fp).currentByte
  unsafeSeek : ∀ t, tfUnsafeFseek fp (toInt base) offset s = .ok 0 t →
    0 ≤ (t.handles fp).currentByte

/-- The seek fails, or is not for a place in the midst of a cluster in front of the file. -/
def SeekFits (s : Fat32) (f : TFFile) (pos : Int) : Prop :=
  (f.size : Int) < pos ∨
    SeekAstray s.info.shape s.volume f (clusterIdx s.info.shape pos) = true ∨
    0 ≤ pos ∨ (clusterBytes s.info.shape : Int) ∣ pos

theorem unsafeSeek_iff (hvalid : s.info.shape.Valid) (hco : s.Coherent)
    (hsectors : s.info.shape.totalSectors < 2 ^ 32) (fp : Nat) (base offset : Int) :
    (∀ t, tfUnsafeFseek fp base offset s = .ok 0 t → 0 ≤ (t.handles fp).currentByte) ↔
      SeekFits s (s.handles fp) (toLong (base + offset)) := by
  obtain ⟨r, t, hrun, hr⟩ := tfUnsafeFseek_total hco hsectors fp base offset
  have hsucceeds : r = 0 ↔ ¬ ((s.handles fp).size : Int) < toLong (base + offset) ∧
      ¬ SeekAstray s.info.shape s.volume (s.handles fp)
        (clusterIdx s.info.shape (toLong (base + offset))) = true := by
    split at hr
    · rename_i hbehind
      exact ⟨fun h => absurd h hr.1, fun h => absurd hbehind h.1⟩
    · rename_i hle
      rw [← hr.1, not_not]
      exact ⟨fun h => ⟨hle, h⟩, fun h => h.2⟩
  have hoffset := offset_nonneg_iff hvalid (toLong (base + offset))
  unfold SeekFits
  constructor
  · intro h
    by_contra hnot
    simp only [not_or] at hnot
    have hzero := hsucceeds.mpr ⟨hnot.1, hnot.2.1⟩
    rw [hzero] at hrun
    have hbyte := h t hrun
    rw [tfUnsafeFseek_byte hrun] at hbyte
    exact (hoffset.mp hbyte).elim hnot.2.2.1 hnot.2.2.2
  · intro h u hu
    rw [hrun] at hu
    cases hu
    rw [tfUnsafeFseek_byte hrun, hoffset]
    obtain ⟨hle, hway⟩ := hsucceeds.mp rfl
    exact (h.resolve_left hle).resolve_left hway

/-- On a volume with this boot sector all is sound exactly if its clusters have 1 to 64 sectors, the
sectors in front of them are no more than there are, and the seek fits. None of the checks of
`tf_init` is about any of this. -/
theorem volumeSound_iff (sector : Mem) (s : Fat32) (fp : Nat) (base offset : Int)
    (hshape : s.info.shape = (bpbOf sector).shape) (hco : s.Coherent) :
    VolumeSound (bpbOf sector) s fp base offset ↔
      1 ≤ (bpbOf sector).sectorsPerCluster ∧ (bpbOf sector).sectorsPerCluster ≤ 64 ∧
      (bpbOf sector).overhead ≤ (bpbOf sector).totalSectors ∧
      SeekFits s (s.handles fp) (toLong (toInt base + offset)) := by
  have htotal := totalSectors_lt sector
  have hsectors : s.info.shape.totalSectors < 2 ^ 32 := by
    rw [hshape]
    exact htotal
  constructor
  · intro h
    have hsmall := (offsets_fit_iff _).mp h.offsets
    have hvalid : s.info.shape.Valid := by
      rw [hshape]
      exact ⟨h.clusters, hsmall⟩
    exact ⟨h.clusters, hsmall, ((bpbOf sector).fits_iff htotal).mpr ⟨h.first, h.data⟩,
      (unsafeSeek_iff hvalid hco hsectors fp (toInt base) offset).mp h.unsafeSeek⟩
  · rintro ⟨hclusters, hsmall, hfits, hseek⟩
    have hvalid : s.info.shape.Valid := by
      rw [hshape]
      exact ⟨hclusters, hsmall⟩
    obtain ⟨hfirst, hdata⟩ := ((bpbOf sector).fits_iff htotal).mp hfits
    have hunsafe := (unsafeSeek_iff hvalid hco hsectors fp (toInt base) offset).mpr hseek
    have hdivisor : clusterBytes (bpbOf sector).shape ≠ 0 := by
      rw [← hshape]
      exact Nat.ne_of_gt hvalid.clusterBytes_pos
    have hinside : (bpbOf sector).shape.firstDataSector ≤ (bpbOf sector).shape.totalSectors := by
      show (bpbOf sector).firstDataSector ≤ _
      rw [hfirst]
      exact hfits
    refine ⟨hclusters, hdivisor, hfirst, hdata, hinside, (offsets_fit_iff _).mpr hsmall,
      fun t hrun => ?_, hunsafe⟩
    unfold tfFseek at hrun
    rw [bind_ok (getFile_run s fp)] at hrun
    split at hrun
    · cases hrun
    · exact hunsafe t hrun

/-! ## Two boot sectors -/

/-- A boot sector of 1000 sectors, with one FAT of 32 and with `n` sectors in a cluster. -/
def bootSectorOf (n : UInt8) : Mem := fun a =>
  [0xEB, 0, 0x90, 0, 0, 0, 0, 0, 0, 0, 0, 0, 2, n, 2, 0, 1, 0, 0, 0xE8, 3, 0xF8, 32].getD a 0

theorem volumeSound_iff_pair : VolumeSound (bpbOf (bootSectorOf 1)) pairVolume 0 (-32) 700 :=
  (volumeSound_iff (bootSectorOf 1) pairVolume 0 (-32) 700 rfl pairVolume_coherent).mpr
    ⟨by decide, by decide, by decide, Or.inr (Or.inr (Or.inl (by decide +kernel)))⟩

/-- Clusters of 64 KiB pass the checks. -/
theorem tfInit_large_clusters : ¬ ∀ sector s fp base offset,
    (bpbOf sector).badFsType = false → s.info.shape = (bpbOf sector).shape → s.Coherent →
      VolumeSound (bpbOf sector) s fp base offset := by
  intro hall
  have h := hall (bootSectorOf 128)
    { pairVolume with info := ⟨(bpbOf (bootSectorOf 128)).shape, 0, false, fun _ => 0⟩ } 0 0 0
    (by decide) rfl pairVolume_coherent
  have hbyte := h.offsets 32768 (by decide)
  exact absurd hbyte (by decide)

end PageFaultOS
