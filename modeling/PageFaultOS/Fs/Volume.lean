import Mathlib.Tactic
import PageFaultOS.Fs.Fat32

/-! The volume behind the cache of one sector: the device, with the sector in memory in the
place of the old one. Fetching a sector does not change it. -/

namespace PageFaultOS
open Exec Exec.Comp ByteMem

/-- What the file system holds. -/
def Fat32.volume (s : Fat32) : Mem := writeSector s.disk s.info.buffer s.info.currentSector

/-- A sector in memory that is not dirty is the one of the device. -/
def Fat32.Coherent (s : Fat32) : Prop := s.info.dirty = false → s.volume = s.disk

/-- From `s` to `s'` nothing but the cache and the open files has changed. -/
structure Same (s s' : Fat32) : Prop where
  volume : s'.volume = s.volume
  coherent : s'.Coherent
  shape : s'.info.shape = s.info.shape
  mm : s'.mm = s.mm
  pagetable : s'.pagetable = s.pagetable
  entryAddr : s'.entryAddr = s.entryAddr
  stale : s'.stale = s.stale

variable {s s' : Fat32}

theorem Same.refl (h : s.Coherent) : Same s s := ⟨rfl, h, rfl, rfl, rfl, rfl, rfl⟩

theorem Same.trans {s'' : Fat32} (h : Same s s') (h' : Same s' s'') : Same s s'' :=
  ⟨h'.volume.trans h.volume, h'.coherent, h'.shape.trans h.shape, h'.mm.trans h.mm,
    h'.pagetable.trans h.pagetable, h'.entryAddr.trans h.entryAddr, h'.stale.trans h.stale⟩

/-- From `s` to `s'` nothing but the cache and the file `fp` has changed, which is now `f`. -/
structure Moved (s s' : Fat32) (fp : Nat) (f : TFFile) : Prop where
  same : Same s s'
  handles : s'.handles = Function.update s.handles fp f

theorem Moved.of_same (fp : Nat) (h : Same s s') (hhandles : s'.handles = s.handles) :
    Moved s s' fp (s.handles fp) := by
  refine ⟨h, ?_⟩
  rw [hhandles, Function.update_eq_self]

theorem Moved.refl (fp : Nat) (h : s.Coherent) : Moved s s fp (s.handles fp) :=
  Moved.of_same fp (Same.refl h) rfl

theorem Moved.setFile (fp : Nat) (f : TFFile) (h : s.Coherent) :
    Moved s (s.setFile fp f) fp f := ⟨⟨rfl, h, rfl, rfl, rfl, rfl, rfl⟩, rfl⟩

theorem Moved.trans {s'' : Fat32} {fp : Nat} {f f' : TFFile} (h : Moved s s' fp f)
    (h' : Moved s' s'' fp f') : Moved s s'' fp f' := by
  refine ⟨h.same.trans h'.same, ?_⟩
  rw [h'.handles, h.handles, Function.update_idem]

theorem Moved.file {fp : Nat} {f : TFFile} (h : Moved s s' fp f) : s'.handles fp = f := by
  rw [h.handles, Function.update_self]

theorem Moved.coherent {fp : Nat} {f : TFFile} (h : Moved s s' fp f) : s'.Coherent :=
  h.same.coherent

theorem getFile_run (s : Fat32) (fp : Nat) : getFile fp s = .ok (s.handles fp) s := rfl

theorem modifyFile_run (s : Fat32) (fp : Nat) (g : TFFile → TFFile) :
    modifyFile fp g s = .ok () (s.setFile fp (g (s.handles fp))) := rfl

/-! ## Sectors -/

theorem writeSector_apply (disk buffer : Mem) (sector : Nat) {i : Nat} (hi : i < 512) :
    writeSector disk buffer sector (sector * 512 + i) = buffer i := by
  have hdiv : (sector * 512 + i) / 512 = sector := by omega
  have hmod : (sector * 512 + i) % 512 = i := by omega
  rw [writeSector, if_pos hdiv, hmod]

theorem writeSector_readSector (disk : Mem) (sector : Nat) :
    writeSector disk (readSector disk sector) sector = disk := by
  funext b
  by_cases hb : b / 512 = sector
  · have hsplit : sector * 512 + b % 512 = b := by omega
    rw [writeSector, if_pos hb, readSector, hsplit]
  · rw [writeSector, if_neg hb]

theorem writeSector_twice (disk buffer : Mem) (sector : Nat) :
    writeSector (writeSector disk buffer sector) buffer sector =
      writeSector disk buffer sector := by
  funext b
  by_cases hb : b / 512 = sector
  · rw [writeSector, if_pos hb, writeSector, if_pos hb]
  · rw [writeSector, if_neg hb]

/-- The sector in memory is the one of the volume. -/
theorem Fat32.volume_buffer (s : Fat32) {i : Nat} (hi : i < 512) :
    s.volume (s.info.currentSector * 512 + i) = s.info.buffer i :=
  writeSector_apply s.disk s.info.buffer s.info.currentSector hi

/-- `tf_store` brings the device up to date. -/
theorem tfStore_run (s : Fat32) :
    ∃ s', tfStore s = .ok () s' ∧ Same s s' ∧ s'.handles = s.handles ∧ s'.disk = s.volume := by
  have hvol : writeSector s.volume s.info.buffer s.info.currentSector = s.volume :=
    writeSector_twice s.disk s.info.buffer s.info.currentSector
  refine ⟨_, rfl, ⟨hvol, fun _ => ?_, rfl, rfl, rfl, rfl, rfl⟩, rfl, rfl⟩
  exact hvol

theorem storeDirty_run (h : s.Coherent) :
    ∃ s', storeDirty s = .ok () s' ∧ Same s s' ∧ s'.handles = s.handles ∧ s'.disk = s.volume := by
  cases hd : s.info.dirty with
  | true =>
    obtain ⟨s', hrun, hrest⟩ := tfStore_run s
    refine ⟨s', ?_, hrest⟩
    simp only [storeDirty, read_bind, hd, if_true, hrun]
  | false =>
    refine ⟨s, ?_, Same.refl h, rfl, (h hd).symm⟩
    simp only [storeDirty, read_bind, hd, Bool.false_eq_true, if_false, pure_apply]

/-- `tf_fetch` brings a sector of the volume into memory. -/
theorem tfFetch_run (h : s.Coherent) (sector : Nat) :
    ∃ s', tfFetch sector s = .ok () s' ∧ Same s s' ∧ s'.handles = s.handles ∧
      ∀ i < 512, s'.info.buffer i = s.volume (sector * 512 + i) := by
  by_cases hcur : sector = s.info.currentSector
  · refine ⟨s, ?_, Same.refl h, rfl, fun i hi => ?_⟩
    · simp only [tfFetch, read_bind, hcur, if_true, pure_apply]
    · rw [hcur, s.volume_buffer hi]
  · obtain ⟨t, hrun, hsame, hhandles, hdisk⟩ := storeDirty_run h
    have hvol : writeSector t.disk (readSector t.disk sector) sector = s.volume := by
      rw [writeSector_readSector, hdisk]
    refine ⟨{ t with info := { t.info with
        buffer := readSector t.disk sector, currentSector := sector } }, ?_,
      ⟨hvol, fun _ => ?_, hsame.shape, hsame.mm, hsame.pagetable, hsame.entryAddr, hsame.stale⟩,
      hhandles, fun i _ => ?_⟩
    · simp only [tfFetch, read_bind, hcur, if_false]
      rw [bind_ok hrun]
      rfl
    · exact hvol.trans hdisk.symm
    · simp only [readSector, hdisk]

/-! ## The FAT -/

/-- The FAT entry of a cluster of the volume `v`. -/
def fatEntry (shape : TFShape) (v : Mem) (cluster : Nat) : Nat :=
  let offset := u32 (cluster * 4)
  readLE v (u32 (shape.reservedSectors + offset / 512) * 512 + offset % 512) 4

/-- Entries do not straddle sectors. -/
theorem fat_offset_lt (cluster : Nat) : u32 (cluster * 4) % 512 + 4 ≤ 512 := by
  rw [u32]
  omega

theorem tfGetFatEntry_run (h : s.Coherent) (cluster : Nat) :
    ∃ s', tfGetFatEntry cluster s = .ok (fatEntry s.info.shape s.volume cluster) s' ∧
      Same s s' ∧ s'.handles = s.handles := by
  obtain ⟨s', hrun, hsame, hhandles, hbuffer⟩ := tfFetch_run h
    (u32 (s.info.shape.reservedSectors + u32 (cluster * 4) / 512))
  refine ⟨s', ?_, hsame, hhandles⟩
  have hoff := fat_offset_lt cluster
  have hvalue : readLE s'.info.buffer (u32 (cluster * 4) % 512) 4 =
      fatEntry s.info.shape s.volume cluster := by
    rw [fatEntry, readLE_shift fun i hi => ?_]
    rw [hbuffer _ (by omega), Nat.add_assoc]
  simp only [tfGetFatEntry, read_bind]
  rw [bind_ok hrun, read_bind, hvalue]
  rfl

theorem coherent_of_first_sector {disk : Mem} (h : ∀ a < 512, disk a = 0) :
    { blankVolume with disk := disk }.Coherent := by
  intro _
  funext a
  show (if a / 512 = 0 then (0 : UInt8) else disk a) = disk a
  split
  · rw [h a (by omega)]
  · rfl

theorem blankVolume_coherent : blankVolume.Coherent :=
  coherent_of_first_sector fun _ _ => rfl

end PageFaultOS
