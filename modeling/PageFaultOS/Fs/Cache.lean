import Mathlib.Tactic
import PageFaultOS.Fs.Growth

/-! The cache of one sector against flat storage: a run of fetches, changes of the buffer,
stores and FAT accesses gives what an array of sectors without a cache gives. -/

namespace PageFaultOS
open Exec Exec.Comp ByteMem

/-- `tf_init` sets `currentSector` to `-1`: there is no sector in memory yet. -/
def noSector : Nat := 2 ^ 32 - 1

/-- What the file system asks of the cache. A change of the buffer in place sets
`TF_FLAG_DIRTY`. -/
inductive CacheOp where
  | fetch (sector : Nat)
  | edit (off : Nat) (bytes : List UInt8)
  | store
  | get (cluster : Nat)
  | set (cluster value : Nat)

/-- The values are in the range of their types, and the sectors and clusters in that of a
volume. -/
def CacheOp.Valid : CacheOp → Prop
  | .fetch sector => sector < 2 ^ 32 ∧ sector ≠ noSector
  | .edit off bytes => off + bytes.length ≤ 512
  | .store => True
  | .get cluster => cluster < 2 ^ 28
  | .set cluster value => cluster < 2 ^ 28 ∧ value < 2 ^ 32

/-- What an operation shows: the sector in the buffer, or the value of the entry. -/
inductive CacheOut where
  | sector (bytes : List UInt8)
  | entry (value : Nat)
  | done
  deriving DecidableEq

def CacheOp.run : CacheOp → FsComp CacheOut
  | .fetch sector => do
    tfFetch sector
    let s ← read
    pure (.sector (load s.info.buffer 0 512))
  | .edit off bytes => do
    modify fun s => { s with info := { s.info with
      dirty := true, buffer := ByteMem.store s.info.buffer off bytes } }
    pure .done
  | .store => do
    tfStore
    pure .done
  | .get cluster => do
    let value ← tfGetFatEntry cluster
    pure (.entry value)
  | .set cluster value => do
    tfSetFatEntry cluster value
    pure .done

def cacheRun : List CacheOp → FsComp (List CacheOut)
  | [] => pure []
  | op :: ops => do
    let out ← op.run
    let outs ← cacheRun ops
    pure (out :: outs)

/-! ## Flat storage -/

/-- An array of sectors, byte by byte, and the sector that was named last. -/
structure FlatStore where
  array : Mem
  current : Nat

/-- The sector of the FAT entry of a cluster. -/
def fatSector (shape : TFShape) (cluster : Nat) : Nat := shape.reservedSectors + cluster / 128

/-- The FAT is an array of words behind the reserved sectors. -/
def fatWord (shape : TFShape) (cluster : Nat) : Nat := shape.reservedSectors * 512 + cluster * 4

/-- The operations on flat storage: a change goes to the sector that was named last. -/
def CacheOp.flat (shape : TFShape) (w : FlatStore) : CacheOp → CacheOut × FlatStore
  | .fetch sector => (.sector (load w.array (sector * 512) 512), ⟨w.array, sector⟩)
  | .edit off bytes => (.done, ⟨ByteMem.store w.array (w.current * 512 + off) bytes, w.current⟩)
  | .store => (.done, w)
  | .get cluster =>
    (.entry (readLE w.array (fatWord shape cluster) 4), ⟨w.array, fatSector shape cluster⟩)
  | .set cluster value =>
    (.done, ⟨writeLE w.array (fatWord shape cluster) 4 value, fatSector shape cluster⟩)

def flatRun (shape : TFShape) : List CacheOp → FlatStore → List CacheOut × FlatStore
  | [], w => ([], w)
  | op :: ops, w =>
    let (out, w') := op.flat shape w
    let (outs, w'') := flatRun shape ops w'
    (out :: outs, w'')

/-! ## The simulation -/

/-- The same bytes in every sector but those of `X`. -/
def EqOff (X : Nat → Prop) (v w : Mem) : Prop := ∀ b, ¬ X (b / 512) → v b = w b

theorem EqOff.trans {X : Nat → Prop} {u v w : Mem} (h : EqOff X u v) (h' : EqOff X v w) :
    EqOff X u w := fun b hb => (h b hb).trans (h' b hb)

/-- The cache holds what flat storage holds, less the sectors of `X`. -/
structure Mirrors (X : Nat → Prop) (s : Fat32) (w : FlatStore) : Prop where
  current : w.current = s.info.currentSector
  volume : EqOff X s.volume w.array
  clean : s.info.dirty = false → EqOff X s.disk s.volume

variable {X : Nat → Prop} {s : Fat32} {w : FlatStore}

theorem Mirrors.storeDirty (h : Mirrors X s w) :
    ∃ t, storeDirty s = .ok () t ∧ EqOff X t.disk w.array ∧ t.info.shape = s.info.shape := by
  cases hd : s.info.dirty with
  | true =>
    refine ⟨{ s with
      disk := s.volume
      info := { s.info with dirty := false } }, ?_, h.volume, rfl⟩
    simp only [PageFaultOS.storeDirty, read_bind, hd, if_true]
    rfl
  | false =>
    refine ⟨s, ?_, (h.clean hd).trans h.volume, rfl⟩
    simp only [PageFaultOS.storeDirty, read_bind, hd, Bool.false_eq_true, if_false, pure_apply]

/-- Fetching a sector leaves what is stored as it is, and brings the sector into the buffer. -/
theorem Mirrors.fetch (h : Mirrors X s w) {sector : Nat} (hX : ¬ X sector) :
    ∃ t, tfFetch sector s = .ok () t ∧ Mirrors X t ⟨w.array, sector⟩ ∧
      t.info.shape = s.info.shape ∧
      ∀ i < 512, t.info.buffer i = w.array (sector * 512 + i) := by
  by_cases hcur : sector = s.info.currentSector
  · refine ⟨s, ?_, ⟨hcur, h.volume, h.clean⟩, rfl, fun i hi => ?_⟩
    · simp only [tfFetch, read_bind, hcur, if_true, pure_apply]
    · rw [← s.volume_buffer hi, ← hcur]
      exact h.volume _ (by rwa [show (sector * 512 + i) / 512 = sector by omega])
  · obtain ⟨t, hrun, hdisk, hshape⟩ := h.storeDirty
    have hvol : writeSector t.disk (readSector t.disk sector) sector = t.disk :=
      writeSector_readSector t.disk sector
    refine ⟨{ t with info := { t.info with
        buffer := readSector t.disk sector, currentSector := sector } }, ?_,
      ⟨rfl, ?_, fun _ => ?_⟩, hshape, fun i hi => ?_⟩
    · simp only [tfFetch, read_bind, hcur, if_false]
      rw [bind_ok hrun]
      rfl
    · show EqOff X (writeSector t.disk (readSector t.disk sector) sector) w.array
      rw [hvol]
      exact hdisk
    · show EqOff X t.disk (writeSector t.disk (readSector t.disk sector) sector)
      rw [hvol]
      exact fun b _ => rfl
    · exact hdisk _ (by rwa [show (sector * 512 + i) / 512 = sector by omega])

theorem eqOff_writeLE {v v' : Mem} (h : EqOff X v v') (a n value : Nat) :
    EqOff X (writeLE v a n value) (writeLE v' a n value) := by
  intro b hb
  unfold writeLE
  split
  · rfl
  · exact h b hb

theorem eqOff_store {v v' : Mem} (h : EqOff X v v') (a : Nat) (bytes : List UInt8) :
    EqOff X (ByteMem.store v a bytes) (ByteMem.store v' a bytes) := by
  intro b hb
  simp only [ByteMem.store, h b hb]

/-- Bytes put into the sector in memory are bytes of the volume. -/
theorem writeSector_store (s : Fat32) {off : Nat} {bytes : List UInt8}
    (hoff : off + bytes.length ≤ 512) :
    writeSector s.disk (ByteMem.store s.info.buffer off bytes) s.info.currentSector =
      ByteMem.store s.volume (s.info.currentSector * 512 + off) bytes := by
  funext b
  by_cases hb : b / 512 = s.info.currentSector
  · obtain ⟨i, hi, rfl⟩ : ∃ i < 512, b = s.info.currentSector * 512 + i :=
      ⟨b % 512, Nat.mod_lt _ (by decide), by omega⟩
    rw [writeSector_apply _ _ _ hi, ByteMem.store, ByteMem.store, s.volume_buffer hi]
    by_cases hin : off ≤ i
    · rw [if_pos hin, if_pos (by omega), Nat.add_sub_add_left]
    · rw [if_neg hin, if_neg (by omega)]
  · have hout : b < s.info.currentSector * 512 + off ∨
        s.info.currentSector * 512 + off + bytes.length ≤ b := by omega
    rw [store_apply_of_outside _ _ _ _ hout, writeSector, if_neg hb, Fat32.volume, writeSector,
      if_neg hb]

/-- What is in the buffer after a change in place. -/
theorem Mirrors.edit (h : Mirrors X s w) {off : Nat} {bytes : List UInt8}
    (hoff : off + bytes.length ≤ 512) :
    Mirrors X { s with info := { s.info with
        dirty := true, buffer := ByteMem.store s.info.buffer off bytes } }
      ⟨ByteMem.store w.array (w.current * 512 + off) bytes, w.current⟩ := by
  refine ⟨h.current, ?_, fun hd => by cases hd⟩
  show EqOff X (writeSector s.disk (ByteMem.store s.info.buffer off bytes)
    s.info.currentSector) _
  rw [writeSector_store s hoff, h.current]
  exact eqOff_store h.volume _ bytes

/-- `tf_store` brings the device up to date. -/
theorem Mirrors.store (h : Mirrors X s w) :
    ∃ t, tfStore s = .ok () t ∧ Mirrors X t w ∧ t.info.shape = s.info.shape ∧
      EqOff X t.disk w.array := by
  have hvol : writeSector s.volume s.info.buffer s.info.currentSector = s.volume :=
    writeSector_twice s.disk s.info.buffer s.info.currentSector
  refine ⟨_, rfl, ⟨h.current, ?_, fun _ => ?_⟩, rfl, h.volume⟩
  · show EqOff X (writeSector s.volume s.info.buffer s.info.currentSector) w.array
    rw [hvol]
    exact h.volume
  · show EqOff X s.volume (writeSector s.volume s.info.buffer s.info.currentSector)
    rw [hvol]
    exact fun b _ => rfl

/-! ## The FAT -/

variable {shape : TFShape} {cluster : Nat}

theorem fatSector_eq (hres : shape.reservedSectors < 2 ^ 16) (hc : cluster < 2 ^ 28) :
    u32 (shape.reservedSectors + u32 (cluster * 4) / 512) = fatSector shape cluster := by
  rw [u32, u32, fatSector]
  omega

theorem fatSector_ne (hres : shape.reservedSectors < 2 ^ 16) (hc : cluster < 2 ^ 28) :
    fatSector shape cluster ≠ noSector := by
  rw [fatSector, noSector]
  omega

theorem fatSector_word (shape : TFShape) (cluster : Nat) :
    fatSector shape cluster * 512 + u32 (cluster * 4) % 512 = fatWord shape cluster := by
  rw [fatSector, fatWord, u32]
  omega

/-- The entry in the buffer is the word of the FAT. -/
theorem Mirrors.fatEntry (h : Mirrors X s w) (hres : s.info.shape.reservedSectors < 2 ^ 16)
    (hc : cluster < 2 ^ 28) (hX : ¬ X (fatSector s.info.shape cluster)) :
    ∃ t, tfFetch (u32 (s.info.shape.reservedSectors + u32 (cluster * 4) / 512)) s = .ok () t ∧
      Mirrors X t ⟨w.array, fatSector s.info.shape cluster⟩ ∧ t.info.shape = s.info.shape ∧
      readLE t.info.buffer (u32 (cluster * 4) % 512) 4 =
        readLE w.array (fatWord s.info.shape cluster) 4 := by
  obtain ⟨t, hrun, hmirrors, hshape, hbuffer⟩ := h.fetch hX
  rw [← fatSector_eq hres hc] at hrun
  refine ⟨t, hrun, hmirrors, hshape, readLE_shift fun i hi => ?_⟩
  have hoff := fat_offset_lt cluster
  rw [hbuffer _ (by omega), ← fatSector_word, Nat.add_assoc]

theorem Mirrors.get (h : Mirrors X s w) (hres : s.info.shape.reservedSectors < 2 ^ 16)
    (hc : cluster < 2 ^ 28) (hX : ¬ X (fatSector s.info.shape cluster)) :
    ∃ t, tfGetFatEntry cluster s =
        .ok (readLE w.array (fatWord s.info.shape cluster) 4) t ∧
      Mirrors X t ⟨w.array, fatSector s.info.shape cluster⟩ ∧ t.info.shape = s.info.shape := by
  obtain ⟨t, hrun, hmirrors, hshape, hvalue⟩ := h.fatEntry hres hc hX
  refine ⟨t, ?_, hmirrors, hshape⟩
  simp only [tfGetFatEntry, read_bind]
  rw [bind_ok hrun, read_bind, hvalue]
  rfl

theorem Mirrors.set (h : Mirrors X s w) (hres : s.info.shape.reservedSectors < 2 ^ 16)
    (hc : cluster < 2 ^ 28) (hX : ¬ X (fatSector s.info.shape cluster)) (value : Nat) :
    ∃ t, tfSetFatEntry cluster value s = .ok () t ∧
      Mirrors X t ⟨writeLE w.array (fatWord s.info.shape cluster) 4 value,
        fatSector s.info.shape cluster⟩ ∧ t.info.shape = s.info.shape := by
  obtain ⟨t, hrun, hmirrors, hshape, hentry⟩ := h.fatEntry hres hc hX
  have hoff := fat_offset_lt cluster
  unfold tfSetFatEntry
  simp only [read_bind]
  rw [bind_ok hrun, read_bind]
  by_cases hvalue : readLE t.info.buffer (u32 (cluster * 4) % 512) 4 ≠ value
  · rw [if_pos hvalue]
    refine ⟨_, rfl, ⟨hmirrors.current, ?_, fun hd => by cases hd⟩, hshape⟩
    show EqOff X (writeSector t.disk (writeLE t.info.buffer (u32 (cluster * 4) % 512) 4 value)
      t.info.currentSector) _
    rw [writeSector_writeLE t value hoff, ← hmirrors.current, fatSector_word]
    exact eqOff_writeLE hmirrors.volume _ 4 value
  · -- the write that is left out would not change the array
    rw [if_neg hvalue]
    refine ⟨t, rfl, ?_, hshape⟩
    rw [← not_not.mp hvalue, hentry, writeLE_readLE]
    exact hmirrors

/-! ## Runs -/

theorem Mirrors.op (h : Mirrors X s w) (hres : s.info.shape.reservedSectors < 2 ^ 16)
    (hX : ∀ n, X n → n = noSector) {op : CacheOp} (hvalid : op.Valid) :
    ∃ t, op.run s = .ok (op.flat s.info.shape w).1 t ∧
      Mirrors X t (op.flat s.info.shape w).2 ∧ t.info.shape = s.info.shape := by
  cases op with
  | fetch sector =>
    obtain ⟨t, hrun, hmirrors, hshape, hbuffer⟩ := h.fetch fun hn => hvalid.2 (hX _ hn)
    refine ⟨t, ?_, hmirrors, hshape⟩
    have hload : load t.info.buffer 0 512 = load w.array (sector * 512) 512 := by
      refine List.map_congr_left fun i hi => ?_
      rw [Nat.zero_add]
      exact hbuffer i (List.mem_range.mp hi)
    show ((tfFetch sector >>= fun _ => Comp.read >>= fun s =>
      pure (CacheOut.sector (load s.info.buffer 0 512))) : FsComp CacheOut) s = _
    rw [bind_ok hrun, read_bind, hload]
    rfl
  | edit off bytes => exact ⟨_, rfl, h.edit hvalid, rfl⟩
  | store =>
    obtain ⟨t, hrun, hmirrors, hshape, -⟩ := h.store
    exact ⟨t, bind_ok hrun _, hmirrors, hshape⟩
  | get cluster =>
    obtain ⟨t, hrun, hmirrors, hshape⟩ :=
      h.get hres hvalid fun hn => fatSector_ne hres hvalid (hX _ hn)
    exact ⟨t, bind_ok hrun _, hmirrors, hshape⟩
  | set cluster value =>
    obtain ⟨t, hrun, hmirrors, hshape⟩ :=
      h.set hres hvalid.1 (fun hn => fatSector_ne hres hvalid.1 (hX _ hn)) value
    exact ⟨t, bind_ok hrun _, hmirrors, hshape⟩

theorem Mirrors.run (hX : ∀ n, X n → n = noSector) (ops : List CacheOp) (h : Mirrors X s w)
    (hres : s.info.shape.reservedSectors < 2 ^ 16) (hvalid : ∀ op ∈ ops, op.Valid) :
    ∃ t, cacheRun ops s = .ok (flatRun s.info.shape ops w).1 t ∧
      Mirrors X t (flatRun s.info.shape ops w).2 := by
  induction ops generalizing s w with
  | nil => exact ⟨s, rfl, h⟩
  | cons op ops ih =>
    obtain ⟨t, hrun, hmirrors, hshape⟩ := h.op hres hX (hvalid op List.mem_cons_self)
    obtain ⟨u, hrest, hend⟩ := ih hmirrors (by rw [hshape]; exact hres)
      fun o ho => hvalid o (List.mem_cons_of_mem _ ho)
    rw [hshape] at hrest hend
    refine ⟨u, ?_, hend⟩
    rw [cacheRun, bind_ok hrun, bind_ok hrest]
    rfl

theorem mirrors_start (hX : ¬ X s.info.currentSector → s.volume = s.disk) :
    Mirrors X s ⟨s.disk, s.info.currentSector⟩ := by
  have hvol : EqOff X s.volume s.disk := by
    intro b hb
    by_cases hcur : b / 512 = s.info.currentSector
    · rw [hX (hcur ▸ hb)]
    · exact if_neg hcur
  exact ⟨rfl, hvol, fun _ b hb => (hvol b hb).symm⟩

/-- From where `tf_init` has set up the cache, or has fetched a sector: every run shows what
flat storage shows, and after `tf_store` the device is the array. As long as no sector has
been fetched the buffer belongs to the number `noSector`, which is not one of the array. -/
theorem cache_refines_flat (s : Fat32) (ops : List CacheOp)
    (hres : s.info.shape.reservedSectors < 2 ^ 16)
    (hstart : s.info.currentSector = noSector ∨ s.volume = s.disk)
    (hvalid : ∀ op ∈ ops, op.Valid) :
    ∃ t, cacheRun ops s =
        .ok (flatRun s.info.shape ops ⟨s.disk, s.info.currentSector⟩).1 t ∧
      ∃ u, tfStore t = .ok () u ∧
        (∀ b, b / 512 ≠ noSector →
          u.disk b = (flatRun s.info.shape ops ⟨s.disk, s.info.currentSector⟩).2.array b) ∧
        (s.volume = s.disk →
          u.disk = (flatRun s.info.shape ops ⟨s.disk, s.info.currentSector⟩).2.array) := by
  have hfrom : Mirrors (· = noSector) s ⟨s.disk, s.info.currentSector⟩ :=
    mirrors_start fun hn => hstart.resolve_left hn
  obtain ⟨t, hrun, hmirrors⟩ := hfrom.run (fun _ hn => hn) ops hres hvalid
  obtain ⟨u, hstore, -, -, hdisk⟩ := hmirrors.store
  refine ⟨t, hrun, u, hstore, hdisk, fun hvol => ?_⟩
  -- where the buffer is a sector of the device, no sector is left out
  have hall : Mirrors (fun _ => False) s ⟨s.disk, s.info.currentSector⟩ :=
    mirrors_start fun _ => hvol
  obtain ⟨t', hrun', hmirrors'⟩ := hall.run (fun _ hn => hn.elim) ops hres hvalid
  rw [hrun] at hrun'
  cases hrun'
  obtain ⟨u', hstore', -, -, hdisk'⟩ := hmirrors'.store
  rw [hstore] at hstore'
  cases hstore'
  exact funext fun b => hdisk' b not_false

/-- A volume with one reserved sector, before the first fetch. -/
def freshCache : Fat32 :=
  { blankVolume with
    info := ⟨⟨1, 8, 64, 1⟩, noSector, false, fun _ => 0xff⟩
    disk := fun b => if b = 516 then 7 else 0 }

/-- Another sector of the FAT is fetched between the change of an entry and its reading. -/
def fatRun : List CacheOp := [.get 1, .set 1 9, .get 200, .get 1]

theorem cache_refines_flat_fat :
    ∃ t, cacheRun fatRun freshCache = .ok [.entry 7, .done, .entry 0, .entry 9] t ∧
      ∃ u, tfStore t = .ok () u ∧
        (∀ b, b / 512 ≠ noSector → u.disk b = (flatRun freshCache.info.shape fatRun
          ⟨freshCache.disk, noSector⟩).2.array b) ∧
        (freshCache.volume = freshCache.disk → u.disk = (flatRun freshCache.info.shape fatRun
          ⟨freshCache.disk, noSector⟩).2.array) :=
  cache_refines_flat freshCache fatRun (by decide) (Or.inl rfl)
    (by simp [fatRun, CacheOp.Valid])

end PageFaultOS
