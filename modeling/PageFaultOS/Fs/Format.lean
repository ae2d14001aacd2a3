import Mathlib.Tactic
import PageFaultOS.Fs.Init

/-! The formatters of `fs/fat32.cpp`: `tf_initializeMedia`, and `tf_initializeMediaNoBlock`, which
is called again and again and clears up to 100 sectors of each half in a call. What they write
from the boot sector to the root directory is the same text in both. -/

namespace PageFaultOS
open Exec Exec.Comp ByteMem

/-- The device, and the `static` variables of `tf_initializeMediaNoBlock`. -/
structure Media where
  disk : Mem
  scl : Nat
  ssa : Nat
  sectorsPerCluster : Nat

abbrev MediaComp := Comp Media

/-- `write_sector` of a buffer on the stack. -/
def putSector (buf : Mem) (sector : Nat) : MediaComp Unit :=
  modify fun s => { s with disk := writeSector s.disk buf sector }

def zeroBuf : Mem := fun _ => 0

/-- `" mkdosfs"` and `"FAT32   "`. -/
def oemName : List UInt8 := [0x20, 0x6d, 0x6b, 0x64, 0x6f, 0x73, 0x66, 0x73]

def fat32Name : List UInt8 := [0x46, 0x41, 0x54, 0x33, 0x32, 0x20, 0x20, 0x20]

/-- The code in the boot sector, with its message. -/
def bootCode : List UInt8 := [
  0x0e, 0x1f, 0xbe, 0x77, 0x7c, 0xac, 0x22, 0xc0, 0x74, 0x0b, 0x56, 0xb4, 0x0e, 0xbb, 0x07, 0x00,
  0xcd, 0x10, 0x5e, 0xeb, 0xf0, 0x32, 0xe4, 0xcd, 0x17, 0xcd, 0x19, 0xeb, 0xfe, 0x54, 0x68, 0x69,
  0x73, 0x20, 0x69, 0x73, 0x20, 0x6e, 0x6f, 0x74, 0x20, 0x61, 0x20, 0x62, 0x6f, 0x6f, 0x74, 0x61,
  0x62, 0x6c, 0x65, 0x20, 0x64, 0x69, 0x73, 0x6b, 0x2e, 0x20, 0x20, 0x50, 0x6c, 0x65, 0x61, 0x73,
  0x65, 0x20, 0x69, 0x6e, 0x73, 0x65, 0x72, 0x74, 0x20, 0x61, 0x20, 0x62, 0x6f, 0x6f, 0x74, 0x61,
  0x62, 0x6c, 0x65, 0x20, 0x66, 0x6c, 0x6f, 0x70, 0x70, 0x79, 0x20, 0x61, 0x6e, 0x64, 0x0d, 0x0a,
  0x70, 0x72, 0x65, 0x73, 0x73, 0x20, 0x61, 0x6e, 0x79, 0x20, 0x6b, 0x65, 0x79, 0x20, 0x74, 0x6f,
  0x20, 0x74, 0x72, 0x79, 0x20, 0x61, 0x67, 0x61, 0x69, 0x6e, 0x20, 0x2e, 0x2e, 0x2e, 0x20, 0x0d,
  0x0a]

/-- `FATSize` of the new volume. -/
def mediaFatSize (totalSectors : BitVec 32) : Nat := totalSectors.toNat / 4095

/-- `sectorBuf0`, with the fields that are not zero in their places. -/
def bootBuf (totalSectors : BitVec 32) : Mem :=
  let buf := store zeroBuf 0 ([0xEB, 0x58, 0x90] ++ oemName)
  let buf := writeLE buf 11 2 0x200
  let buf := writeLE buf 13 1 32
  let buf := writeLE buf 14 2 32
  let buf := writeLE buf 16 1 2
  let buf := writeLE buf 21 1 0xf8
  let buf := writeLE buf 24 2 32
  let buf := writeLE buf 26 2 64
  let buf := writeLE buf 32 4 totalSectors.toNat
  let buf := writeLE buf 36 4 (mediaFatSize totalSectors)
  let buf := writeLE buf 44 4 2
  let buf := writeLE buf 48 2 1
  let buf := writeLE buf 50 2 6
  let buf := writeLE buf 66 1 0x29
  let buf := writeLE buf 67 4 0xf358ddc1
  let buf := fill buf 71 11 0x20
  let buf := store buf 82 fat32Name
  let buf := store buf 0x5a bootCode
  store buf 0x1fe [0x55, 0xAA]

/-- The `FSInfo` sector. -/
def fsInfoBuf : Mem :=
  let buf := writeLE zeroBuf 0 4 0x41615252
  let buf := writeLE buf 0x1e4 4 0x61417272
  let buf := writeLE buf 0x1e8 4 0xffffffff
  let buf := writeLE buf 0x1ec 4 0xffffffff
  writeLE buf 0x1fc 4 0xaa550000

/-- The first sector of the FAT. -/
def fatBuf : Mem :=
  let buf := writeLE zeroBuf 0 4 0x0ffffff8
  let buf := writeLE buf 4 4 0x0fffffff
  writeLE buf 8 4 0x0ffffff8

/-- `ssa`, the sector behind the two FATs. -/
def mediaSsa (totalSectors : BitVec 32) : Nat := u32 (u32 (2 * mediaFatSize totalSectors) + 32)

/-- One round of `for (scl = ssa + bpb.SectorsPerCluster; scl >= ssa; scl--)`. -/
def wipeRound (ssa scl : Nat) : MediaComp (Nat ⊕ Unit) := do
  if ssa ≤ scl then do
    putSector zeroBuf scl
    pure (.inl (u32 (scl + (2 ^ 32 - 1))))
  else
    pure (.inr ())

/-- From the boot sector to the root directory. -/
def putMetadata (totalSectors : BitVec 32) : MediaComp Unit := do
  putSector (bootBuf totalSectors) 0
  putSector fsInfoBuf 1
  forEach (List.range' 2 30) (putSector zeroBuf)
  putSector (bootBuf totalSectors) 6
  let ssa := mediaSsa totalSectors
  loop (wipeRound ssa) fileRounds (u32 (ssa + 32))

/-- The loop over the two halves, from `scl` up to `stop`. -/
def clearHalves (ssa scl stop : Nat) : MediaComp Unit :=
  forEach (List.range' scl (stop - scl)) fun scl => do
    putSector zeroBuf scl
    putSector zeroBuf (u32 (scl + ssa / 2))

def tfInitializeMedia (totalSectors : BitVec 32) : MediaComp Nat := do
  putMetadata totalSectors
  let ssa := mediaSsa totalSectors
  clearHalves ssa 32 (ssa / 2)
  putSector fatBuf 32
  pure 0

def tfInitializeMediaNoBlock (totalSectors : BitVec 32) (start : Bool) : MediaComp Bool := do
  if start then do
    modify fun s => { s with sectorsPerCluster := 32, ssa := mediaSsa totalSectors }
    putMetadata totalSectors
    modify fun s => { s with scl := 32 }
    pure true
  else do
    let s ← read
    let stop := if s.ssa / 2 ≤ u32 (s.scl + 100) then s.ssa / 2 else u32 (s.scl + 100)
    clearHalves s.ssa s.scl stop
    modify fun s => { s with scl := max s.scl stop }
    let s ← read
    if s.scl < s.ssa / 2 then
      pure false
    else do
      putSector fatBuf s.sectorsPerCluster
      pure true

def formatRound (totalSectors : BitVec 32) (_ : Unit) : MediaComp (Unit ⊕ Unit) := do
  let done ← tfInitializeMediaNoBlock totalSectors false
  pure (if done then .inr () else .inl ())

/-- Up to `n` calls with `start = 0`, the last of them the first that returns `true`. -/
def formatOn (totalSectors : BitVec 32) (n : Nat) : MediaComp Unit :=
  loop (formatRound totalSectors) n ()

/-! ## What the loops clear -/

/-- The sectors of `P` are zero. -/
def cleared (P : Nat → Bool) (disk : Mem) : Mem := fun a => if P (a / 512) then 0 else disk a

def Media.clear (s : Media) (P : Nat → Bool) : Media := { s with disk := cleared P s.disk }

theorem cleared_cleared (P Q : Nat → Bool) (disk : Mem) :
    cleared Q (cleared P disk) = cleared (fun n => P n || Q n) disk := by
  funext a
  by_cases hp : P (a / 512) <;> by_cases hq : Q (a / 512) <;> simp [cleared, hp, hq]

theorem Media.clear_clear (s : Media) (P Q : Nat → Bool) :
    (s.clear P).clear Q = s.clear fun n => P n || Q n :=
  congrArg (fun d => { s with disk := d }) (cleared_cleared P Q s.disk)

theorem Media.clear_none (s : Media) : s.clear (fun _ => false) = s := rfl

theorem putSector_zero (sector : Nat) (s : Media) :
    putSector zeroBuf sector s = .ok () (s.clear fun n => n = sector) := by
  have hdisk : writeSector s.disk zeroBuf sector = cleared (fun n => n = sector) s.disk := by
    funext a
    by_cases ha : a / 512 = sector <;> simp [writeSector, cleared, zeroBuf, ha]
  exact congrArg (fun d => Res.ok () { s with disk := d }) hdisk

/-- A loop whose rounds clear sectors. -/
theorem forEach_clears {f : Nat → MediaComp Unit} {P : Nat → Nat → Bool} {l : List Nat}
    (h : ∀ i ∈ l, ∀ s, f i s = .ok () (s.clear (P i))) (s : Media) :
    forEach l f s = .ok () (s.clear fun n => l.any fun i => P i n) := by
  induction l generalizing s with
  | nil => rfl
  | cons i l ih =>
    show (f i >>= fun _ => forEach l f) s = _
    rw [bind_ok (h i List.mem_cons_self s), ih fun j hj => h j (List.mem_cons_of_mem _ hj)]
    rw [Media.clear_clear]
    simp only [List.any_cons]

/-- The loop downwards clears `k` sectors from `ssa` on. -/
theorem wipe_run {ssa : Nat} (hpos : 0 < ssa) :
    ∀ (k n scl : Nat) (s : Media), k < n → scl + 1 = ssa + k → scl < 2 ^ 32 →
      loop (wipeRound ssa) n scl s = .ok () (s.clear fun n => ssa ≤ n ∧ n < ssa + k) := by
  intro k
  induction k with
  | zero =>
    intro n scl s hn hscl _
    obtain ⟨m, rfl⟩ : ∃ m, n = m + 1 := ⟨n - 1, by omega⟩
    have hround : wipeRound ssa scl s = .ok (.inr ()) s := by
      rw [wipeRound, if_neg (by omega)]
      rfl
    have hnone : (fun n => decide (ssa ≤ n ∧ n < ssa + 0)) = fun _ => false := by
      funext n
      simp
    rw [loop_done hround, hnone, Media.clear_none]
  | succ k ih =>
    intro n scl s hn hscl hlt
    obtain ⟨m, rfl⟩ : ∃ m, n = m + 1 := ⟨n - 1, by omega⟩
    have hprev : u32 (scl + (2 ^ 32 - 1)) = scl - 1 := by
      rw [u32]
      omega
    have hround : wipeRound ssa scl s = .ok (.inl (scl - 1)) (s.clear fun n => n = scl) := by
      rw [wipeRound, if_pos (by omega), bind_ok (putSector_zero scl s), hprev]
      rfl
    have hmore : (fun n => decide (n = scl) || decide (ssa ≤ n ∧ n < ssa + k)) =
        fun n => decide (ssa ≤ n ∧ n < ssa + (k + 1)) := by
      funext n
      rw [← Bool.decide_or, decide_eq_decide]
      omega
    rw [loop_again hround, ih m (scl - 1) _ (by omega) (by omega) (by omega), Media.clear_clear,
      hmore]

/-- The sectors of both halves that a loop from `scl` to `stop` clears. -/
def halves (ssa scl stop : Nat) : Nat → Bool := fun n =>
  (scl ≤ n ∧ n < stop) ∨ (scl + ssa / 2 ≤ n ∧ n < stop + ssa / 2)

theorem clearHalves_run {ssa scl stop : Nat} (hfits : stop + ssa / 2 < 2 ^ 32) (s : Media) :
    clearHalves ssa scl stop s = .ok () (s.clear (halves ssa scl stop)) := by
  have hround : ∀ i ∈ List.range' scl (stop - scl), ∀ s : Media,
      (putSector zeroBuf i >>= fun _ => putSector zeroBuf (u32 (i + ssa / 2))) s =
        .ok () (s.clear fun n => decide (n = i) || decide (n = i + ssa / 2)) := by
    intro i hi s
    have hi := List.mem_range'_1.mp hi
    have hsum : u32 (i + ssa / 2) = i + ssa / 2 := by
      rw [u32]
      omega
    rw [bind_ok (putSector_zero i s), putSector_zero, hsum, Media.clear_clear]
  have hall : (fun n => (List.range' scl (stop - scl)).any fun i =>
      decide (n = i) || decide (n = i + ssa / 2)) = halves ssa scl stop := by
    funext n
    rw [Bool.eq_iff_iff, List.any_eq_true, halves, decide_eq_true_iff]
    constructor
    · rintro ⟨i, hi, hn⟩
      have hi := List.mem_range'_1.mp hi
      simp only [Bool.or_eq_true, decide_eq_true_eq] at hn
      omega
    · rintro (hn | hn)
      · exact ⟨n, List.mem_range'_1.mpr (by omega), by simp⟩
      · exact ⟨n - ssa / 2, List.mem_range'_1.mpr (by omega), by
          rw [Bool.or_eq_true, decide_eq_true_eq, decide_eq_true_eq]
          omega⟩
  rw [clearHalves, forEach_clears hround, hall]

variable {ssa scl stop : Nat}

/-- One loop after another. -/
theorem halves_append {last : Nat} (hle : scl ≤ stop) (hle' : stop ≤ last) :
    (fun n => halves ssa scl stop n || halves ssa stop last n) = halves ssa scl last := by
  funext n
  rw [halves, halves, halves, ← Bool.decide_or, decide_eq_decide]
  omega

/-! ## What the formatters write -/

variable (totalSectors : BitVec 32)

theorem mediaFatSize_le : mediaFatSize totalSectors ≤ 1048832 := by
  have hlt := totalSectors.isLt
  rw [mediaFatSize]
  omega

theorem mediaSsa_eq : mediaSsa totalSectors = 2 * mediaFatSize totalSectors + 32 := by
  have hle := mediaFatSize_le totalSectors
  rw [mediaSsa, u32, u32]
  omega

/-- The device, up to the root directory. -/
def metadataDisk (disk : Mem) : Mem :=
  let ssa := mediaSsa totalSectors
  let disk := writeSector (writeSector disk (bootBuf totalSectors) 0) fsInfoBuf 1
  let disk := writeSector (cleared (fun n => 2 ≤ n ∧ n < 32) disk) (bootBuf totalSectors) 6
  cleared (fun n => ssa ≤ n ∧ n < ssa + 33) disk

theorem putMetadata_run (s : Media) : putMetadata totalSectors s =
    .ok () { s with disk := metadataDisk totalSectors s.disk } := by
  have hle := mediaFatSize_le totalSectors
  have hssa := mediaSsa_eq totalSectors
  have hstart : u32 (mediaSsa totalSectors + 32) = mediaSsa totalSectors + 32 := by
    rw [u32]
    omega
  have hrange : (fun n => (List.range' 2 30).any fun i => decide (n = i)) =
      fun n => decide (2 ≤ n ∧ n < 32) := by
    funext n
    rw [Bool.eq_iff_iff, List.any_eq_true, decide_eq_true_iff]
    simp only [decide_eq_true_eq, exists_eq_right', List.mem_range'_1]
  have hzero : ∀ s : Media, forEach (List.range' 2 30) (putSector zeroBuf) s =
      .ok () (s.clear fun n => 2 ≤ n ∧ n < 32) := fun s => by
    rw [forEach_clears (fun i _ => putSector_zero i) s, hrange]
  have hwipe : ∀ s : Media,
      loop (wipeRound (mediaSsa totalSectors)) fileRounds (mediaSsa totalSectors + 32) s =
        .ok () (s.clear fun n => mediaSsa totalSectors ≤ n ∧ n < mediaSsa totalSectors + 33) :=
    fun s => wipe_run (by omega) 33 _ _ s (by decide) (by omega) (by omega)
  unfold putMetadata
  rw [putSector, modify_bind, putSector, modify_bind, bind_ok (hzero _), putSector, modify_bind]
  show loop (wipeRound (mediaSsa totalSectors)) fileRounds (u32 (mediaSsa totalSectors + 32)) _ = _
  rw [hstart, hwipe]
  rfl

/-- The device after all. -/
def formattedDisk (disk : Mem) : Mem :=
  let ssa := mediaSsa totalSectors
  writeSector (cleared (halves ssa 32 (ssa / 2)) (metadataDisk totalSectors disk)) fatBuf 32

theorem tfInitializeMedia_run (s : Media) : tfInitializeMedia totalSectors s =
    .ok 0 { s with disk := formattedDisk totalSectors s.disk } := by
  have hle := mediaFatSize_le totalSectors
  have hssa := mediaSsa_eq totalSectors
  unfold tfInitializeMedia
  rw [bind_ok (putMetadata_run totalSectors s)]
  rw [bind_ok (clearHalves_run (by omega) _)]
  rfl

/-! ## Call after call -/

theorem noBlock_start (s : Media) : tfInitializeMediaNoBlock totalSectors true s =
    .ok true ⟨metadataDisk totalSectors s.disk, 32, mediaSsa totalSectors, 32⟩ := by
  show (putMetadata totalSectors >>= _) _ = _
  rw [bind_ok (putMetadata_run totalSectors _)]
  rfl

/-- Where the loop of a call stops. -/
def Media.batchEnd (s : Media) : Nat := min (s.scl + 100) (s.ssa / 2)

/-- What the loop of a call leaves. -/
def Media.batch (s : Media) : Media :=
  { s.clear (halves s.ssa s.scl s.batchEnd) with scl := max s.scl s.batchEnd }

theorem noBlock_run {s : Media} (hscl : s.scl + 100 < 2 ^ 32) (hssa : s.ssa < 2 ^ 32) :
    tfInitializeMediaNoBlock totalSectors false s =
      if s.batch.scl < s.ssa / 2 then .ok false s.batch
      else .ok true { s.batch with
        disk := writeSector s.batch.disk fatBuf s.sectorsPerCluster } := by
  have hnext : u32 (s.scl + 100) = s.scl + 100 := by
    rw [u32]
    omega
  have hstop : (if s.ssa / 2 ≤ s.scl + 100 then s.ssa / 2 else s.scl + 100) = s.batchEnd := by
    rw [Media.batchEnd, Nat.min_def]
    split <;> split <;> omega
  have hle : s.batchEnd ≤ s.ssa / 2 := Nat.min_le_right ..
  have hclear : clearHalves s.ssa s.scl s.batchEnd s = .ok () (s.clear _) :=
    clearHalves_run (by omega) s
  show (clearHalves s.ssa s.scl
    (if s.ssa / 2 ≤ u32 (s.scl + 100) then s.ssa / 2 else u32 (s.scl + 100)) >>= _) s = _
  rw [hnext, hstop, bind_ok hclear, modify_bind, read_bind]
  show (if s.batch.scl < s.ssa / 2 then _ else _ : MediaComp Bool) s.batch = _
  split <;> rfl

/-- The calls come to an end, and then all is cleared that one loop would have cleared. -/
theorem formatOn_run {s : Media} (hssa : s.ssa < 2 ^ 31) (hscl : s.scl ≤ max 32 (s.ssa / 2)) :
    ∃ n t, formatOn totalSectors n s = .ok () t ∧
      t.disk = writeSector (cleared (halves s.ssa s.scl (s.ssa / 2)) s.disk) fatBuf
        s.sectorsPerCluster := by
  induction hm : s.ssa / 2 - s.scl using Nat.strong_induction_on generalizing s with
  | _ m ih =>
    have hcall := noBlock_run totalSectors (s := s) (by omega) (by omega)
    have hbatch : s.batch.scl = max s.scl (min (s.scl + 100) (s.ssa / 2)) := rfl
    have hend : s.batchEnd = min (s.scl + 100) (s.ssa / 2) := rfl
    by_cases hmore : s.batch.scl < s.ssa / 2
    · rw [if_pos hmore] at hcall
      have hround : formatRound totalSectors () s = .ok (.inl ()) s.batch := bind_ok hcall _
      obtain ⟨n, t, hrun, hdisk⟩ := ih (s.ssa / 2 - s.batch.scl) (by omega) (s := s.batch) hssa
        (le_max_of_le_right hmore.le) rfl
      refine ⟨n + 1, t, (loop_again hround n).trans hrun, ?_⟩
      have hnext : s.batch.scl = s.batchEnd := by omega
      rw [hdisk, hnext]
      show writeSector (cleared (halves s.ssa s.batchEnd (s.ssa / 2))
        (cleared (halves s.ssa s.scl s.batchEnd) s.disk)) fatBuf s.sectorsPerCluster = _
      rw [cleared_cleared, halves_append (by omega) (by omega)]
    · rw [if_neg hmore] at hcall
      have hround : formatRound totalSectors () s = .ok (.inr ()) { s.batch with
          disk := writeSector s.batch.disk fatBuf s.sectorsPerCluster } := bind_ok hcall _
      refine ⟨1, _, loop_done hround 0, ?_⟩
      have hlast : s.batchEnd = s.ssa / 2 := by omega
      show writeSector (cleared (halves s.ssa s.scl s.batchEnd) s.disk) fatBuf _ = _
      rw [hlast]

/-- For every size and whatever was on the device, the calls of `tf_initializeMediaNoBlock` come
to an end and leave on it what `tf_initializeMedia` does. -/
theorem noBlock_formats (totalSectors : BitVec 32) (s : Media) :
    ∃ started n t u, tfInitializeMediaNoBlock totalSectors true s = .ok true started ∧
      formatOn totalSectors n started = .ok () t ∧
      tfInitializeMedia totalSectors s = .ok 0 u ∧ t.disk = u.disk := by
  have hle := mediaFatSize_le totalSectors
  have hssa := mediaSsa_eq totalSectors
  obtain ⟨n, t, hrun, hdisk⟩ := formatOn_run totalSectors
    (s := ⟨metadataDisk totalSectors s.disk, 32, mediaSsa totalSectors, 32⟩)
    (show mediaSsa totalSectors < 2 ^ 31 by omega) (Nat.le_max_left ..)
  exact ⟨_, n, t, _, noBlock_start totalSectors s, hrun, tfInitializeMedia_run totalSectors s,
    hdisk⟩

/-! ## The volume -/

/-- The fields of the new boot sector. -/
def mediaBpb : BPB where
  jumpBoot0 := 0xEB
  jumpBoot2 := 0x90
  bytesPerSector := 512
  sectorsPerCluster := 32
  reservedSectorCount := 32
  numFATs := 2
  rootEntryCount := 0
  totalSectors16 := 0
  media := 0xf8
  fatSize16 := 0
  totalSectors32 := totalSectors.toNat
  fatSize32 := mediaFatSize totalSectors

theorem bpbOf_bootBuf : bpbOf (bootBuf totalSectors) = mediaBpb totalSectors := by
  have hbytes : ∀ b, 32 ≤ b → b < 32 + 8 → bootBuf totalSectors b =
      writeLE (writeLE zeroBuf 32 4 totalSectors.toNat) 36 4 (mediaFatSize totalSectors) b := by
    intro b hb hb'
    interval_cases b <;> rfl
  have htotal : readLE (bootBuf totalSectors) 32 4 = totalSectors.toNat := by
    rw [readLE_congr fun b hb hb' => hbytes b hb (by omega),
      readLE_writeLE_of_disjoint _ _ _ _ _ _ (by decide), readLE_writeLE]
    exact Nat.mod_eq_of_lt totalSectors.isLt
  have hsize : readLE (bootBuf totalSectors) 36 4 = mediaFatSize totalSectors := by
    have hle := mediaFatSize_le totalSectors
    rw [readLE_congr fun b hb hb' => hbytes b (by omega) (by omega), readLE_writeLE]
    exact Nat.mod_eq_of_lt (by omega)
  unfold bpbOf
  rw [htotal, hsize]
  rfl

theorem bpbOf_congr {m m' : Mem} (h : ∀ i < 512, m i = m' i) : bpbOf m = bpbOf m' := by
  have hread : ∀ a n, a + n ≤ 512 → readLE m a n = readLE m' a n := fun a n hle =>
    readLE_congr fun b _ hb => h b (by omega)
  simp (disch := omega) only [bpbOf, hread]

/-- No other sector is written over the boot sector. -/
theorem formatted_boot (disk : Mem) :
    bpbOf (readSector (formattedDisk totalSectors disk) 0) = mediaBpb totalSectors := by
  have hssa := mediaSsa_eq totalSectors
  rw [← bpbOf_bootBuf]
  refine bpbOf_congr fun i hi => ?_
  have hsector : (0 * 512 + i) / 512 = 0 := by omega
  have hmod : (0 * 512 + i) % 512 = i := by omega
  have hhalf : halves (mediaSsa totalSectors) 32 (mediaSsa totalSectors / 2) 0 = false := by
    rw [halves, decide_eq_false_iff_not]
    omega
  have hroot : decide (mediaSsa totalSectors ≤ 0 ∧ 0 < mediaSsa totalSectors + 33) = false := by
    rw [decide_eq_false_iff_not]
    omega
  simp only [readSector, formattedDisk, metadataDisk, writeSector, cleared, hsector, hmod, hhalf,
    hroot]
  rfl

/-- The entry of the root directory's cluster. -/
theorem formatted_entry (disk : Mem) {shape : TFShape} (hreserved : shape.reservedSectors = 32) :
    fatEntry shape (formattedDisk totalSectors disk) 2 = 0x0ffffff8 := by
  have hplace : u32 (shape.reservedSectors + u32 (2 * 4) / 512) * 512 + u32 (2 * 4) % 512 =
      32 * 512 + 8 := by
    rw [hreserved]
    rfl
  have hvalue : readLE fatBuf 8 4 = 0x0ffffff8 := by
    rw [fatBuf, readLE_writeLE]
    rfl
  show readLE _ (u32 (shape.reservedSectors + u32 (2 * 4) / 512) * 512 + u32 (2 * 4) % 512) 4 = _
  rw [hplace, ← hvalue]
  refine readLE_shift fun i hi => ?_
  rw [formattedDisk, Nat.add_assoc]
  exact writeSector_apply _ _ _ (by omega)

/-- How many clusters there are behind the FATs. -/
def BPB.clusters (b : BPB) : Nat := b.dataSectors / b.sectorsPerCluster

/-- A volume on `disk`: `tf_init` takes it, the FAT has an entry for each cluster, the second FAT
is as the first, behind its three entries there are zeros, the root directory is empty, and its
only cluster is the last of the chain for `tf_unsafe_fseek` and `tf_free_clusterchain`. -/
structure FreshVolume (b : BPB) (disk : Mem) : Prop where
  boot : bpbOf (readSector disk 0) = b
  accepted : ∀ s : Fat32, s.disk = disk → ∃ t, tfInit s = .ok 0 t
  room : b.clusters + 2 ≤ b.fatSize * 128
  copies : ∀ i < b.fatSize * 512, disk (b.reservedSectorCount * 512 + i) =
    disk ((b.reservedSectorCount + b.fatSize) * 512 + i)
  zeros : ∀ c, 3 ≤ c → c < b.fatSize * 128 → fatEntry b.shape disk c = 0
  root : ∀ i < clusterBytes b.shape, disk (tfFirstSector b.shape 2 * 512 + i) = 0
  seekEnds : fatEntry b.shape disk 2 &&& 0x0fffffff = tfMarkEoc32
  freeEnds : ¬ fatEntry b.shape disk 2 < tfMarkEoc32

/-- `0x0ffffff8` is not the end of a chain for either of the two. -/
theorem formatted_not_fresh (disk : Mem) (b : BPB) :
    ¬ FreshVolume b (formattedDisk totalSectors disk) := by
  intro h
  have hb := h.boot
  rw [formatted_boot] at hb
  have hreserved : b.shape.reservedSectors = 32 := by
    rw [← hb]
    rfl
  have hends := h.freeEnds
  rw [formatted_entry totalSectors disk hreserved] at hends
  exact absurd (by decide) hends

/-- What `tf_initializeMedia` makes is no such volume, whatever the size. -/
theorem tfInitializeMedia_never (totalSectors : BitVec 32) (s : Media) :
    ¬ ∃ t, tfInitializeMedia totalSectors s = .ok 0 t ∧ ∃ b, FreshVolume b t.disk := by
  rintro ⟨t, hrun, b, hfresh⟩
  rw [tfInitializeMedia_run] at hrun
  cases hrun
  exact formatted_not_fresh totalSectors s.disk b hfresh

/-- 4 MiB that were zero. -/
theorem tfInitializeMedia_small_disk : ¬ ∀ (totalSectors : BitVec 32) (s : Media),
    mediaSsa totalSectors + 32 ≤ totalSectors.toNat →
      ∃ t, tfInitializeMedia totalSectors s = .ok 0 t ∧ ∃ b, FreshVolume b t.disk := by
  intro hall
  obtain ⟨t, hrun, b, hfresh⟩ := hall 0x2000 ⟨zeroBuf, 0, 0, 0⟩ (by decide)
  rw [tfInitializeMedia_run] at hrun
  cases hrun
  exact formatted_not_fresh 0x2000 zeroBuf b hfresh

end PageFaultOS
