import Mathlib.Tactic
import PageFaultOS.Dev.Sdcard
import PageFaultOS.Fs.Mount

/-! How the K210 build comes from a sector of a volume to one of the card: `read_sector` and
`write_sector` of `fs/fat32.cpp` make it the number of a byte, a `uint32`; that is a `size_t` for
`vfsdread` and `vfsdwrite` of `fs/vfs.cpp` and an `int` for the `DeviceFS` of `fs/devicefs.cpp`.
`createFileSystem` makes a `DeviceFS` for every type, so that it is one that `vfsgetFs` finds. -/

namespace PageFaultOS
open Exec Exec.Comp

/-- `strncmp(p, q, n) == 0` -/
def strncmpZero : CStr → CStr → Nat → Bool
  | _, _, 0 => true
  | [], [], _ + 1 => true
  | c :: p, d :: q, n + 1 => if c = d then strncmpZero p q n else false
  | _, _, _ + 1 => false

/-- `"/dev/tty"`, `"/dev/vda2"` and `"/dev/hda1"`. -/
def devTty : CStr := [0x2f, 0x64, 0x65, 0x76, 0x2f, 0x74, 0x74, 0x79]

def devVda2 : CStr := [0x2f, 0x64, 0x65, 0x76, 0x2f, 0x76, 0x64, 0x61, 0x32]

def devHda1 : CStr := [0x2f, 0x64, 0x65, 0x76, 0x2f, 0x68, 0x64, 0x61, 0x31]

/-- `consoleread` and `consolewrite`, with what they answer and leave in the buffer. -/
structure Tty where
  consoleread : Bool → BitVec 32 → SdComp (BitVec 64 × List UInt8)
  consolewrite : Bool → List UInt8 → BitVec 32 → SdComp (BitVec 64)

/-- `DeviceFS::read`, with what it leaves in `buf`. -/
def deviceRead (tty : Tty) (path : CStr) (user : Bool) (offset n : BitVec 32) :
    SdComp (BitVec 64 × List UInt8) :=
  if strncmpZero path devTty path.length then tty.consoleread user n
  else if strncmpZero path devVda2 path.length then do
    let buf ← sdcardReadSector (offset.sdiv 512)
    pure (0, buf)
  else if strncmpZero path devHda1 devHda1.length then do
    let buf ← sdcardReadSector (offset.sdiv 512)
    pure (0, buf)
  else Comp.panic "not support path"

/-- `DeviceFS::write` -/
def deviceWrite (tty : Tty) (path : CStr) (user : Bool) (buf : List UInt8)
    (offset n : BitVec 32) : SdComp (BitVec 64) :=
  if strncmpZero path devTty path.length then tty.consolewrite user buf n
  else if strncmpZero path devVda2 devVda2.length then do
    sdcardWriteSector buf (offset.sdiv 512)
    pure 0
  else if strncmpZero path devHda1 devHda1.length then do
    sdcardWriteSector buf (offset.sdiv 512)
    pure 0
  else Comp.panic "not support path"

/-- The `int` that an answer goes through. -/
def throughInt (r : BitVec 64) : BitVec 64 := (r.setWidth 32).signExtend 64

def K210.vfsdread (tty : Tty) (mountedFS : MountTable) (file : CBuf) (count offset : BitVec 64) :
    SdComp (BitVec 64 × List UInt8) :=
  match vfsgetFs mountedFS file.byte with
  | none => Comp.fault (.undefined "no file system")
  | some _ => do
    let r ← deviceRead tty file.str false (offset.setWidth 32) (count.setWidth 32)
    pure (throughInt r.1, r.2)

def K210.vfsdwrite (tty : Tty) (mountedFS : MountTable) (file : CBuf) (buffer : List UInt8)
    (count offset : BitVec 64) : SdComp (BitVec 64) :=
  match vfsgetFs mountedFS file.byte with
  | none => Comp.fault (.undefined "no file system")
  | some _ => do
    let r ← deviceWrite tty file.str false buffer (offset.setWidth 32) (count.setWidth 32)
    pure (throughInt r)

/-- With what it leaves in `data`. -/
def K210.readSector (tty : Tty) (mountedFS : MountTable) (specialDev : CBuf) (sector : BitVec 32) :
    SdComp (Int × List UInt8) := do
  let r ← K210.vfsdread tty mountedFS specialDev 512 ((sector * 512).setWidth 64)
  pure (0, r.2)

def K210.writeSector (tty : Tty) (mountedFS : MountTable) (specialDev : CBuf) (data : List UInt8)
    (sector : BitVec 32) : SdComp Int := do
  let _ ← K210.vfsdwrite tty mountedFS specialDev data 512 ((sector * 512).setWidth 64)
  pure 0

/-! ## The number that arrives -/

/-- `sector` as the `DeviceFS` gets it back from the offset. -/
def sectorno (sector : BitVec 32) : BitVec 32 :=
  (((sector * 512).setWidth 64).setWidth 32 : BitVec 32).sdiv 512

theorem sectorno_toInt (sector : BitVec 32) :
    (sectorno sector).toInt = (Int.bmod (sector.toNat * 512) (2 ^ 32)).tdiv 512 := by
  have hne : (512 : BitVec 32) ≠ -1#32 := by decide
  have hback : (((sector * 512).setWidth 64).setWidth 32 : BitVec 32) = sector * 512 := by
    rw [BitVec.setWidth_setWidth_of_le _ (by decide), BitVec.setWidth_eq]
  rw [sectorno, hback, BitVec.toInt_sdiv_of_ne_or_ne _ _ (.inr hne), BitVec.toInt_mul]
  rw [BitVec.toInt_eq_toNat_bmod sector, Int.bmod_mul_bmod]
  rfl

/-- As an `int` it is the sector as long as the offset is one. -/
theorem sectorno_iff (sector : BitVec 32) :
    (sectorno sector).toInt = sector.toNat ↔ sector.toNat < 2 ^ 22 := by
  have hlt := sector.isLt
  rw [sectorno_toInt]
  constructor
  · intro heq
    have hle : Int.bmod (sector.toNat * 512) (2 ^ 32) < (2 ^ 32 + 1) / 2 :=
      Int.bmod_lt (by decide)
    generalize Int.bmod (sector.toNat * 512) (2 ^ 32) = offset at heq hle
    cases Int.lt_or_le offset 0 with
    | inl hneg =>
      have hquot : 0 ≤ (-offset).tdiv 512 := Int.tdiv_nonneg (by omega) (by decide)
      rw [Int.neg_tdiv] at hquot
      omega
    | inr hnonneg =>
      rw [Int.tdiv_eq_ediv_of_nonneg hnonneg] at heq
      omega
  · intro hsmall
    rw [Int.bmod_eq_of_le (by omega) (by omega)]
    exact Int.mul_tdiv_cancel _ (by decide)

/-! ## What reaches the card -/

variable {α : Type} {tty : Tty} {t : MountTable} {b : CBuf} {sector : BitVec 32}

theorem k210_readSector_eq (hroot : RootMounted t) (hb : b.str = devHda1) :
    K210.readSector tty t b sector =
      sdcardReadSector (sectorno sector) >>= fun buf => pure (0, buf) := by
  have habs : b.str.head? = some slash := by
    rw [hb]
    rfl
  obtain ⟨k, _, fs, hget, -⟩ := vfsgetFs_first hroot habs
  funext s
  unfold K210.readSector K210.vfsdread
  rw [hget, hb]
  show (((sdcardReadSector (sectorno sector) >>= fun buf => pure (0, buf)) >>=
    fun r : BitVec 64 × List UInt8 => pure (throughInt r.1, r.2)) >>=
      fun r => pure ((0 : Int), r.2)) s = _
  rw [bind_assoc_apply, bind_assoc_apply]
  rfl

theorem k210_writeSector_eq (hroot : RootMounted t) (hb : b.str = devHda1) (data : List UInt8) :
    K210.writeSector tty t b data sector =
      sdcardWriteSector data (sectorno sector) >>= fun _ => pure 0 := by
  have habs : b.str.head? = some slash := by
    rw [hb]
    rfl
  obtain ⟨k, _, fs, hget, -⟩ := vfsgetFs_first hroot habs
  funext s
  unfold K210.writeSector K210.vfsdwrite
  rw [hget, hb]
  show (((sdcardWriteSector data (sectorno sector) >>= fun _ => pure 0) >>=
    fun r : BitVec 64 => pure (throughInt r)) >>= fun _ => pure (0 : Int)) s = _
  rw [bind_assoc_apply, bind_assoc_apply]
  rfl

/-- The first that `x` sends to a card that is block-addressed is `cmd` with `n` as its
argument. -/
def Addresses (cmd : UInt8) (n : Nat) (x : SdComp α) : Prop :=
  ∀ s, s.isStandardSd = false →
    ∃ frame, frame.head? = some (cmd ||| 0x40) ∧ frameArg frame = n ∧ SendsFirst frame s x

/-- `read_sector` and `write_sector` come to the driver with just this number, and it is the one
that is sent. -/
structure ReachesSector (tty : Tty) (t : MountTable) (b : CBuf) (sector : BitVec 32) : Prop where
  reads : ∃ no : BitVec 32, no.toInt = sector.toNat ∧
    K210.readSector tty t b sector = sdcardReadSector no >>= fun buf => pure (0, buf)
  writes : ∀ data, ∃ no : BitVec 32, no.toInt = sector.toNat ∧
    K210.writeSector tty t b data sector = sdcardWriteSector data no >>= fun _ => pure 0
  readAddress : Addresses SD_CMD17 sector.toNat (K210.readSector tty t b sector)
  writeAddress : ∀ data, Addresses SD_CMD24 sector.toNat (K210.writeSector tty t b data sector)

theorem readSector_addresses (no : BitVec 32) :
    Addresses SD_CMD17 no.toNat (sdcardReadSector no >>= fun buf => pure ((0 : Int), buf)) := by
  intro s hs
  refine ⟨_, rfl, ?_, (sdcardReadSector_sends no s).bind fun _ => Res.follows_pure _⟩
  rw [hs]
  exact frameArg_sdFrame _ _ _

theorem writeSector_addresses (data : List UInt8) (no : BitVec 32) :
    Addresses SD_CMD24 no.toNat (sdcardWriteSector data no >>= fun _ => pure (0 : Int)) := by
  intro s hs
  refine ⟨_, rfl, ?_, (sdcardWriteSector_sends data no s).bind fun _ => Res.follows_pure _⟩
  rw [hs]
  exact frameArg_sdFrame _ _ _

/-- A computation addresses one sector only. -/
theorem Addresses.unique {cmd cmd' : UInt8} {n n' : Nat} {x : SdComp α}
    (h : Addresses cmd n x) (h' : Addresses cmd' n' x) : n = n' := by
  obtain ⟨frame, -, hn, hfirst⟩ := h ⟨[], [], false, false⟩ rfl
  obtain ⟨frame', -, hn', hfirst'⟩ := h' ⟨[], [], false, false⟩ rfl
  rw [← hn, ← hn', hfirst.unique hfirst']

theorem ReachesSector.offset_fits (hroot : RootMounted t) (hb : b.str = devHda1)
    (h : ReachesSector tty t b sector) : sector.toNat < 2 ^ 22 := by
  obtain ⟨no, hno, heq⟩ := h.reads
  have haddr := readSector_addresses no
  rw [← heq, k210_readSector_eq hroot hb] at haddr
  have hsame := haddr.unique (readSector_addresses (sectorno sector))
  rw [BitVec.eq_of_toNat_eq hsame] at hno
  exact (sectorno_iff sector).mp hno

/-- `"/dev/hda1"` in a buffer that is clear behind it. -/
def hda1Path : CBuf where
  byte i := devHda1.getD i 0
  length := 9
  nul := rfl
  chars := by decide

def quietTty : Tty where
  consoleread _ _ := pure (0, [])
  consolewrite _ _ _ := pure 0

end PageFaultOS
