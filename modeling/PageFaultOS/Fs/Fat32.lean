import Mathlib.Tactic
import PageFaultOS.Mm.UserCopy

/-! The sector cache, the FAT and the open files of `fs/fat32.cpp`. `read_sector` and
`write_sector` move one sector between `tf_info.buffer` and the device, an array of
sectors, and return `0`. A `TFFile *` is the number of its cell. -/

namespace PageFaultOS
open Exec Exec.Comp ByteMem

def tfFileHandles : Nat := 5
def tfFlagDirty : Nat := 0x01
def tfFlagOpen : Nat := 0x02
def tfFlagSizechanged : Nat := 0x04
def tfFlagRoot : Nat := 0x08
def tfMarkEoc32 : Nat := 0x0fffffff
def tfAttrDirectory : Nat := 0x10
def tfAttrLongName : Nat := 0x0f
def tfErrInvalidSeek : Int := 1

/-- The value a `uint32` keeps of a natural number. -/
def u32 (n : Nat) : Nat := n % 2 ^ 32

/-- The value a `uint32` keeps of an integer. -/
def u32OfInt (z : Int) : Nat := (z % 2 ^ 32).toNat

/-- The value a `short` keeps of an integer. -/
def toShort (z : Int) : Int := z.bmod (2 ^ 16)

/-- The value an `int` keeps of an integer. -/
def toInt (z : Int) : Int := z.bmod (2 ^ 32)

/-- The value a `long` keeps of an integer. -/
@[irreducible] def toLong (z : Int) : Int := z.bmod (2 ^ 64)

/-- `flags & ~bit`, for a bit that is less than `256`. -/
def clearFlag (flags bit : Nat) : Nat := flags &&& (255 - bit)

/-- The characters of a string before its `NUL`. -/
abbrev CStr := List UInt8

/-- The part of `TFInfo` that `tf_init` sets: the shape of the volume. -/
structure TFShape where
  sectorsPerCluster : Nat
  firstDataSector : Nat
  totalSectors : Nat
  reservedSectors : Nat

/-- `TFInfo`: the shape of the volume, and the sector in memory. -/
structure TFInfo where
  shape : TFShape
  currentSector : Nat
  /-- `TF_FLAG_DIRTY` of `sectorFlags`. -/
  dirty : Bool
  buffer : Mem

/-- `TFFile`, less the fields that nothing reads. `currentByte` is a `short`. -/
structure TFFile where
  startCluster : Nat
  currentClusterIdx : Nat
  currentCluster : Nat
  currentByte : Int
  pos : Nat
  flags : Nat
  attributes : Nat
  size : Nat
  filename : CStr

/-- The file system and what it works on: the device, the memory and the page table of the
current process, and of the kernel stack the address of a `FatFileEntry` and what is in one
before it is read. `refused` is a ghost: `tf_get_free_handle` has found no free handle. -/
structure Fat32 where
  info : TFInfo
  disk : Mem
  handles : Nat → TFFile
  mm : MemState
  pagetable : Nat
  entryAddr : Nat
  stale : List UInt8
  refused : Bool := false

abbrev FsComp := Comp Fat32

/-- An upper bound on the rounds of a loop over a 32-bit range. -/
def fileRounds : Nat := 2 ^ 33

def getFile (fp : Nat) : FsComp TFFile := do
  let s ← read
  pure (s.handles fp)

def Fat32.setFile (s : Fat32) (fp : Nat) (f : TFFile) : Fat32 :=
  { s with handles := Function.update s.handles fp f }

@[simp] theorem Fat32.setFile_self (s : Fat32) (fp : Nat) (f : TFFile) :
    (s.setFile fp f).handles fp = f := by
  show Function.update s.handles fp f fp = f
  exact Function.update_self ..

theorem Fat32.setFile_other (s : Fat32) {fp i : Nat} (f : TFFile) (hi : i ≠ fp) :
    (s.setFile fp f).handles i = s.handles i := by
  show Function.update s.handles fp f i = s.handles i
  exact Function.update_of_ne hi ..

def modifyFile (fp : Nat) (g : TFFile → TFFile) : FsComp Unit :=
  modify fun s => s.setFile fp (g (s.handles fp))

/-! ## The cache -/

def readSector (disk : Mem) (sector : Nat) : Mem := fun i => disk (sector * 512 + i)

def writeSector (disk buffer : Mem) (sector : Nat) : Mem :=
  fun b => if b / 512 = sector then buffer (b % 512) else disk b

def tfStore : FsComp Unit :=
  modify fun s => { s with
    disk := writeSector s.disk s.info.buffer s.info.currentSector
    info := { s.info with dirty := false } }

/-- Write the sector in memory back where it is dirty. -/
def storeDirty : FsComp Unit := do
  let s ← read
  if s.info.dirty then tfStore else pure ()

def tfFetch (sector : Nat) : FsComp Unit := do
  let s ← read
  if sector = s.info.currentSector then
    pure ()
  else do
    storeDirty
    modify fun s => { s with
      info := { s.info with buffer := readSector s.disk sector, currentSector := sector } }

/-! ## The FAT -/

def tfGetFatEntry (cluster : Nat) : FsComp Nat := do
  let offset := u32 (cluster * 4)
  let s ← read
  tfFetch (u32 (s.info.shape.reservedSectors + offset / 512))
  let s ← read
  pure (readLE s.info.buffer (offset % 512) 4)

def tfSetFatEntry (cluster value : Nat) : FsComp Unit := do
  let offset := u32 (cluster * 4)
  let s ← read
  tfFetch (u32 (s.info.shape.reservedSectors + offset / 512))
  let s ← read
  if readLE s.info.buffer (offset % 512) 4 ≠ value then
    modify fun s => { s with info := { s.info with
      dirty := true, buffer := writeLE s.info.buffer (offset % 512) 4 value } }
  else
    pure ()

def tfFirstSector (shape : TFShape) (cluster : Nat) : Nat :=
  u32 (u32 (cluster + (2 ^ 32 - 2)) * shape.sectorsPerCluster + shape.firstDataSector)

def totalClusters (shape : TFShape) : Nat := shape.totalSectors / shape.sectorsPerCluster

/-- One round of the loops of `tf_find_free_cluster` and `tf_find_free_cluster_from`. -/
def findFreeRound (i : Nat) : FsComp (Nat ⊕ Nat) := do
  let s ← read
  if ¬ i < totalClusters s.info.shape then
    pure (.inr i)
  else do
    let entry ← tfGetFatEntry i
    if entry &&& 0x0fffffff = 0 then
      pure (.inr i)
    else
      pure (.inl (i + 1))

def tfFindFreeCluster : FsComp Nat := loop findFreeRound fileRounds 0

def tfFindFreeClusterFrom (c : Nat) : FsComp Nat := do
  let i ← loop findFreeRound fileRounds c
  let s ← read
  if i = totalClusters s.info.shape then
    tfFindFreeCluster
  else
    pure i

/-- One round of the loop of `tf_free_clusterchain`, at `(cluster, fat_entry)`. -/
def freeChainRound : Nat × Nat → FsComp ((Nat × Nat) ⊕ Unit) := fun (cluster, fatEntry) => do
  if ¬ fatEntry < tfMarkEoc32 then
    pure (.inr ())
  else if fatEntry ≤ 2 then
    pure (.inr ())
  else do
    tfSetFatEntry cluster 0
    let fatEntry ← tfGetFatEntry fatEntry
    pure (.inl (fatEntry, fatEntry))

def tfFreeClusterchain (cluster : Nat) : FsComp Unit := do
  let fatEntry ← tfGetFatEntry cluster
  loop freeChainRound fileRounds (cluster, fatEntry)

/-! ## Seeking -/

/-- Bytes of a cluster. -/
def clusterBytes (shape : TFShape) : Nat := shape.sectorsPerCluster * 512

/-- One link along the chain of the file. At the end of the chain a cluster is added. -/
def nextCluster (fp : Nat) : FsComp Unit := do
  let f ← getFile fp
  let temp ← tfGetFatEntry f.currentCluster
  if temp &&& 0x0fffffff ≠ tfMarkEoc32 then
    modifyFile fp fun f => { f with currentCluster := temp }
  else do
    let temp ← tfFindFreeClusterFrom f.currentCluster
    tfSetFatEntry f.currentCluster temp
    tfSetFatEntry temp tfMarkEoc32
    modifyFile fp fun f => { f with currentCluster := temp }

/-- One round of the loop of `tf_unsafe_fseek`, with `clusterIdx` links to go. -/
def seekRound (fp clusterIdx : Nat) : FsComp (Nat ⊕ Int) := do
  if ¬ 0 < clusterIdx then
    pure (.inr 0)
  else do
    nextCluster fp
    let f ← getFile fp
    if tfMarkEoc32 ≤ f.currentCluster ∧ 0 < clusterIdx - 1 then
      pure (.inr tfErrInvalidSeek)
    else
      pure (.inl (clusterIdx - 1))

/-- The part of `tf_unsafe_fseek` that goes along the chain. -/
def seekCluster (fp clusterIdx : Nat) : FsComp Int := do
  let f ← getFile fp
  if clusterIdx = f.currentClusterIdx then
    pure 0
  else if f.currentClusterIdx < clusterIdx then do
    modifyFile fp fun f => { f with currentClusterIdx := clusterIdx }
    loop (seekRound fp) fileRounds (clusterIdx - f.currentClusterIdx)
  else do
    modifyFile fp fun f => { f with
      currentCluster := f.startCluster, currentClusterIdx := clusterIdx }
    loop (seekRound fp) fileRounds clusterIdx

/-- A seek to the end of the file makes it one byte longer. -/
def growAtEnd (fp : Nat) (pos : Int) : FsComp Unit := do
  let f ← getFile fp
  if pos = f.size then
    modifyFile fp fun f => { f with
      size := u32 (f.size + 1), flags := f.flags ||| tfFlagSizechanged }
  else
    pure ()

/-- The position is a `long`, and the addition wraps. -/
def tfUnsafeFseek (fp : Nat) (base offset : Int) : FsComp Int := do
  let pos := toLong (base + offset)
  let f ← getFile fp
  if (f.size : Int) < pos then
    pure tfErrInvalidSeek
  else do
    growAtEnd fp pos
    let s ← read
    let r ← seekCluster fp (u32OfInt (pos.tdiv (clusterBytes s.info.shape)))
    if r ≠ 0 then
      pure r
    else do
      modifyFile fp fun f => { f with
        currentByte := toShort (pos.tmod (clusterBytes s.info.shape)), pos := u32OfInt pos }
      pure 0

/-- `base` is a `size_t` here, and an `int` in `tf_unsafe_fseek`. -/
def tfFseek (fp : Nat) (base offset : Int) : FsComp Int := do
  let pos := toLong (base + offset)
  let f ← getFile fp
  if (f.size : Int) ≤ pos then
    pure tfErrInvalidSeek
  else
    tfUnsafeFseek fp (toInt base) offset

/-! ## Reading and writing -/

/-- The bytes of one round of `tf_fread` or `tf_fwrite`: no further than the end of the
sector, the end of the file and the end of the request. -/
def chunk (f : TFFile) (size : Nat) : Nat :=
  min (min (512 - f.currentByte.tmod 512).toNat (u32 (f.size + (2 ^ 32 - f.pos)))) size

/-- The sector of the current byte. -/
def fileSector (shape : TFShape) (f : TFFile) : Nat :=
  u32 (tfFirstSector shape f.currentCluster + u32OfInt (f.currentByte.tdiv 512))

/-- One round of the loop of `tf_fread`, with `size` bytes to go and `dest` read. -/
def freadRound (fp : Nat) :
    Nat × List UInt8 → FsComp ((Nat × List UInt8) ⊕ List UInt8) := fun (size, dest) => do
  if ¬ 0 < size then
    pure (.inr dest)
  else do
    let f ← getFile fp
    let s ← read
    tfFetch (fileSector s.info.shape f)
    if f.currentByte < 0 then
      fault (.undefined "tf_info.buffer")
    else do
      let x := chunk f size
      let s ← read
      let dest := dest ++ load s.info.buffer (f.currentByte % 512).toNat x
      let r ← tfFseek fp 0 (f.pos + x : Nat)
      if r ≠ 0 then
        pure (.inr dest)
      else
        pure (.inl (size - x, dest))

/-- The bytes that `tf_fread` stores at `dest`, in the kernel; their number is its result. -/
def tfFread (size fp : Nat) : FsComp (List UInt8) :=
  loop (freadRound fp) fileRounds (size, [])

/-- A computation on the memory of the process. -/
def onMemory {α : Type} (x : MemComp α) : FsComp α := fun s =>
  match x s.mm with
  | .ok a m => .ok a { s with mm := m }
  | .fault e m => .fault e { s with mm := m }

/-- `either_copyin(&user, tf_info.buffer[tracking], src, x)`: the byte of the buffer is
taken for the flag, and the `x` bytes go to the `bool` parameter. -/
def copyToFlag (byte : UInt8) (src x : Nat) : FsComp Unit := do
  let s ← read
  let _ ← (if byte ≠ 0 then onMemory (copyin s.pagetable src x) else pure (0, []) :
    FsComp (Int × List UInt8))
  if 1 < x then
    fault (.undefined "user")
  else
    pure ()

/-- The size after `x` bytes have been written. -/
def growTo (fp x : Nat) : FsComp Unit := do
  let f ← getFile fp
  if f.size < f.pos + x then
    modifyFile fp fun f => { f with
      flags := f.flags ||| tfFlagSizechanged, size := u32 (x + f.pos) }
  else
    pure ()

/-- One round of the loop of `tf_fwrite`, at `(src, sz, n)`. -/
def fwriteRound (fp : Nat) :
    Nat × Nat × Nat → FsComp ((Nat × Nat × Nat) ⊕ Int) := fun (src, sz, n) => do
  if ¬ 0 < sz then
    pure (.inr n)
  else do
    let f ← getFile fp
    let s ← read
    tfFetch (fileSector s.info.shape f)
    if f.currentByte < 0 then
      fault (.undefined "tf_info.buffer")
    else do
      let x := chunk f sz
      let s ← read
      copyToFlag (s.info.buffer (f.currentByte % 512).toNat) src x
      modify fun s => { s with info := { s.info with dirty := true } }
      growTo fp x
      let r ← tfUnsafeFseek fp 0 (f.pos + x : Nat)
      if r ≠ 0 then
        pure (.inr (-1))
      else
        pure (.inl (src + x, sz - x, n + x))

/-- `tf_fwrite` of the `sz` bytes at `src`, which are never looked at. -/
def tfFwrite (src sz fp : Nat) : FsComp Int := do
  modifyFile fp fun f => { f with flags := f.flags ||| tfFlagDirty }
  loop (fwriteRound fp) fileRounds (src, sz, 0)

/-- A volume of zeros, and no open file. -/
def blankVolume : Fat32 where
  info := ⟨⟨1, 34, 1000, 2⟩, 0, false, fun _ => 0⟩
  disk := fun _ => 0
  handles := fun _ => ⟨0, 0, 0, 0, 0, 0, 0, 0, []⟩
  mm := ⟨fun _ => 0, 0, 0, kernbase, []⟩
  pagetable := 0
  entryAddr := 0
  stale := []

end PageFaultOS
