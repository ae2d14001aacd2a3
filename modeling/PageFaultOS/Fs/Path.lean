import Mathlib.Tactic
import PageFaultOS.Fs.Fat32

/-! Directories and paths of `fs/fat32.cpp`: how a name is compared with a directory entry,
how `tf_walk` and `tf_fnopen` follow a path, and how a file is opened and closed. -/

namespace PageFaultOS
open Exec Exec.Comp ByteMem

def slash : UInt8 := 0x2f
def dot : UInt8 := 0x2e
def space : UInt8 := 0x20

/-! ## Strings -/

def toLowCase (c : UInt8) : UInt8 := if 0x41 ≤ c ∧ c ≤ 0x5a then c + 32 else c

/-- `strncasecmp` returns `0`; behind its last character a string has `NUL`s. -/
def strncasecmpZero : CStr → List UInt8 → Nat → Bool
  | _, _, 0 => true
  | [], s2, _ + 1 => s2.headD 0 = 0
  | c :: s1, s2, n + 1 =>
    toLowCase c = toLowCase (s2.headD 0) ∧ strncasecmpZero s1 s2.tail n

/-- The number of characters before the last `c`. -/
def strrchr (s : CStr) (c : UInt8) : Option Nat :=
  if c ∈ s then some (s.length - 1 - s.reverse.idxOf c) else none

/-! ## Directory entries -/

/-- The 32 bytes of a `FatFileEntry`. -/
abbrev FatFileEntry := List UInt8

def entryByte (e : FatFileEntry) (i : Nat) : UInt8 := e.getD i 0

def entryWord (e : FatFileEntry) (i n : Nat) : Nat := readLE (fun j => entryByte e j) i n

/-- `msdos.attributes` and `lfn.attributes`. -/
def FatFileEntry.attributes (e : FatFileEntry) : Nat := (entryByte e 11).toNat

/-- `((eaIndex & 0xffff) << 16) | (firstCluster & 0xffff)`. -/
def FatFileEntry.startCluster (e : FatFileEntry) : Nat :=
  (entryWord e 20 2 <<< 16) ||| entryWord e 26 2

def FatFileEntry.fileSize (e : FatFileEntry) : Nat := entryWord e 28 4

/-- `lfn.sequence_number`. -/
def FatFileEntry.sequenceNumber (e : FatFileEntry) : Nat := (entryByte e 0).toNat

/-- `reformatted_file` of `tf_compare_filename_segment`, less the `NUL`s at its end. -/
def reformattedFile (e : FatFileEntry) : List UInt8 :=
  if e.attributes ≠ tfAttrLongName then
    let name := (e.take 8).filter (· ≠ space)
    let extension := ((e.drop 8).take 3).filter (· ≠ space)
    if extension = [] then name else name ++ dot :: extension
  else
    [1, 3, 5, 7, 9, 14, 16, 18, 20, 22, 24, 28, 30].map (entryByte e)

/-- `tf_compare_filename_segment`: the part of `name` before the next `/` is that of the
entry, as far as its first 13 characters. -/
def tfCompareFilenameSegment (e : FatFileEntry) (name : CStr) : Bool :=
  let i := (name.takeWhile (· ≠ slash)).length
  if 13 < i then
    strncasecmpZero name (reformattedFile e) 13
  else
    (reformattedFile e).getD i 0 = 0 ∧ strncasecmpZero name (reformattedFile e) i

/-- `tf_fread` of one entry over `entry`. -/
def freadEntry (entry : FatFileEntry) (fp : Nat) : FsComp FatFileEntry := do
  let bytes ← tfFread 32 fp
  pure (bytes ++ (entry.take 32).drop bytes.length)

/-- `tf_fseek(fp, base, fp->pos)`. -/
def seekBy (fp : Nat) (base : Int) : FsComp Int := do
  let f ← getFile fp
  tfFseek fp base f.pos

/-- One round of the loop of `tf_compare_filename` over the entries of a long name, at
`(i, compare_name, entry)`. -/
def compareLfnRound (fp lfnEntries : Nat) :
    Nat × CStr × FatFileEntry → FsComp ((Nat × CStr × FatFileEntry) ⊕ Int) :=
    fun (i, compareName, entry) => do
  if ¬ i < lfnEntries then do
    let _ ← seekBy fp (32 * lfnEntries : Nat)
    pure (.inr 1)
  else do
    let _ ← seekBy fp (-32)
    let entry ← freadEntry entry fp
    if tfCompareFilenameSegment entry compareName = false then do
      let _ ← seekBy fp (i * 32 : Nat)
      pure (.inr 0)
    else do
      let _ ← seekBy fp (-32)
      pure (.inl (i + 1, compareName.drop 13, entry))

/-- `1` where the entry at `fp` has the name, `0` where it has another, and `-1` at the end
of the directory and at the inner entries of a long name. -/
def tfCompareFilename (fp : Nat) (name : CStr) : FsComp Int := do
  let s ← read
  let entry ← freadEntry s.stale fp
  if entryByte entry 0 = 0 then
    pure (-1)
  else if entry.attributes ≠ tfAttrLongName then
    if tfCompareFilenameSegment entry name then do
      let _ ← seekBy fp (-32)
      pure 1
    else
      pure 0
  else if entry.sequenceNumber &&& 0xc0 = 0x40 then do
    let lfnEntries := clearFlag entry.sequenceNumber 0x40
    let _ ← seekBy fp (u32 (32 * u32 (lfnEntries + (2 ^ 32 - 1))))
    if (name.length + 12) / 13 ≠ lfnEntries then
      pure 0
    else
      loop (compareLfnRound fp lfnEntries) fileRounds (0, name, entry)
  else
    pure (-1)

/-- One round of the loop of `tf_find_file`. -/
def findFileRound (fp : Nat) (name : CStr) (_ : Unit) : FsComp (Unit ⊕ Int) := do
  let rc ← tfCompareFilename fp name
  if rc < 0 then
    pure (.inr (-1))
  else if rc = 1 then
    pure (.inr 0)
  else
    pure (.inl ())

def tfFindFile (fp : Nat) (name : CStr) : FsComp Int := do
  let _ ← tfFseek fp 0 0
  loop (findFileRound fp name) fileRounds ()

/-! ## Following a path -/

/-- What `tf_walk` makes of the handle when it has found the entry. -/
def enter (e : FatFileEntry) (f : TFFile) : TFFile :=
  { f with
    startCluster := e.startCluster
    attributes := e.attributes
    currentCluster := e.startCluster
    currentClusterIdx := 0
    currentByte := 0
    pos := 0
    flags := tfFlagOpen
    size := if e.attributes &&& tfAttrDirectory ≠ 0 then 0xffffffff else e.fileSize }

/-- A path without the separator at its front. -/
def skipSlash : CStr → CStr
  | [] => []
  | c :: path => if c = slash then path else c :: path

/-- The next level of the path, or `NULL` at its end. -/
def tfWalk (filename : CStr) (fp : Nat) : FsComp (Option CStr) := do
  let filename := skipSlash filename
  if filename = [] then
    pure none
  else do
    let rc ← tfFindFile fp filename
    if rc ≠ 0 then do
      modifyFile fp fun f => { f with flags := 0xff }
      pure none
    else do
      let s ← read
      let entry ← freadEntry s.stale fp
      modifyFile fp (enter entry)
      let rest := skipSlash (filename.dropWhile (· ≠ slash))
      pure (if rest = [] then none else some rest)

/-- A `TFFile *`: `NULL`, `(TFFile *)-1` or a cell of `tf_file_handles`. -/
inductive FilePtr where
  | null
  | invalid
  | handle (fp : Nat)
  deriving DecidableEq

/-- The cell of a pointer that the code goes through. -/
def FilePtr.deref : FilePtr → FsComp Nat
  | .null => fault (.undefined "NULL file")
  | .invalid => fault (.undefined "file -1")
  | .handle fp => pure fp

def tfGetFreeHandle : FsComp (Option Nat) := do
  let s ← read
  match (List.range tfFileHandles).find? fun i => (s.handles i).flags &&& tfFlagOpen = 0 with
  | none => do
    modify fun s => { s with refused := true }
    pure none
  | some fp => do
    modifyFile fp fun f => { f with flags := tfFlagOpen }
    pure (some fp)

def tfReleaseHandle (fp : Nat) : FsComp Unit :=
  modifyFile fp fun f => { f with flags := clearFlag f.flags tfFlagOpen }

/-- The root directory: what `tf_fnopen` makes of the handle before it follows the path. -/
def rootFile (f : TFFile) : TFFile :=
  { f with
    currentCluster := 2
    startCluster := 2
    currentClusterIdx := 0
    currentByte := 0
    attributes := tfAttrDirectory
    pos := 0
    flags := f.flags ||| tfFlagRoot
    size := 0xffffffff }

/-- One round of the loop of `tf_fnopen`: `false` where the path does not exist. -/
def walkRound (fp : Nat) (temp : CStr) : FsComp (CStr ⊕ Bool) := do
  let temp ← tfWalk temp fp
  let f ← getFile fp
  if f.flags = 0xff then
    pure (.inr false)
  else
    match temp with
    | none => pure (.inr true)
    | some temp => pure (.inl temp)

/-- The modes of `tf_fnopen` that make a difference: `'w'` truncates, and `'+'`, `'w'` and
`'a'` create. No caller passes `'a'`. -/
structure Mode where
  plus : Bool
  write : Bool

/-- `"r"` -/
def Mode.r : Mode := ⟨false, false⟩

/-- `"w"` -/
def Mode.w : Mode := ⟨false, true⟩

/-- `"+"` -/
def Mode.p : Mode := ⟨true, false⟩

/-- `"rw"` -/
def Mode.rw : Mode := ⟨false, true⟩

/-- What `tf_fnopen` does to a file that is opened for writing. -/
def truncate (fp : Nat) : FsComp Unit := do
  let f ← getFile fp
  if f.attributes &&& tfAttrDirectory = 0 then do
    modifyFile fp fun f => { f with size := 0 }
    let _ ← tfUnsafeFseek fp 0 0
    let cluster ← tfGetFatEntry f.startCluster
    if cluster ≠ tfMarkEoc32 then do
      tfFreeClusterchain cluster
      tfSetFatEntry f.startCluster tfMarkEoc32
    else
      pure ()
  else
    pure ()

/-- `tf_fnopen` of the first `n` characters. `myfile` has room for 256. -/
def tfFnopen (filename : CStr) (mode : Mode) (n : Nat) : FsComp FilePtr := do
  match ← tfGetFreeHandle with
  | none => pure .invalid
  | some fp =>
    if 256 ≤ n then
      fault (.undefined "myfile")
    else do
      let myfile := filename.take n
      modifyFile fp rootFile
      let found ← loop (walkRound fp) fileRounds myfile
      if found = false then do
        tfReleaseHandle fp
        pure .null
      else do
        (if mode.write then truncate fp else pure () : FsComp Unit)
        modifyFile fp fun f => { f with filename := myfile }
        pure (.handle fp)

/-- `tf_parent` without `mkParents`, which no caller sets. -/
def tfParent (filename : CStr) : FsComp FilePtr :=
  match strrchr filename slash with
  | none => fault (.undefined "tf_parent")
  | some n => tfFnopen filename .rw n

/-! ## Closing -/

/-- The flags of a file that has been flushed. -/
def flushed (fp : Nat) : FsComp Unit :=
  modifyFile fp fun f => { f with
    flags := clearFlag (clearFlag f.flags tfFlagSizechanged) tfFlagDirty }

/-- The part of `tf_fflush` that writes the entry of the file `filename` in the directory
`dir`. -/
def flushEntry (filename : CStr) (dir : Nat) : FsComp Unit :=
  match strrchr filename slash with
  | none => fault (.undefined "tf_fflush")
  | some n => do
    let _ ← tfFindFile dir (filename.drop (n + 1))
    let s ← read
    let _ ← freadEntry s.stale dir
    let _ ← seekBy dir (-32)
    let s ← read
    let _ ← tfFwrite s.entryAddr 32 dir
    pure ()

/-- `tf_fflush`. It closes the parent directory of the file, which is flushed in turn. -/
def tfFflush : Nat → Nat → FsComp Int
  | 0, _ => fault .diverge
  | depth + 1, fp => do
    let f ← getFile fp
    if f.flags &&& tfFlagDirty = 0 then
      pure 0
    else do
      storeDirty
      if f.flags &&& tfFlagSizechanged = 0 ∨ f.attributes &&& tfAttrDirectory ≠ 0 then do
        flushed fp
        pure 0
      else do
        let dir ← tfParent f.filename
        if dir = .invalid then
          pure (-1)
        else do
          let dir ← dir.deref
          flushEntry f.filename dir
          let _ ← tfFflush depth dir
          modifyFile dir fun f => { f with flags := clearFlag f.flags tfFlagOpen }
          flushed fp
          pure 0

/-- Each file that `tf_fflush` goes on to has a shorter name. -/
def flushDepth : Nat := 257

def tfFclose (fp : Nat) : FsComp Int := do
  let rc ← tfFflush flushDepth fp
  modifyFile fp fun f => { f with flags := clearFlag f.flags tfFlagOpen }
  pure rc

end PageFaultOS
