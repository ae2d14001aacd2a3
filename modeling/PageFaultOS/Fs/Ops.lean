import Mathlib.Tactic
import PageFaultOS.Fs.Path

/-! The operations of `Fat32FileSystem` in `fs/fat32.cpp`, and the code that makes and
removes directory entries. What a written entry holds is left out: `tf_fwrite` does not
look at it, and nothing reads it afterwards. -/

namespace PageFaultOS
open Exec Exec.Comp ByteMem

/-! ## Short names -/

def upper (c : UInt8) : UInt8 := if 0x61 ≤ c ∧ c ≤ 0x7a then c - 32 else c

/-- The characters that `tf_shorten_filename` keeps. -/
def keptChar (c : UInt8) : Bool :=
  c < 0x7f ∧ 20 < c ∧ c ∉ ([0x22, 0x2a, 0x2e, 0x2f, 0x3a, 0x3c, 0x3e, 0x3f, 0x5b, 0x5c, 0x5d,
    0x7c] : List UInt8)

/-- The first `n` characters of `tmp` that are kept, filled up with spaces. -/
def shortExtension : Nat → CStr → List UInt8
  | 0, _ => []
  | n + 1, tmp =>
    match tmp.dropWhile (¬ keptChar ·) with
    | [] => space :: shortExtension n []
    | c :: tmp => upper c :: shortExtension n tmp

/-- The loop that copies the basename, for the indices of `is`: `k` is the position of
`src` in the name, and `tmp` that of its last dot. A comma is not gone past. -/
def shortBasename (name : CStr) (tmp : Option Nat) :
    List Nat → Nat → List UInt8 → List UInt8
  | [], _, dest => dest
  | i :: is, k, dest =>
    if tmp = some k then
      shortBasename name tmp is k (dest.set i space)
    else if dest.headD 0 = space then
      shortBasename name tmp is k dest
    else
      let k := k + ((name.drop k).takeWhile (¬ keptChar ·)).length
      match name[k]? with
      | none => shortBasename name tmp is k (dest.set i space)
      | some c =>
        if c = 0x2c then
          shortBasename name tmp is k (dest.set i 0x5f)
        else
          shortBasename name tmp is (k + 1) (dest.set i (upper c))

/-- `~` and the number, over the first space of the basename or over its end. -/
def shortTail (dest : List UInt8) (num : UInt8) : List UInt8 :=
  if 4 < num then
    dest.set 7 0x31
  else
    let q := (dest.takeWhile fun c => c ≠ space ∧ c ≠ 0).length
    let p := if q ≤ 6 ∧ dest.getD q 0 = space then q else 6
    (dest.set p 0x7e).set (p + 1) (num + 0x30)

/-- The eleven characters at `dest` after `tf_shorten_filename`. -/
def tfShortenFilename (dest : List UInt8) (src : CStr) (num : UInt8) : List UInt8 :=
  let tmp := strrchr src dot
  let extension := match tmp with
    | none => shortExtension 3 []
    | some k => shortExtension 3 (src.drop k)
  shortTail (shortBasename src tmp (List.range 8) 0 (dest.take 8) ++ extension) num

/-- The cell of `xfile`, the copy of the handle in `tf_choose_sfn`. -/
def xfile : Nat := tfFileHandles

/-- One round of the loop of `tf_choose_sfn`, at `(num, dest)`. -/
def chooseSfnRound (src : CStr) :
    UInt8 × List UInt8 → FsComp ((UInt8 × List UInt8) ⊕ List UInt8) := fun (num, dest) => do
  let dest := tfShortenFilename dest src num
  let temp := (dest.take 8 ++ dot :: dest.drop 8).takeWhile (· ≠ 0)
  let rc ← tfFindFile xfile temp
  if rc < 0 then
    pure (.inr dest)
  else
    pure (.inl (num + 1, dest))

def tfChooseSfn (dest : List UInt8) (src : CStr) (fp : Nat) : FsComp (List UInt8) := do
  let f ← getFile fp
  modifyFile xfile fun _ => f
  loop (chooseSfnRound src) fileRounds (1, dest)

/-! ## Making and removing entries -/

/-- `tf_fwrite` of the local `entry`. -/
def fwriteEntry (fp : Nat) : FsComp Unit := do
  let s ← read
  let _ ← tfFwrite s.entryAddr 32 fp

/-- `tf_place_lfn_chain`: an entry for each 13 characters, and one for no character. -/
def tfPlaceLfnChain (fp : Nat) (filename : CStr) : FsComp Unit :=
  forEach (List.range (max 1 ((filename.length + 12) / 13))) fun _ => fwriteEntry fp

/-- One round of the loop that reads entries up to the first without a name. -/
def skipEntriesRound (fp : Nat) (entry : FatFileEntry) :
    FsComp (FatFileEntry ⊕ FatFileEntry) := do
  let entry ← freadEntry entry fp
  if entryByte entry 0 ≠ 0 then
    pure (.inl entry)
  else
    pure (.inr entry)

/-- What `tf_create` and `tf_mkdir` have in common: a new cluster, the entries of the new
name at the end of the directory `fp`, and a blank one. -/
def placeEntry (fp : Nat) (filename : CStr) : FsComp Unit := do
  let s ← read
  let entry ← loop (skipEntriesRound fp) fileRounds s.stale
  let _ ← seekBy fp (-32)
  let cluster ← tfFindFreeCluster
  tfSetFatEntry cluster tfMarkEoc32
  match strrchr filename slash with
  | none => fault (.undefined "strrchr")
  | some n => do
    let temp := filename.drop (n + 1)
    let _ ← tfChooseSfn (entry.take 11) temp fp
    tfPlaceLfnChain fp temp
    fwriteEntry fp
    fwriteEntry fp

/-- `1` where the directory does not exist. -/
def tfCreate (filename : CStr) : FsComp Int := do
  let dir ← tfParent filename
  if dir = .null then
    pure 1
  else do
    let fp ← dir.deref
    let _ ← tfFclose fp
    let dir ← tfParent filename
    let fp ← dir.deref
    placeEntry fp filename
    let _ ← tfFclose fp
    pure 0

/-- `filename` begins with `/../`. -/
def isParentPath (filename : CStr) : Bool := filename.take 4 = [slash, dot, dot, slash]

/-- `filename` without the `/.` at its front. -/
def stripDot (filename : CStr) : CStr :=
  if filename.take 2 = [slash, dot] then filename.drop 2 else filename

def tfFopen (filename : CStr) (mode : Mode) : FsComp FilePtr := do
  if isParentPath filename then
    pure .null
  else do
    let filename := stripDot filename
    let p ← tfFnopen filename mode filename.length
    if p = .null then do
      let _ ← (if mode.plus ∨ mode.write then tfCreate filename else pure 0 : FsComp Int)
      tfFnopen filename mode filename.length
    else
      pure p

/-- `tf_mkdir` without `mkParents`, which no caller sets. `1` where it fails. -/
def tfMkdir (filename : CStr) : FsComp Int := do
  let filename := if filename.take 3 = [slash, dot, slash] then filename.drop 2 else filename
  if isParentPath filename then
    pure 0
  else do
    let p ← tfFopen filename .r
    if p ≠ .null then do
      let fp ← p.deref
      let _ ← tfFclose fp
      tfReleaseHandle fp
      pure 1
    else do
      let dir ← tfParent filename
      if dir = .null then
        pure 1
      else do
        let fp ← dir.deref
        placeEntry fp filename
        let _ ← tfFclose fp
        tfReleaseHandle fp
        let p ← tfFopen (filename.take 255) .w
        let fp ← p.deref
        fwriteEntry fp
        fwriteEntry fp
        fwriteEntry fp
        let _ ← tfFclose fp
        tfReleaseHandle fp
        pure 0

/-- One round of the loop of `tf_remove`, which moves the entries up by two. -/
def removeRound (fp : Nat) (entry : FatFileEntry) : FsComp (FatFileEntry ⊕ Unit) := do
  let rc ← seekBy fp 32
  if rc ≠ 0 then
    pure (.inr ())
  else do
    let entry ← freadEntry entry fp
    let _ ← seekBy fp (-96)
    fwriteEntry fp
    if entryByte entry 0 = 0 then
      pure (.inr ())
    else
      pure (.inl entry)

/-- The entries behind the one at `fp`, moved up, and the size of the directory. -/
def removeEntries (fp : Nat) : FsComp Unit := do
  let s ← read
  loop (removeRound fp) fileRounds s.stale
  modifyFile fp fun f => { f with
    size := u32 (f.size + (2 ^ 32 - 32)), flags := f.flags ||| tfFlagSizechanged }

def tfRemove (filename : CStr) : FsComp Int := do
  let p ← tfFopen filename .r
  if p = .null then
    pure (-1)
  else do
    let fp ← p.deref
    let f ← getFile fp
    let startCluster := f.startCluster
    let _ ← tfFclose fp
    let dir ← tfParent filename
    let fp ← dir.deref
    match strrchr filename slash with
    | none => fault (.undefined "strrchr")
    | some n => do
      let rc ← tfFindFile fp (filename.drop (n + 1))
      (if rc = 0 then removeEntries fp else pure () : FsComp Unit)
      let _ ← tfFclose fp
      tfFreeClusterchain startCluster
      pure 0

/-! ## Listing a directory -/

/-- The value a `uint64` keeps of an integer. -/
def addr64 (z : Int) : Nat := (z % 2 ^ 64).toNat

/-- The `n` bytes of a number, lowest first. -/
def leBytes (v n : Nat) : List UInt8 := (List.range n).map fun i => UInt8.ofNat (v / 256 ^ i)

/-- `either_copyout`. A kernel address is its own physical address. -/
def eitherCopyout (user : Bool) (dst : Int) (src : List UInt8) : FsComp Int := do
  let s ← read
  if user then
    onMemory (copyout s.pagetable (addr64 dst) src)
  else do
    onMemory (modify fun m => { m with mem := store m.mem (addr64 dst) src })
    pure 0

/-- `copysfn`. -/
def copySfn (e : FatFileEntry) (dst : Int) (user : Bool) : FsComp Nat := do
  let name := (e.take 8).takeWhile (· ≠ space)
  let _ ← eitherCopyout user dst name
  let extension := ((e.drop 8).take 3).takeWhile (· ≠ space)
  if extension = [] then
    pure name.length
  else do
    let _ ← eitherCopyout user (dst + name.length) [dot]
    let _ ← eitherCopyout user (dst + name.length + 1) extension
    pure (name.length + 1 + extension.length)

/-- The low bytes of the `n` characters at `i` of a long name, up to one that is `0xffff`. -/
def lfnChars (e : FatFileEntry) (i n : Nat) : List UInt8 :=
  (((List.range n).map fun j => entryWord e (i + 2 * j) 2).takeWhile (· ≠ 0xffff)).map UInt8.ofNat

/-- `copylfn`. -/
def copyLfn (e : FatFileEntry) (dst : Int) (user : Bool) : FsComp Nat := do
  let offset : Int := 13 * ((clearFlag e.sequenceNumber 0x40 : Nat) - 1)
  let name1 := lfnChars e 1 5
  let name2 := lfnChars e 14 6
  let name3 := lfnChars e 28 2
  let r ← eitherCopyout user (dst + offset) name1
  if r < 0 then
    Comp.panic "either copyout"
  else do
    let _ ← eitherCopyout user (dst + name1.length + offset) name2
    let _ ← eitherCopyout user (dst + name1.length + name2.length + offset) name3
    pure (name1.length + name2.length + name3.length)

def direntBaseLen : Nat := 19
def dtFifo : Nat := 1
def dtDir : Nat := 4

/-- `d_reclen` of a name of `n` characters. -/
def reclen (n : Nat) : Nat := (direntBaseLen + n) % 2 ^ 16

/-- The first `DIENT_BASE_LEN` bytes of the `struct dirent` at `contents`. -/
def direntBytes (e : FatFileEntry) (contents n : Nat) : List UInt8 :=
  leBytes (entryWord e 26 2) 8 ++ leBytes (u64 (contents + reclen n)) 8 ++ leBytes (reclen n) 2 ++
    leBytes (if e.attributes &&& tfAttrDirectory ≠ 0 then dtDir else dtFifo) 1

/-- One round of the loop of `ls` over the entries of a long name, at `(i, n)`. -/
def lsLfnRound (fp lfnEntries contents : Nat) (user : Bool) :
    Nat × Nat → FsComp ((Nat × Nat) ⊕ Option Nat) := fun (i, n) => do
  if ¬ i < lfnEntries then
    pure (.inr (some n))
  else do
    let entry ← tfFread 32 fp
    if entry.length ≠ 32 ∨ FatFileEntry.attributes entry ≠ tfAttrLongName then
      pure (.inr none)
    else do
      let k ← copyLfn entry (contents + direntBaseLen : Nat) user
      pure (.inl (i + 1, n + k))

/-- What `ls` does with a long name that begins with `entry`: the entry of the file, and the
length of the name. -/
def lsLfn (fp contents : Nat) (user : Bool) (entry : FatFileEntry) :
    FsComp (Option (FatFileEntry × Nat)) := do
  let n ← copyLfn entry (contents + direntBaseLen : Nat) user
  match ← loop (lsLfnRound fp (clearFlag entry.sequenceNumber 0x40) contents user) fileRounds
    (1, n) with
  | none => pure none
  | some n => do
    let entry ← tfFread 32 fp
    pure (if entry.length ≠ 32 then none else some (entry, n))

/-- One round of the loop of `ls`, at `(contents, readn)`. -/
def lsRound (fp : Nat) (len : Int) (user : Bool) :
    Nat × Nat → FsComp ((Nat × Nat) ⊕ Int) := fun (contents, readn) => do
  let entry ← tfFread 32 fp
  if entry.length ≠ 32 then
    pure (.inr readn)
  else if entryByte entry 0 = 0 ∨ addr64 len ≤ readn + 8 then
    pure (.inr readn)
  else if FatFileEntry.attributes entry ≠ tfAttrLongName then do
    let n ← copySfn entry (contents + direntBaseLen : Nat) user
    let _ ← eitherCopyout user contents (direntBytes entry contents n)
    pure (.inl (u64 (contents + reclen n), readn + reclen n))
  else if FatFileEntry.sequenceNumber entry &&& 0xc0 = 0x40 then
    if len ≤ (clearFlag (FatFileEntry.sequenceNumber entry) 0x40 * 26 + readn : Nat) then
      pure (.inr readn)
    else do
      match ← lsLfn fp contents user entry with
      | none => pure (.inr (-1))
      | some (entry, n) => do
        let _ ← eitherCopyout user contents (direntBytes entry contents n)
        pure (.inl (u64 (contents + reclen n), readn + reclen n))
  else
    pure (.inl (contents, readn))

/-! ## `Fat32FileSystem` -/

def oCreate : Nat := 0x200
def oDirectory : Nat := 0x0200000

/-- The fields of `struct file` that `open` sets. -/
structure OpenFile where
  size : Nat
  directory : Bool

/-- The part of `open` behind the lookups. `none` is `-1`, and leaves a file open. -/
def openFound (flags : Nat) (tf : FilePtr) : FsComp (Option OpenFile) :=
  if tf = .null then
    pure none
  else do
    let fp ← tf.deref
    let f ← getFile fp
    if flags = oDirectory ∧ f.attributes &&& tfAttrDirectory = 0 then
      pure none
    else do
      let _ ← tfFclose fp
      pure (some ⟨f.size, f.attributes &&& tfAttrDirectory ≠ 0⟩)

def Fat32.open (filePath : CStr) (flags : Nat) : FsComp (Option OpenFile) := do
  let tf ← tfFopen filePath (if flags &&& oCreate ≠ 0 then .w else .r)
  if tf = .null ∧ flags = oDirectory then do
    let _ ← tfMkdir filePath
    let tf ← tfFopen filePath .r
    openFound flags tf
  else
    openFound flags tf

def Fat32.mkdir (filepath : CStr) : FsComp Int := tfMkdir filepath

/-- The bytes stored to the kernel's `buf`, whose number is the result; `none` is `-1`. -/
def Fat32.read (path : CStr) (offset n : Int) : FsComp (Option (List UInt8)) := do
  let p ← tfFopen path .r
  if p = .null then
    pure none
  else do
    let fp ← p.deref
    let _ ← tfFseek fp 0 offset
    let x ← tfFread n.toNat fp
    let _ ← tfFclose fp
    pure (some x)

/-- `freadRound` to the address `dest` of the process, at `(dest, size, n)`. -/
def freadUserRound (fp : Nat) :
    Nat × Nat × Nat → FsComp ((Nat × Nat × Nat) ⊕ Nat) := fun (dest, size, n) => do
  if ¬ 0 < size then
    pure (.inr n)
  else do
    let f ← getFile fp
    let s ← read
    tfFetch (fileSector s.info.shape f)
    if f.currentByte < 0 then
      fault (.undefined "tf_info.buffer")
    else do
      let x := chunk f size
      let s ← read
      let _ ← eitherCopyout true dest (load s.info.buffer (f.currentByte % 512).toNat x)
      let r ← tfFseek fp 0 (f.pos + x : Nat)
      if r ≠ 0 then
        pure (.inr (n + x))
      else
        pure (.inl (dest + x, size - x, n + x))

/-- `read` to the address `buf` of the process. -/
def Fat32.readUser (path : CStr) (buf : Nat) (offset n : Int) : FsComp (Option Nat) := do
  let p ← tfFopen path .r
  if p = .null then
    pure none
  else do
    let fp ← p.deref
    let _ ← tfFseek fp 0 offset
    let x ← loop (freadUserRound fp) fileRounds (buf, n.toNat, 0)
    let _ ← tfFclose fp
    pure (some x)

/-- The parameter `user` is overwritten before it is read. -/
def Fat32.write (path : CStr) (buf : Nat) (offset n : Int) : FsComp Int := do
  let p ← tfFopen path .p
  let fp ← p.deref
  let _ ← tfFseek fp 0 offset
  let x ← tfFwrite buf n.toNat fp
  let _ ← tfFclose fp
  pure x

/-- The size of the file. -/
def Fat32.getFile (filepath : CStr) : FsComp (Option Nat) := do
  let p ← tfFopen filepath .r
  if p = .null then
    pure none
  else do
    let fp ← p.deref
    let f ← PageFaultOS.getFile fp
    let _ ← tfFclose fp
    pure (some f.size)

def Fat32.touch (filepath : CStr) : FsComp Int := do
  let _ ← tfCreate filepath
  pure 0

def Fat32.rm (filepath : CStr) : FsComp Int := do
  let _ ← tfRemove filepath
  pure 0

/-- The handle is not given back. -/
def Fat32.ls (filepath : CStr) (contents : Nat) (len : Int) (user : Bool) : FsComp Int := do
  let p ← tfFopen filepath .r
  if p = .null then
    pure (-1)
  else do
    let fp ← p.deref
    let f ← PageFaultOS.getFile fp
    if f.attributes &&& tfAttrDirectory = 0 then
      pure (-1)
    else
      loop (lsRound fp len user) fileRounds (contents, 0)

end PageFaultOS
