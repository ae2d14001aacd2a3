import Mathlib.Tactic
import PageFaultOS.Proc.Sched

/-! Open files: the file table of `fs/vfs.cpp`, the descriptors and mappings of the
processes, and the system calls of `syscall/syscallfile.cpp` that work on them. The calls
are taken as atomic, so the locks are left out. A `struct file *` or `struct vma *` is the
number of its entry. -/

namespace PageFaultOS
open Exec Exec.Comp

def NFILE : Nat := 100
def NVMA : Nat := 15

def oWriteonly : Nat := 0x001
def oRdwr : Nat := 0x002
def mapShared : Nat := 0x001

inductive FileType where
  | none | pipe | entry | device
  deriving DecidableEq, Repr

/-- `struct file`, less `location`, which nothing uses. -/
structure File where
  filepath : List UInt8
  directory : Bool
  size : Nat
  ref : Int
  readable : Bool
  writable : Bool
  type : FileType
  pip : Option Nat
  position : Nat
  deriving DecidableEq

/-- `memset(fp, 0, sizeof(struct file))`; `FD_NONE` is `0`. -/
def File.zero : File := ⟨[], false, 0, 0, false, false, .none, none, 0⟩

/-- `struct vma`. -/
structure Mapping where
  addr : Nat
  length : Int
  prot : Int
  flag : Int
  f : Option Nat
  deriving DecidableEq

def Mapping.zero : Mapping := ⟨0, 0, 0, 0, none⟩

/-- The fields of `struct proc` that the calls use. `workDir` is the string in the buffer. -/
structure FileProc where
  state : ProcState
  workDir : List UInt8
  ofile : Nat → Option Nat
  vma : Nat → Option Nat

structure Files where
  fileTable : Nat → File
  vma : Nat → Mapping
  procTable : Nat → FileProc

abbrev FilesComp := Comp Files

namespace Files

def withFile (w : Files) (i : Nat) (f : File → File) : Files :=
  { w with fileTable := Function.update w.fileTable i (f (w.fileTable i)) }

def withVma (w : Files) (a : Nat) (f : Mapping → Mapping) : Files :=
  { w with vma := Function.update w.vma a (f (w.vma a)) }

def withProc (w : Files) (p : Nat) (f : FileProc → FileProc) : Files :=
  { w with procTable := Function.update w.procTable p (f (w.procTable p)) }

end Files

def setFile (i : Nat) (f : File → File) : FilesComp Unit := modify fun w => w.withFile i f

def setVma (a : Nat) (f : Mapping → Mapping) : FilesComp Unit := modify fun w => w.withVma a f

def setOfile (p fd : Nat) (x : Option Nat) : FilesComp Unit := modify fun w =>
  w.withProc p fun q => { q with ofile := Function.update q.ofile fd x }

def setVmaSlot (p i : Nat) (x : Option Nat) : FilesComp Unit := modify fun w =>
  w.withProc p fun q => { q with vma := Function.update q.vma i x }

/-- The value a `uint64` keeps of an integer. -/
def toUint64 (z : Int) : Nat := (z % 2 ^ 64).toNat

/-! ## `fs/vfs.cpp` and the helpers of `proc/proc.cpp` -/

/-- A path that does not fit into the buffer is written behind its end. -/
def getAbPath (p : Nat) (path : List UInt8) : FilesComp (List UInt8) := do
  let w ← read
  let oldpath := if path.take 2 = [46, 47] then path.drop 2 else path
  let newpath := if oldpath.head? = some 47 then oldpath
    else (w.procTable p).workDir ++ oldpath
  if newpath.length < MAXPATH then pure newpath else fault (.undefined "path buffer")

def allocFileHandle : FilesComp Nat := do
  let w ← read
  match (List.range NFILE).find? fun i =>
      (w.fileTable i).ref = 0 ∧ (w.fileTable i).type = .none with
  | some i => do
    setFile i fun f => { f with ref := 1 }
    pure i
  | none => Comp.panic "alloc file"

def freeFileHandle (fp : Nat) : FilesComp Unit := setFile fp fun _ => File.zero

def registFileHandle (p fp : Nat) (fd : Int) : FilesComp Int := do
  if (NFILE : Int) < fd then pure (-1)
  else do
    let w ← read
    if fd < 0 then
      match (List.range NOFILE).find? fun i => (w.procTable p).ofile i = none with
      | some i => do
        setOfile p i (some fp)
        pure i
      | none => Comp.panic "registFileHandle"
    else if (w.procTable p).ofile fd.toNat = none then do
      setOfile p fd.toNat (some fp)
      pure fd
    else pure (-1)

/-- The test lets `NOFILE` through, which is behind the end of `ofile`. -/
def getFileByFd (p : Nat) (fd : Int) : FilesComp (Option Nat) := do
  if fd < 0 ∨ (NOFILE : Int) < fd then pure none
  else if fd = NOFILE then fault (.undefined "ofile")
  else do
    let w ← read
    pure ((w.procTable p).ofile fd.toNat)

/-- What `fs->open` does with the file: `DeviceFS::open`, which is also the one of the file
systems that `createFileSystem` makes, `Fat32FileSystem::open`, or a failure. -/
inductive FsOpen where
  | device
  | entry (size : Nat) (directory : Bool)
  | failed
  deriving DecidableEq, Repr

def FsOpen.open (fs : FsOpen) (f : File) : Option File :=
  match fs with
  | .device => some { f with type := .device, directory := false }
  | .entry size directory => some { f with size := size, type := .entry, directory := directory }
  | .failed => none

def vfsopen (p : Nat) (filename : List UInt8) (flags : Nat) (fs : FsOpen) : FilesComp Int := do
  let path ← getAbPath p filename
  let fp ← allocFileHandle
  let w ← read
  match fs.open (w.fileTable fp) with
  | none => do
    freeFileHandle fp
    pure (-1)
  | some f => do
    setFile fp fun _ =>
      { f with
        filepath := path
        readable := flags &&& oWriteonly = 0
        writable := flags &&& oWriteonly ≠ 0 ∨ flags &&& oRdwr ≠ 0 }
    registFileHandle p fp (-1)

/-- Its body is empty. -/
def vfsclose (_fp : Option Nat) : FilesComp Unit := pure ()

def vfsdup (fp : Option Nat) : FilesComp Nat := do
  match fp with
  | none => fault (.undefined "null file")
  | some i => do
    let w ← read
    if (w.fileTable i).ref < 1 then Comp.panic "vfsdup"
    else do
      setFile i fun f => { f with ref := f.ref + 1 }
      pure i

def vfsrewind (fp : Option Nat) : FilesComp Unit := do
  match fp with
  | none => fault (.undefined "null file")
  | some i => do
    let w ← read
    if (w.fileTable i).ref < 1 then Comp.panic "filerewind"
    else setFile i fun f => { f with position := 0 }

/-- What `vfswrite` does with the file; `r` is what `fs->write` returns. -/
def vfswrite (fp : Option Nat) (r : Int) : FilesComp Unit := do
  match fp with
  | none => pure ()
  | some i => do
    let w ← read
    if (w.fileTable i).writable then
      match (w.fileTable i).type with
      | .pipe | .device => pure ()
      | .entry => setFile i fun f =>
          let position := toUint64 (f.position + r)
          { f with size := if position < f.size then f.size else position, position := position }
      | .none => Comp.panic "vfswrite"
    else pure ()

/-- `pi` is what `new pipe` returns. -/
def vfscreatePipe (p : Nat) (pi : Option Nat) : FilesComp (Option (Int × Int)) := do
  let f0 ← allocFileHandle
  let f1 ← allocFileHandle
  match pi with
  | none => do
    freeFileHandle f0
    freeFileHandle f1
    pure none
  | some pi => do
    setFile f0 fun f =>
      { f with type := .pipe, readable := true, writable := false, pip := some pi }
    setFile f1 fun f =>
      { f with type := .pipe, readable := false, writable := true, pip := some pi }
    let fd0 ← registFileHandle p f0 (-1)
    let fd1 ← registFileHandle p f1 (-1)
    pure (some (fd0, fd1))

def allocVma : FilesComp (Option Nat) := do
  let w ← read
  pure ((List.range NVMA).find? fun a => (w.vma a).f = none)

def freeVma (a : Nat) : FilesComp Unit := setVma a fun _ => Mapping.zero

/-! ## `syscall/syscallfile.cpp` -/

def argfd (p : Nat) (fd : Int) : FilesComp (Option Nat) := do
  let w ← read
  if fd < 0 ∨ (NOFILE : Int) ≤ fd then pure none
  else pure ((w.procTable p).ofile fd.toNat)

def sysClose (p : Nat) (fd : Int) : FilesComp Int := do
  let fp ← getFileByFd p fd
  vfsclose fp
  if fd < 0 ∨ (NOFILE : Int) ≤ fd then fault (.undefined "ofile")
  else do
    setOfile p fd.toNat none
    pure 0

def sysDup (p : Nat) (fd : Int) : FilesComp Int := do
  match ← getFileByFd p fd with
  | none => pure (-1)
  | some fp => do
    let fp ← vfsdup (some fp)
    registFileHandle p fp (-1)

/-- The result of `getFileByFd` is used without a test. -/
def sysDup3 (p : Nat) (oldfd newfd : Int) : FilesComp Int := do
  let fp ← getFileByFd p oldfd
  let fp ← vfsdup fp
  let ansfd ← registFileHandle p fp newfd
  if ansfd < 0 then vfsclose (some fp)
  pure ansfd

/-- `copied` is whether both `copyout`s succeed. The descriptors that `vfscreatePipe` did
not set are used all the same. -/
def sysPipe2 (p : Nat) (pi : Option Nat) (copied : Bool) : FilesComp Int := do
  match ← vfscreatePipe p pi with
  | none => fault (.undefined "fds")
  | some (fd0, fd1) =>
    if copied then pure 0
    else do
      vfsclose (← getFileByFd p fd0)
      vfsclose (← getFileByFd p fd1)
      pure (-1)

/-- The lengths of the mappings of a process. -/
def vmasz (w : Files) (p : Nat) : Int :=
  ((List.range NOMMAPFILE).map fun i => match (w.procTable p).vma i with
    | some a => (w.vma a).length
    | none => 0).sum

def sysMmap (p : Nat) (length prot flags fd : Int) : FilesComp Int := do
  match ← argfd p fd with
  | none => pure (-1)
  | some f => do
    let a ← allocVma
    let f ← vfsdup (some f)
    setFile f fun x => { x with position := 0 }
    match a with
    | none => fault (.undefined "null vma")
    | some a => do
      setVma a fun v => { v with f := some f, length := length }
      let w ← read
      let addr := pgrounddown (toUint64 (maxva - pgsize * 5 - vmasz w p - length))
      setVma a fun v => { v with addr := addr, prot := prot, flag := flags }
      match (List.range NOMMAPFILE).find? fun i => (w.procTable p).vma i = none with
      | some i => do
        setVmaSlot p i (some a)
        pure addr
      | none => pure addr

/-- The slot and the mapping that `sys_munmap` finds for an address. -/
def findVma (w : Files) (p addr : Nat) : Option (Nat × Nat) :=
  (List.range NOMMAPFILE).findSome? fun i => match (w.procTable p).vma i with
    | some a =>
      if (w.vma a).addr ≤ addr ∧ addr < toUint64 ((w.vma a).addr + (w.vma a).length) then
        some (i, a)
      else none
    | none => none

/-- The part that `sys_munmap` and `exit` share: what is written back, and `vmunmap`, which
returns or panics. -/
def unmapVma (a : Nat) (r : Int) (unmapped : Bool) : FilesComp Unit := do
  let w ← read
  if toUint64 (w.vma a).flag &&& mapShared ≠ 0 then
    vfsrewind (w.vma a).f
    vfswrite (w.vma a).f r
  if unmapped then pure () else Comp.panic "vmunmap"

def sysMunmap (p addr : Nat) (sz r : Int) (unmapped : Bool) : FilesComp Int := do
  let w ← read
  match findVma w p addr with
  | none => pure (-1)
  | some (index, a) => do
    unmapVma a r unmapped
    setVma a fun v => { v with length := Int.bmod (v.length - sz) (2 ^ 32) }
    let w ← read
    if (w.vma a).length = 0 then
      vfsclose (w.vma a).f
      freeVma a
      setVmaSlot p index none
    pure 0

/-! ## `fork`, `clone` and `exit` of `proc/proc.cpp`, as far as files go -/

/-- `*childVma = *vma; vfsdup(vma->f); child->vma[i] = childVma`. -/
def copyVma (child i a : Nat) : FilesComp Unit := do
  let childVma ← allocVma
  match childVma with
  | none => fault (.undefined "null vma")
  | some b => do
    let w ← read
    setVma b fun _ => w.vma a
    let _ ← vfsdup (w.vma a).f
    setVmaSlot child i (some b)

def copyOfile (p child i : Nat) : FilesComp Unit := do
  let w ← read
  match (w.procTable p).ofile i with
  | some fp => do
    let fp ← vfsdup (some fp)
    setOfile child i (some fp)
  | none => pure ()

def copyVmaSlot (p child i : Nat) : FilesComp Unit := do
  let w ← read
  setVmaSlot child i none
  match (w.procTable p).vma i with
  | some a => copyVma child i a
  | none => pure ()

/-- What `fork` and `clone` do once the memory is copied. -/
def copyFiles (p child : Nat) : FilesComp Unit := do
  forEach (List.range NOFILE) (copyOfile p child)
  forEach (List.range NOMMAPFILE) (copyVmaSlot p child)
  modify fun w => w.withProc child fun q =>
    { q with workDir := (w.procTable p).workDir, state := .runnable }

/-- `none` where `allocproc` finds no entry or `Uvmcopy` fails, which leave the files alone. -/
def Files.fork (p : Nat) : Option Nat → FilesComp Int
  | none => pure (-1)
  | some child => do
    copyFiles p child
    pure child

def Files.clone (p : Nat) (child : Option Nat) (_stack : Nat) (_flags : Int) : FilesComp Int :=
  Files.fork p child

def Files.exit (p : Nat) (r : Nat → Int) (unmapped : Bool) : FilesComp Unit := do
  forEach (List.range NOFILE) fun fd => do
    let w ← read
    if (w.procTable p).ofile fd ≠ none then
      vfsclose ((w.procTable p).ofile fd)
      setOfile p fd none
  modify fun w => w.withProc p fun q => { q with workDir := [] }
  forEach (List.range NOMMAPFILE) fun i => do
    let w ← read
    match (w.procTable p).vma i with
    | some a => do
      unmapVma a (r i) unmapped
      vfsclose (w.vma a).f
      freeVma a
    | none => pure ()
  modify fun w => w.withProc p fun q => { q with state := .zombie }

/-- `freeproc`, for a child that `wait` or `wait4` found to be a zombie. -/
def Files.freeproc (child : Nat) : FilesComp Unit := modify fun w =>
  w.withProc child fun q => { q with vma := fun _ => none, state := .unused }

end PageFaultOS
