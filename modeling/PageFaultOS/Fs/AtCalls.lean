import Mathlib.Tactic
import PageFaultOS.Fs.FileRefs
import PageFaultOS.Fs.Path

/-! The calls that take a directory and a path: `vfsmkdirat`, `vfsopenat` and `vfsrm` of
`fs/vfs.cpp`, `sys_openat`, and `vfschdir`. What a file system does at the path that a call has
built is an argument of the call. -/

namespace PageFaultOS
open Exec Exec.Comp

def atFdcwd : Int := -100

/-- `oldpath` of `getAbPath`: the path behind a `./`. -/
def behindDot (path : CStr) : CStr := if path.take 2 = [dot, slash] then path.drop 2 else path

/-- The path that `getAbPath` makes, before it is known to fit. -/
def Files.absPath (w : Files) (p : Nat) (path : CStr) : CStr :=
  if (behindDot path).head? = some slash then behindDot path
  else (w.procTable p).workDir ++ behindDot path

/-- `memcpy` to a path buffer that has been cleared. -/
def pathBuffer (path : CStr) : FilesComp CStr :=
  if path.length < MAXPATH then pure path else fault (.undefined "at path buffer")

/-- The lines that `vfsmkdirat`, `vfsopenat` and `vfsrm` share. -/
def dirPath (p : Nat) (dirfd : Int) (filepath : CStr) : FilesComp CStr :=
  if dirfd = atFdcwd then getAbPath p filepath
  else if filepath.head? = some slash then pathBuffer filepath
  else do
    match ← getFileByFd p dirfd with
    | none => fault (.undefined "null file")
    | some fp => do
      let w ← read
      pathBuffer ((w.fileTable fp).filepath ++ filepath)

section Calls
variable {α : Type} (p : Nat) (dirfd : Int) (filepath : CStr) (act : CStr → FilesComp α)

def vfsmkdirat : FilesComp α := dirPath p dirfd filepath >>= act

def vfsrm : FilesComp α := dirPath p dirfd filepath >>= act

/-- `vfsopen`, where `act` is everything behind `getAbPath`. -/
def vfsopenBy : FilesComp α := getAbPath p filepath >>= act

/-- It hands on `filepath` and not the path that it has built. -/
def vfsopenat : FilesComp α := dirPath p dirfd filepath >>= fun _ => vfsopenBy p filepath act

/-- It does not use `dirfd`. -/
def sysOpenat (_dirfd : Int) : FilesComp α := vfsopenBy p filepath act

end Calls

/-- `vfsopen` behind `getAbPath`. -/
def vfsopenPath (p : Nat) (flags : Nat) (fs : FsOpen) (path : CStr) : FilesComp Int := do
  let fp ← allocFileHandle
  let w ← read
  match fs.open (w.fileTable fp) with
  | none => do
    freeFileHandle fp
    pure (-1)
  | some f => do
    setFile fp fun _ =>
      { f with
        filepath := path
        readable := flags &&& oWriteonly = 0
        writable := flags &&& oWriteonly ≠ 0 ∨ flags &&& oRdwr ≠ 0 }
    registFileHandle p fp (-1)

theorem vfsopen_eq_by (p : Nat) (filename : CStr) (flags : Nat) (fs : FsOpen) :
    vfsopen p filename flags fs = vfsopenBy p filename (vfsopenPath p flags fs) := rfl

/-- `path` with the `/` that `vfschdir` puts behind it. -/
def closePath (path : CStr) : FilesComp CStr :=
  if path = [] then fault (.undefined "path buffer")
  else if path.getLast? = some slash then pure path
  else if path.length + 1 < MAXPATH then pure (path ++ [slash])
  else fault (.undefined "path buffer")

/-- The rest of `vfschdir`, for a directory. -/
def enterDirectory (p fp : Nat) (path : CStr) : FilesComp Int := do
  let path ← closePath path
  modify fun w => w.withProc p fun q => { q with workDir := path }
  freeFileHandle fp
  pure 0

/-- Where `fs->open` fails the file is kept. -/
def vfschdir (p : Nat) (filepath : CStr) (fs : FsOpen) : FilesComp Int := do
  let fp ← allocFileHandle
  let path ← getAbPath p filepath
  let w ← read
  match fs.open (w.fileTable fp) with
  | none => pure (-1)
  | some f => do
    setFile fp fun _ => f
    if f.directory then enterDirectory p fp path
    else do
      freeFileHandle fp
      pure (-1)

/-- What `vfsmkdirat` returns is thrown away. -/
def sysMkdirat (p : Nat) (dirfd : Int) (path : CStr) (mkdir : CStr → Int) : FilesComp Int := do
  let _ ← vfsmkdirat p dirfd path fun path => pure (mkdir path)
  pure 0

/-! ## The paths -/

section Paths
variable {w : Files} {p : Nat} {dirfd : Int} {filepath path : CStr}

theorem getAbPath_apply (w : Files) (p : Nat) (path : CStr) : getAbPath p path w =
    if (w.absPath p path).length < MAXPATH then .ok (w.absPath p path) w
    else .fault (.undefined "path buffer") w := by
  show (if (w.absPath p path).length < MAXPATH then pure (w.absPath p path)
    else fault (.undefined "path buffer") : FilesComp CStr) w = _
  split <;> rfl

theorem pathBuffer_apply (w : Files) (path : CStr) : pathBuffer path w =
    if path.length < MAXPATH then .ok path w else .fault (.undefined "at path buffer") w := by
  unfold pathBuffer
  split <;> rfl

theorem getAbPath_ok_iff {x : CStr} : getAbPath p path w = .ok x w ↔
    w.absPath p path = x ∧ x.length < MAXPATH := by
  rw [getAbPath_apply]
  split
  case isTrue h =>
    constructor
    · intro heq
      cases heq
      exact ⟨rfl, h⟩
    · rintro ⟨rfl, _⟩
      rfl
  case isFalse h =>
    constructor
    · intro heq
      cases heq
    · rintro ⟨rfl, hlt⟩
      exact absurd hlt h

theorem pathBuffer_ok_iff {x : CStr} : pathBuffer path w = .ok x w ↔
    path = x ∧ x.length < MAXPATH := by
  rw [pathBuffer_apply]
  split
  case isTrue h =>
    constructor
    · intro heq
      cases heq
      exact ⟨rfl, h⟩
    · rintro ⟨rfl, _⟩
      rfl
  case isFalse h =>
    constructor
    · intro heq
      cases heq
    · rintro ⟨rfl, hlt⟩
      exact absurd hlt h

end Paths

/-! ## One path for all of them -/

/-- Two paths with exactly one `/` between them, where the second does not begin with one. -/
def joinPath (d s : CStr) : CStr := if d.getLast? = some slash then d ++ s else d ++ slash :: s

/-- The `filepath` of the file that is open as `dirfd`. -/
def Files.dirName (w : Files) (p : Nat) (dirfd : Int) : CStr :=
  match (w.procTable p).ofile dirfd.toNat with
  | some i => (w.fileTable i).filepath
  | none => []

/-- The path that the calls are to act on: the path itself, or behind the current directory, or
behind that of `dirfd`. -/
def Files.atPath (w : Files) (p : Nat) (dirfd : Int) (filepath : CStr) : CStr :=
  if filepath.head? = some slash then filepath
  else if dirfd = atFdcwd then joinPath (w.procTable p).workDir (behindDot filepath)
  else joinPath (w.dirName p dirfd) filepath

/-- `dirfd` is open, for a directory. -/
def Files.OpenDir (w : Files) (p : Nat) (dirfd : Int) : Prop :=
  0 ≤ dirfd ∧ dirfd < NOFILE ∧
    ∃ i, (w.procTable p).ofile dirfd.toNat = some i ∧ (w.fileTable i).directory = true

/-- All four calls act on the path `x`. -/
structure ActOn (w : Files) (p : Nat) (dirfd : Int) (filepath x : CStr) : Prop where
  vfsmkdirat : ∀ (α : Type) (act : CStr → FilesComp α), vfsmkdirat p dirfd filepath act w = act x w
  vfsrm : ∀ (α : Type) (act : CStr → FilesComp α), vfsrm p dirfd filepath act w = act x w
  vfsopenat : ∀ (α : Type) (act : CStr → FilesComp α), vfsopenat p dirfd filepath act w = act x w
  sysOpenat : ∀ (α : Type) (act : CStr → FilesComp α), sysOpenat p filepath act dirfd w = act x w

/-- The path fits, and it is absolute, or taken from a current directory that ends with a `/`, or
from a directory whose path does and that `vfsopen` arrives at too. -/
def Files.Resolves (w : Files) (p : Nat) (dirfd : Int) (filepath : CStr) : Prop :=
  (w.atPath p dirfd filepath).length < MAXPATH ∧
    (filepath.head? = some slash ∨
      (behindDot filepath).head? ≠ some slash ∧
        (dirfd = atFdcwd ∧ (w.procTable p).workDir.getLast? = some slash ∨
          dirfd ≠ atFdcwd ∧ (w.dirName p dirfd).getLast? = some slash ∧
            (w.procTable p).workDir ++ behindDot filepath = w.dirName p dirfd ++ filepath))

section Agree
variable {w : Files} {p : Nat} {dirfd : Int} {filepath x : CStr}

theorem behindDot_absolute (h : filepath.head? = some slash) : behindDot filepath = filepath := by
  unfold behindDot
  rw [if_neg]
  intro hdot
  cases filepath with
  | nil => cases h
  | cons c s =>
    have hc : c = slash := Option.some.inj h
    subst hc
    simp [slash, dot] at hdot

theorem behindDot_length_le (filepath : CStr) : (behindDot filepath).length ≤ filepath.length := by
  unfold behindDot
  split
  · rw [List.length_drop]
    omega
  · exact le_refl _

theorem absPath_absolute (h : filepath.head? = some slash) : w.absPath p filepath = filepath := by
  unfold Files.absPath
  rw [behindDot_absolute h, if_pos h]

theorem absPath_relative (h : (behindDot filepath).head? ≠ some slash) :
    w.absPath p filepath = (w.procTable p).workDir ++ behindDot filepath := if_neg h

/-- Behind a directory without a final `/` the code puts none. -/
theorem append_eq_joinPath_iff {d s : CStr} : d ++ s = joinPath d s ↔
    d.getLast? = some slash := by
  unfold joinPath
  split
  case isTrue h => exact ⟨fun _ => h, fun _ => rfl⟩
  case isFalse h =>
    constructor
    · intro heq
      have hlen := congrArg List.length heq
      rw [List.length_append, List.length_append, List.length_cons] at hlen
      omega
    · intro hlast
      exact absurd hlast h

/-- An absolute path is not one behind a directory. -/
theorem joinPath_ne (d : CStr) {s t : CStr} (hd : d ≠ []) (ht : t.length ≤ s.length) :
    t ≠ joinPath d s := by
  intro heq
  have hlen := congrArg List.length heq
  have hpos := List.length_pos_iff.mpr hd
  unfold joinPath at hlen
  split at hlen <;> simp only [List.length_append, List.length_cons] at hlen <;> omega

theorem joinPath_nil_ne (s : CStr) : s ≠ joinPath [] s := by
  intro heq
  have hlen := congrArg List.length heq
  simp [joinPath] at hlen

theorem dirPath_open (hopen : w.OpenDir p dirfd) (hcwd : dirfd ≠ atFdcwd)
    (hrel : filepath.head? ≠ some slash) :
    dirPath p dirfd filepath w = pathBuffer (w.dirName p dirfd ++ filepath) w := by
  obtain ⟨h0, hlt, i, hi, _⟩ := hopen
  have hget : getFileByFd p dirfd w = .ok (some i) w := by
    unfold getFileByFd
    rw [if_neg (by omega), if_neg (by omega), read_bind, hi]
    rfl
  have hname : w.dirName p dirfd = (w.fileTable i).filepath := by
    unfold Files.dirName
    rw [hi]
  unfold dirPath
  rw [if_neg hcwd, if_neg hrel, bind_ok hget, hname]
  rfl

/-- All four act on `x` just when both ways to build the path arrive there. -/
theorem actOn_iff : ActOn w p dirfd filepath x ↔
    dirPath p dirfd filepath w = .ok x w ∧ getAbPath p filepath w = .ok x w := by
  constructor
  · intro h
    have hpure : ∀ y : FilesComp CStr, (y >>= pure) w = y w := by
      intro y
      rw [bind_apply]
      cases y w <;> rfl
    have hmkdir := h.vfsmkdirat CStr pure
    have hopen := h.sysOpenat CStr pure
    unfold vfsmkdirat at hmkdir
    unfold sysOpenat vfsopenBy at hopen
    rw [hpure] at hmkdir hopen
    exact ⟨hmkdir, hopen⟩
  · rintro ⟨hdir, habs⟩
    refine ⟨fun α act => bind_ok hdir _, fun α act => bind_ok hdir _, fun α act => ?_,
      fun α act => bind_ok habs _⟩
    exact (bind_ok hdir _).trans (bind_ok habs _)

end Agree

/-- Process 1 is in `/a/` and has `/b/` open as `3`. -/
def atFiles : Files where
  fileTable := fun _ => { File.zero with
    filepath := [47, 98, 47], directory := true, ref := 1, readable := true, type := .entry }
  vma := fun _ => Mapping.zero
  procTable := fun _ =>
    { state := .running, workDir := [47, 97, 47],
      ofile := fun fd => if fd = 3 then some 0 else none, vma := fun _ => none }

private theorem atFiles_open : atFiles.OpenDir 1 3 := ⟨by decide, by decide, 0, rfl, rfl⟩

end PageFaultOS
