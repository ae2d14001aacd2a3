import Mathlib.Tactic
import PageFaultOS.Lib.Run
import PageFaultOS.Fs.AtCalls

/-! The current directory of a process and the path buffers, over any sequence of `sys_chdir`,
`sys_open` and `sys_mkdirat` of the process. -/

namespace PageFaultOS
open Exec Exec.Comp Res

inductive DirCall where
  | chdir (path : CStr) (fs : FsOpen)
  | open (path : CStr) (flags : Nat) (fs : FsOpen)
  | mkdirat (dirfd : Int) (path : CStr) (mkdir : CStr → Int)

def DirCall.path : DirCall → CStr
  | .chdir path _ | .open path _ _ | .mkdirat _ path _ => path

/-- What `argstr` leaves in a buffer of `MAXPATH` bytes. -/
def UserString (path : CStr) : Prop := 0 ∉ path ∧ path.length ≤ MAXPATH - 1

instance (path : CStr) : Decidable (UserString path) := inferInstanceAs (Decidable (_ ∧ _))

def DirCall.call (p : Nat) : DirCall → FilesComp Int
  | .chdir path fs => vfschdir p path fs
  | .open path flags fs => vfsopen p path flags fs
  | .mkdirat dirfd path mkdir => sysMkdirat p dirfd path mkdir

/-- A call that panics, or that leaves its buffers, is the last one. -/
def dirStep (p : Nat) (w : Files) (c : DirCall) : Option Files :=
  if UserString c.path then
    match c.call p w with
    | .ok _ w' => some w'
    | .fault _ _ => none
  else none

/-- A string of at most `MAXPATH - 1` characters that begins and ends with a `/`. -/
structure WorkDirOk (d : CStr) : Prop where
  string : 0 ∉ d
  short : d.length ≤ MAXPATH - 1
  first : d.head? = some slash
  last : d.getLast? = some slash

/-- `getAbPath` and `vfschdir` stay inside their path buffers, with a `NUL` at the end. -/
def DirCall.InBuffers (p : Nat) (w : Files) (c : DirCall) : Prop :=
  ∀ s, c.call p w ≠ .fault (.undefined "path buffer") s

/-- `allocFileHandle` finds nothing. -/
def Files.NoHandle (w : Files) : Prop :=
  ∀ i < NFILE, ¬ ((w.fileTable i).ref = 0 ∧ (w.fileTable i).type = .none)

def FsOpen.opensDirectory : FsOpen → Bool
  | .entry _ directory => directory
  | .device | .failed => false

/-- The absolute path fits into the buffer, for a new current directory with a `/` behind it. -/
def DirCall.Fits (p : Nat) (w : Files) : DirCall → Prop
  | .chdir path fs => w.NoHandle ∨ (w.absPath p path).length < MAXPATH ∧
      (fs.opensDirectory = true → (w.absPath p path).getLast? = some slash ∨
        (w.absPath p path).length + 1 < MAXPATH)
  | .open path _ _ => (w.absPath p path).length < MAXPATH
  | .mkdirat dirfd path _ => dirfd = atFdcwd → (w.absPath p path).length < MAXPATH

/-! ## What the calls leave of the current directory -/

/-- Process `p` stays where it is. -/
def SameDir (p : Nat) (s t : Files) : Prop := (t.procTable p).workDir = (s.procTable p).workDir

instance (p : Nat) : Std.Refl (SameDir p) := ⟨fun _ => rfl⟩

instance (p : Nat) : IsTrans Files (SameDir p) := ⟨fun _ _ _ h1 h2 => h2.trans h1⟩

/-- The faults that are no path behind the end of its buffer. -/
def OtherFault (e : Fault) : Prop := e ≠ .undefined "path buffer"

section Stays
variable {p q fp : Nat} {fd : Int}

theorem setFile_stays (g : File → File) : Follows (SameDir q) OtherFault (setFile fp g) :=
  follows_modify fun _ => rfl

theorem setOfile_stays (i : Nat) (x : Option Nat) :
    Follows (SameDir q) OtherFault (setOfile p i x) := by
  refine follows_modify fun w => ?_
  unfold SameDir
  rw [withProc_apply]
  split
  case isTrue h => rw [h]
  case isFalse h => rfl

theorem allocFileHandle_stays : Follows (SameDir q) OtherFault allocFileHandle := by
  refine follows_bind follows_read fun w => ?_
  split
  · exact follows_bind (setFile_stays _) fun _ => follows_pure _
  · exact follows_fault (by simp [OtherFault])

theorem registFileHandle_stays : Follows (SameDir q) OtherFault (registFileHandle p fp fd) := by
  unfold registFileHandle
  refine follows_ite (follows_pure _) (follows_bind follows_read fun w => ?_)
  refine follows_ite ?_ (follows_ite ?_ (follows_pure _))
  · split
    · exact follows_bind (setOfile_stays _ _) fun _ => follows_pure _
    · exact follows_fault (by simp [OtherFault])
  · exact follows_bind (setOfile_stays _ _) fun _ => follows_pure _

theorem getFileByFd_stays : Follows (SameDir q) OtherFault (getFileByFd p fd) := by
  unfold getFileByFd
  refine follows_ite (follows_pure _) (follows_ite ?_ (follows_bind follows_read fun w => ?_))
  · exact follows_fault (by simp [OtherFault])
  · exact follows_pure _

theorem pathBuffer_stays (path : CStr) : Follows (SameDir q) OtherFault (pathBuffer path) :=
  follows_ite (follows_pure _) (follows_fault (by simp [OtherFault]))

theorem vfsopenPath_stays (flags : Nat) (fs : FsOpen) (path : CStr) :
    Follows (SameDir q) OtherFault (vfsopenPath p flags fs path) := by
  refine follows_bind allocFileHandle_stays fun i => follows_bind follows_read fun w => ?_
  split
  · exact follows_bind (setFile_stays _) fun _ => follows_pure _
  · exact follows_bind (setFile_stays _) fun _ => registFileHandle_stays

/-- The part of `sys_mkdirat` that does not go through `getAbPath`. -/
theorem dirPath_stays {dirfd : Int} (hcwd : dirfd ≠ atFdcwd) (filepath : CStr) :
    Follows (SameDir q) OtherFault (dirPath p dirfd filepath) := by
  unfold dirPath
  rw [if_neg hcwd]
  refine follows_ite (pathBuffer_stays _) (follows_bind getFileByFd_stays fun x => ?_)
  cases x with
  | none => exact follows_fault (by simp [OtherFault])
  | some i => exact follows_bind follows_read fun w => pathBuffer_stays _

end Stays

section Calls
variable {w w' : Files} {p : Nat} {path : CStr}

theorem allocFileHandle_cases (w : Files) :
    (w.NoHandle ∧ allocFileHandle w = .fault (.panic "alloc file") w) ∨
    ∃ i, ¬ w.NoHandle ∧ i < NFILE ∧ (w.fileTable i).ref = 0 ∧ (w.fileTable i).type = .none ∧
      allocFileHandle w = .ok i (w.withFile i fun f => { f with ref := 1 }) := by
  unfold allocFileHandle
  rw [read_bind]
  cases hfind : (List.range NFILE).find? fun i =>
      (w.fileTable i).ref = 0 ∧ (w.fileTable i).type = .none with
  | none =>
    refine .inl ⟨fun i hi hfree => ?_, rfl⟩
    exact List.find?_eq_none.mp hfind i (List.mem_range.mpr hi) (decide_eq_true hfree)
  | some i =>
    have hi : i < NFILE := List.mem_range.mp (List.mem_of_find?_eq_some hfind)
    have hfree := List.find?_some hfind
    simp only [decide_eq_true_eq] at hfree
    exact .inr ⟨i, fun hno => hno i hi hfree, hi, hfree.1, hfree.2, rfl⟩

/-- Before the call has built a path it can only panic; an absolute path begins with a `/`. -/
theorem absPath_ok (hdir : WorkDirOk (w.procTable p).workDir) (hpath : UserString path) :
    0 ∉ w.absPath p path ∧ (w.absPath p path).head? = some slash := by
  have hbehind : 0 ∉ behindDot path := by
    unfold behindDot
    split
    · exact fun h => hpath.1 (List.mem_of_mem_drop h)
    · exact hpath.1
  unfold Files.absPath
  split
  case isTrue h => exact ⟨hbehind, h⟩
  case isFalse h =>
    refine ⟨fun hmem => ?_, ?_⟩
    · rcases List.mem_append.mp hmem with h0 | h0
      · exact hdir.string h0
      · exact hbehind h0
    · rw [List.head?_append, hdir.first]
      rfl

theorem closePath_apply {d : CStr} (hne : d ≠ []) (s : Files) :
    closePath d s = if d.getLast? = some slash then .ok d s
      else if d.length + 1 < MAXPATH then .ok (d ++ [slash]) s
      else .fault (.undefined "path buffer") s := by
  unfold closePath
  rw [if_neg hne]
  split
  · rfl
  · split <;> rfl

/-- What `closePath` makes of an absolute path that fits. -/
theorem closePath_ok {d x : CStr} {s s' : Files} (h0 : 0 ∉ d) (hhead : d.head? = some slash)
    (hlt : d.length < MAXPATH) (hrun : closePath d s = .ok x s') : s' = s ∧ WorkDirOk x := by
  have hne : d ≠ [] := by
    rintro rfl
    cases hhead
  rw [closePath_apply hne] at hrun
  split at hrun
  case isTrue hlast =>
    cases hrun
    exact ⟨rfl, h0, by omega, hhead, hlast⟩
  case isFalse hlast =>
    split at hrun
    case isFalse => cases hrun
    case isTrue hroom =>
      cases hrun
      refine ⟨rfl, ?_, ?_, ?_, List.getLast?_concat⟩
      · simp [h0, slash]
      · rw [List.length_append, List.length_singleton]
        omega
      · rw [List.head?_append, hhead]
        rfl

/-- An absolute path that fits is the new current directory, with a `/` at its end. -/
theorem enterDirectory_ok {fp : Nat} {d : CStr} {s s' : Files} {r : Int} (h0 : 0 ∉ d)
    (hhead : d.head? = some slash) (hlt : d.length < MAXPATH)
    (hrun : enterDirectory p fp d s = .ok r s') : WorkDirOk (s'.procTable p).workDir := by
  obtain ⟨x, u, hclose, hrest⟩ := bind_eq_ok.mp hrun
  obtain ⟨rfl, hx⟩ := closePath_ok h0 hhead hlt hclose
  cases hrest
  simp only [Files.withFile, withProc_apply, if_pos]
  exact hx

theorem enterDirectory_inBuffers {fp : Nat} {d : CStr} {s : Files}
    (hhead : d.head? = some slash) : (∀ s', enterDirectory p fp d s ≠
      .fault (.undefined "path buffer") s') ↔
        (d.getLast? = some slash ∨ d.length + 1 < MAXPATH) := by
  have hne : d ≠ [] := by
    rintro rfl
    cases hhead
  have hclose := closePath_apply hne s
  unfold enterDirectory
  by_cases hlast : d.getLast? = some slash
  · rw [if_pos hlast] at hclose
    refine ⟨fun _ => .inl hlast, fun _ s' hrun => ?_⟩
    rw [bind_ok hclose] at hrun
    cases hrun
  · rw [if_neg hlast] at hclose
    by_cases hroom : d.length + 1 < MAXPATH
    · rw [if_pos hroom] at hclose
      refine ⟨fun _ => .inr hroom, fun _ s' hrun => ?_⟩
      rw [bind_ok hclose] at hrun
      cases hrun
    · rw [if_neg hroom] at hclose
      refine ⟨fun h => absurd (bind_fault hclose _) (h s), fun h => ?_⟩
      rcases h with h | h
      · exact absurd h hlast
      · exact absurd h hroom

/-- What `vfschdir` does, by what `allocFileHandle`, `getAbPath` and `fs->open` do. -/
theorem vfschdir_cases (w : Files) (p : Nat) (path : CStr) (fs : FsOpen) :
    (w.NoHandle ∧ vfschdir p path fs w = .fault (.panic "alloc file") w) ∨
    ∃ i, i < NFILE ∧ (w.fileTable i).ref = 0 ∧ (w.fileTable i).type = .none ∧ ¬ w.NoHandle ∧
      ((MAXPATH ≤ (w.absPath p path).length ∧ ∃ s : Files,
          vfschdir p path fs w = .fault (.undefined "path buffer") s) ∨
        (w.absPath p path).length < MAXPATH ∧
          ((fs = .failed ∧ vfschdir p path fs w =
              .ok (-1) (w.withFile i fun f => { f with ref := 1 })) ∨
            (fs ≠ .failed ∧ fs.opensDirectory = false ∧ ∃ s : Files, vfschdir p path fs w =
              .ok (-1) (s.withFile i fun _ => File.zero) ∧ s.procTable = w.procTable ∧
                ∀ j ≠ i, s.fileTable j = w.fileTable j) ∨
            (fs.opensDirectory = true ∧ ∃ s : Files,
              vfschdir p path fs w = enterDirectory p i (w.absPath p path) s))) := by
  rcases allocFileHandle_cases w with ⟨hno, halloc⟩ | ⟨i, hno, hi, href, htype, halloc⟩
  · exact .inl ⟨hno, bind_fault halloc _⟩
  · refine .inr ⟨i, hi, href, htype, hno, ?_⟩
    have habs := getAbPath_apply (w.withFile i fun f => { f with ref := 1 }) p path
    have hpath : (w.withFile i fun f => { f with ref := 1 }).absPath p path = w.absPath p path :=
      rfl
    rw [hpath] at habs
    unfold vfschdir
    rw [bind_ok halloc]
    by_cases hlt : (w.absPath p path).length < MAXPATH
    · rw [if_pos hlt] at habs
      rw [bind_ok habs, read_bind]
      refine .inr ⟨hlt, ?_⟩
      cases fs with
      | failed => exact .inl ⟨rfl, rfl⟩
      | device =>
        refine .inr (.inl ⟨by simp, rfl, _, rfl, rfl, fun j hj => ?_⟩)
        simp [withFile_apply, hj]
      | entry size directory =>
        cases directory with
        | false =>
          refine .inr (.inl ⟨by simp, rfl, _, rfl, rfl, fun j hj => ?_⟩)
          simp [withFile_apply, hj]
        | true =>
          exact .inr (.inr ⟨rfl, _, rfl⟩)
    · rw [if_neg hlt] at habs
      exact .inl ⟨Nat.le_of_not_lt hlt, _, bind_fault habs _⟩

/-- Where `vfschdir` returns the current directory is one, and it has left no buffer just when
the new one fits. -/
theorem vfschdir_workDir {fs : FsOpen} {r : Int} (hdir : WorkDirOk (w.procTable p).workDir)
    (hpath : UserString path) (hrun : vfschdir p path fs w = .ok r w') :
    WorkDirOk (w'.procTable p).workDir := by
  obtain ⟨h0, hhead⟩ := absPath_ok hdir hpath
  rcases vfschdir_cases w p path fs with ⟨_, h⟩ | ⟨i, _, _, _, _, ⟨_, s, h⟩ | ⟨hlt, h⟩⟩
  · rw [h] at hrun
    cases hrun
  · rw [h] at hrun
    cases hrun
  · rcases h with ⟨_, h⟩ | ⟨_, _, s, h, hproc, _⟩ | ⟨_, s, h⟩
    · rw [h] at hrun
      cases hrun
      exact hdir
    · rw [h] at hrun
      cases hrun
      simp only [Files.withFile, hproc]
      exact hdir
    · rw [h] at hrun
      exact enterDirectory_ok h0 hhead hlt hrun

theorem chdir_inBuffers {fs : FsOpen} (hdir : WorkDirOk (w.procTable p).workDir)
    (hpath : UserString path) :
    (DirCall.chdir path fs).InBuffers p w ↔ (DirCall.chdir path fs).Fits p w := by
  obtain ⟨_, hhead⟩ := absPath_ok hdir hpath
  show (∀ s, vfschdir p path fs w ≠ .fault (.undefined "path buffer") s) ↔
    (w.NoHandle ∨ (w.absPath p path).length < MAXPATH ∧
      (fs.opensDirectory = true → (w.absPath p path).getLast? = some slash ∨
        (w.absPath p path).length + 1 < MAXPATH))
  rcases vfschdir_cases w p path fs with ⟨hno, h⟩ | ⟨i, _, _, _, hno, ⟨hle, s, h⟩ | ⟨hlt, h⟩⟩
  · rw [h]
    exact ⟨fun _ => .inl hno, fun _ s hs => by cases hs⟩
  · rw [h]
    refine ⟨fun hs => absurd rfl (hs s), fun hfits => ?_⟩
    have hlt := (hfits.resolve_left hno).1
    omega
  · rcases h with ⟨hfs, h⟩ | ⟨_, hfs, s, h, _⟩ | ⟨hfs, s, h⟩
    · rw [h, hfs]
      refine ⟨fun _ => .inr ⟨hlt, fun h => by cases h⟩, fun _ s hs => by cases hs⟩
    · rw [h, hfs]
      refine ⟨fun _ => .inr ⟨hlt, fun h => by cases h⟩, fun _ s hs => by cases hs⟩
    · rw [h, hfs, enterDirectory_inBuffers hhead]
      exact ⟨fun hroom => .inr ⟨hlt, fun _ => hroom⟩, fun hfits => (hfits.resolve_left hno).2 rfl⟩

/-- What a call does that builds its path with `getAbPath` first. -/
theorem getAbPath_inBuffers {α : Type} {act : CStr → FilesComp α}
    (hact : ∀ x, Follows (SameDir p) OtherFault (act x)) :
    (∀ s, (getAbPath p path >>= act) w ≠ .fault (.undefined "path buffer") s) ↔
      (w.absPath p path).length < MAXPATH := by
  have habs := getAbPath_apply w p path
  by_cases hlt : (w.absPath p path).length < MAXPATH
  · rw [if_pos hlt] at habs
    rw [bind_ok habs]
    refine ⟨fun _ => hlt, fun _ s hs => ?_⟩
    have h := hact (w.absPath p path) w
    rw [hs] at h
    exact h.1 rfl
  · rw [if_neg hlt] at habs
    exact ⟨fun hs => absurd (bind_fault habs _) (hs w), fun h => absurd h hlt⟩

theorem getAbPath_stays : ∀ r, getAbPath p path w = .ok r w' →
    (w'.procTable p).workDir = (w.procTable p).workDir := by
  intro r hrun
  rw [getAbPath_eq hrun]

/-- A call that returns has not moved. -/
theorem Follows.sameDir {α : Type} {x : FilesComp α} {a : α}
    (h : Follows (SameDir p) OtherFault x) (hrun : x w = .ok a w') :
    (w'.procTable p).workDir = (w.procTable p).workDir := by
  have hw := h w
  rw [hrun] at hw
  exact hw

theorem sysMkdirat_eq {dirfd : Int} {mkdir : CStr → Int} : sysMkdirat p dirfd path mkdir w =
    (dirPath p dirfd path >>= fun x => pure (mkdir x) >>= fun _ => pure 0 : FilesComp Int) w :=
  bind_assoc_apply _ _ _ w

theorem mkdirat_inBuffers {dirfd : Int} {mkdir : CStr → Int} :
    (DirCall.mkdirat dirfd path mkdir).InBuffers p w ↔
      (DirCall.mkdirat dirfd path mkdir).Fits p w := by
  show (∀ s, sysMkdirat p dirfd path mkdir w ≠ .fault (.undefined "path buffer") s) ↔
    (dirfd = atFdcwd → (w.absPath p path).length < MAXPATH)
  have hact : ∀ x, Follows (SameDir p) OtherFault
      (pure (mkdir x) >>= fun _ => pure 0 : FilesComp Int) := fun x =>
    follows_bind (follows_pure _) fun _ => follows_pure _
  rw [sysMkdirat_eq]
  by_cases hcwd : dirfd = atFdcwd
  · have hdir : dirPath p dirfd path = getAbPath p path := if_pos hcwd
    rw [hdir, getAbPath_inBuffers hact]
    exact ⟨fun h _ => h, fun h => h hcwd⟩
  · refine ⟨fun _ h => absurd h hcwd, fun _ s hs => ?_⟩
    have h := follows_bind (dirPath_stays (p := p) (q := p) hcwd path) hact w
    rw [hs] at h
    exact h.1 rfl

theorem mkdirat_workDir {dirfd r : Int} {mkdir : CStr → Int}
    (hrun : sysMkdirat p dirfd path mkdir w = .ok r w') :
    (w'.procTable p).workDir = (w.procTable p).workDir := by
  rw [sysMkdirat_eq] at hrun
  obtain ⟨x, u, hdir, hrest⟩ := bind_eq_ok.mp hrun
  cases hrest
  by_cases hcwd : dirfd = atFdcwd
  · have hpath : dirPath p dirfd path = getAbPath p path := if_pos hcwd
    rw [hpath] at hdir
    exact getAbPath_stays _ hdir
  · exact Follows.sameDir (dirPath_stays hcwd path) hdir

theorem vfsopen_stays {flags : Nat} {fs : FsOpen} {r : Int}
    (hrun : vfsopen p path flags fs w = .ok r w') :
    (w'.procTable p).workDir = (w.procTable p).workDir := by
  rw [vfsopen_eq_by] at hrun
  obtain ⟨x, u, habs, hrest⟩ := bind_eq_ok.mp hrun
  have hu := getAbPath_eq habs
  subst hu
  exact Follows.sameDir (vfsopenPath_stays flags fs x) hrest

end Calls

/-! ## The runs -/

section Runs
variable {w w' : Files} {p : Nat} {c : DirCall}

theorem inBuffers_iff_fits (hdir : WorkDirOk (w.procTable p).workDir)
    (hpath : UserString c.path) : c.InBuffers p w ↔ c.Fits p w := by
  cases c with
  | chdir path fs => exact chdir_inBuffers hdir hpath
  | «open» path flags fs => exact getAbPath_inBuffers fun x => vfsopenPath_stays flags fs x
  | mkdirat dirfd path mkdir => exact mkdirat_inBuffers

theorem dirStep_workDir (hdir : WorkDirOk (w.procTable p).workDir)
    (hstep : dirStep p w c = some w') : WorkDirOk (w'.procTable p).workDir := by
  unfold dirStep at hstep
  split at hstep
  case isFalse => cases hstep
  case isTrue hpath =>
    cases hrun : c.call p w with
    | fault e s =>
      rw [hrun] at hstep
      cases hstep
    | ok r s =>
      rw [hrun] at hstep
      cases hstep
      cases c with
      | chdir path fs => exact vfschdir_workDir hdir hpath hrun
      | «open» path flags fs =>
        rw [vfsopen_stays hrun]
        exact hdir
      | mkdirat dirfd path mkdir =>
        rw [mkdirat_workDir hrun]
        exact hdir

end Runs

/-- All files are free, and every process is in `/`. -/
def rootFiles : Files where
  fileTable := fun _ => File.zero
  vma := fun _ => Mapping.zero
  procTable := fun _ => ⟨.running, [slash], fun _ => none, fun _ => none⟩

theorem rootFiles_workDir : WorkDirOk (rootFiles.procTable 1).workDir :=
  ⟨by decide, by decide, rfl, rfl⟩

end PageFaultOS
