import Mathlib.Tactic
import PageFaultOS.Fs.Mappings
import PageFaultOS.Fs.WorkDir

/-! The descriptors that the system calls of `syscall/syscallfile.cpp` take from the user. What
the file systems, the pipes and `copyout` return is an argument of the call. -/

namespace PageFaultOS
open Exec Exec.Comp

/-- `vfsread` of an open file. -/
def vfsreadFile (i : Nat) (r : Int) : FilesComp Int := do
  let w ← read
  if (w.fileTable i).readable then
    match (w.fileTable i).type with
    | .pipe | .device => pure r
    | .entry => do
      setFile i fun f => { f with position := toUint64 (f.position + r) }
      pure r
    | .none => Comp.panic "vfsread"
  else pure (-1)

def sysRead (p : Nat) (fd r : Int) : FilesComp Int := do
  match ← getFileByFd p fd with
  | none => pure (-1)
  | some i => vfsreadFile i r

def sysWrite (p : Nat) (fd r : Int) : FilesComp Int := do
  match ← getFileByFd p fd with
  | none => pure (-1)
  | some i => do
    let w ← read
    if (w.fileTable i).writable then do
      vfswrite (some i) r
      pure (if (w.fileTable i).type = .pipe then 0 else r)
    else pure (-1)

def sysFstat (p : Nat) (fd r : Int) : FilesComp Int := do
  match ← argfd p fd with
  | none => pure (-1)
  | some _ => pure r

def vfsls (p : Nat) (fd r : Int) : FilesComp Int := do
  match ← getFileByFd p fd with
  | none => pure (-1)
  | some i => do
    let w ← read
    if (w.fileTable i).directory then pure r else pure (-1)

def sysGetdents64 (p : Nat) (fd r : Int) : FilesComp Int := vfsls p fd r

def sysUnlinkat (p : Nat) (fd : Int) (filepath : CStr) (rm : CStr → Int) : FilesComp Int :=
  vfsrm p fd filepath fun path => pure (rm path)

/-- The calls; `fd` is the source descriptor. -/
inductive DescCall where
  | read (fd r : Int)
  | write (fd r : Int)
  | close (fd : Int)
  | dup (fd : Int)
  | dup3 (fd newfd : Int)
  | fstat (fd r : Int)
  | getdents64 (fd r : Int)
  | unlinkat (fd : Int) (filepath : CStr) (rm : CStr → Int)

namespace DescCall

def fd : DescCall → Int
  | .read fd _ | .write fd _ | .close fd | .dup fd | .dup3 fd _ | .fstat fd _ | .getdents64 fd _
  | .unlinkat fd _ _ => fd

def call (p : Nat) : DescCall → FilesComp Int
  | .read fd r => sysRead p fd r
  | .write fd r => sysWrite p fd r
  | .close fd => sysClose p fd
  | .dup fd => sysDup p fd
  | .dup3 fd newfd => sysDup3 p fd newfd
  | .fstat fd r => sysFstat p fd r
  | .getdents64 fd r => sysGetdents64 p fd r
  | .unlinkat fd filepath rm => sysUnlinkat p fd filepath rm

def Relative : DescCall → Prop
  | .unlinkat _ filepath _ => filepath.head? ≠ some slash
  | _ => True

/-- The call goes to no index outside `ofile` and through no null file, and without an open file
it returns `-1` and changes nothing. -/
structure Safe (c : DescCall) (p : Nat) (w : Files) : Prop where
  inside : ∀ s, c.call p w ≠ .fault (.undefined "ofile") s
  notNull : ∀ s, c.call p w ≠ .fault (.undefined "null file") s
  refused : w.NoFile p c.fd → c.fd ≠ atFdcwd → c.call p w = .ok (-1) w

/-- What the call needs of its descriptor. -/
def Guarded (c : DescCall) (p : Nat) (w : Files) : Prop :=
  match c with
  | .read fd _ | .write fd _ | .dup fd | .getdents64 fd _ => fd ≠ NOFILE
  | .fstat .. => True
  | .close fd | .dup3 fd _ => ¬ w.NoFile p fd
  | .unlinkat fd _ _ => fd = atFdcwd ∨ ¬ w.NoFile p fd

end DescCall

/-! ## The descriptors -/

section Descriptors
variable {w : Files} {p : Nat} {fd : Int}

/-- `getFileByFd` goes behind the end of `ofile`, or finds no file, or finds one. -/
theorem getFileByFd_run (w : Files) (p : Nat) (fd : Int) :
    (fd = NOFILE ∧ getFileByFd p fd w = .fault (.undefined "ofile") w) ∨
    (fd ≠ NOFILE ∧ w.NoFile p fd ∧ getFileByFd p fd w = .ok none w) ∨
    (fd ≠ NOFILE ∧ ¬ w.NoFile p fd ∧ ∃ i, getFileByFd p fd w = .ok (some i) w) := by
  unfold getFileByFd Files.NoFile
  by_cases hend : fd = NOFILE
  · refine .inl ⟨hend, ?_⟩
    have hpos : (0 : Int) ≤ NOFILE := Int.natCast_nonneg _
    rw [if_neg (by omega), if_pos hend]
    rfl
  · refine .inr ?_
    by_cases hout : fd < 0 ∨ (NOFILE : Int) < fd
    · refine .inl ⟨hend, by omega, ?_⟩
      rw [if_pos hout]
      rfl
    · rw [if_neg hout, if_neg hend, read_bind]
      cases hslot : (w.procTable p).ofile fd.toNat with
      | none => exact .inl ⟨hend, .inr (.inr rfl), rfl⟩
      | some i =>
        refine .inr ⟨hend, ?_, i, rfl⟩
        rintro (h | h | h)
        · omega
        · omega
        · cases h

/-- Neither of the two faults. -/
def SafeRun (r : Exec.Res Files Int) : Prop :=
  (∀ s, r ≠ .fault (.undefined "ofile") s) ∧ ∀ s, r ≠ .fault (.undefined "null file") s

theorem safeRun_ok (r : Int) (s : Files) : SafeRun (.ok r s) :=
  ⟨fun _ => nofun, fun _ => nofun⟩

theorem safeRun_panic (msg : String) (s : Files) : SafeRun (.fault (.panic msg) s) :=
  ⟨fun _ => nofun, fun _ => nofun⟩

theorem safeRun_other {why : String} (s : Files)
    (hother : why ≠ "ofile" ∧ why ≠ "null file") : SafeRun (.fault (.undefined why) s) := by
  refine ⟨fun t h => ?_, fun t h => ?_⟩
  · cases h
    exact hother.1 rfl
  · cases h
    exact hother.2 rfl

theorem registFileHandle_safe (p fp : Nat) (fd : Int) (w : Files) :
    SafeRun (registFileHandle p fp fd w) := by
  unfold registFileHandle
  split
  · exact safeRun_ok _ _
  · rw [read_bind]
    split
    · cases (List.range NOFILE).find? fun i => (w.procTable p).ofile i = none with
      | some i => exact safeRun_ok _ _
      | none => exact safeRun_panic _ _
    · split <;> exact safeRun_ok _ _

theorem vfsreadFile_safe (i : Nat) (r : Int) (w : Files) : SafeRun (vfsreadFile i r w) := by
  unfold vfsreadFile
  rw [read_bind]
  split
  · cases (w.fileTable i).type with
    | none => exact safeRun_panic _ _
    | pipe | device | entry => exact safeRun_ok _ _
  · exact safeRun_ok _ _

/-- A call that looks its file up with `getFileByFd` and returns `-1` for none. -/
theorem lookedUp_safe_iff {x : FilesComp Int} {act : Nat → FilesComp Int}
    (hx : x = getFileByFd p fd >>= fun
      | none => pure (-1)
      | some i => act i) (hact : ∀ i, SafeRun (act i w)) :
    (SafeRun (x w) ∧ (w.NoFile p fd → fd ≠ atFdcwd → x w = .ok (-1) w)) ↔ fd ≠ NOFILE := by
  subst hx
  rcases getFileByFd_run w p fd with ⟨hend, h⟩ | ⟨hend, hno, h⟩ | ⟨hend, hno, i, h⟩
  · rw [bind_fault h]
    exact iff_of_false (fun hsafe => hsafe.1.1 w rfl) (fun h => h hend)
  · rw [bind_ok h]
    exact iff_of_true ⟨safeRun_ok _ _, fun _ _ => rfl⟩ hend
  · rw [bind_ok h]
    exact iff_of_true ⟨hact i, fun hno' => absurd hno' hno⟩ hend

theorem DescCall.safe_iff {c : DescCall} : c.Safe p w ↔
    SafeRun (c.call p w) ∧ (w.NoFile p c.fd → c.fd ≠ atFdcwd → c.call p w = .ok (-1) w) :=
  ⟨fun h => ⟨⟨h.inside, h.notNull⟩, h.refused⟩, fun h => ⟨h.1.1, h.1.2, h.2⟩⟩

end Descriptors

/-! ## The calls -/

section Calls
variable {w : Files} {p : Nat} {fd : Int}

theorem sysWrite_safe (i : Nat) (r : Int) (w : Files) : SafeRun ((do
    let w ← read
    if (w.fileTable i).writable then do
      vfswrite (some i) r
      pure (if (w.fileTable i).type = .pipe then 0 else r)
    else pure (-1) : FilesComp Int) w) := by
  rw [read_bind]
  cases hw : (w.fileTable i).writable with
  | false => exact safeRun_ok _ _
  | true =>
    rw [if_pos rfl]
    cases htype : (w.fileTable i).type with
    | none =>
      have hpanic : vfswrite (some i) r w = .fault (.panic "vfswrite") w := by
        simp [vfswrite, hw, htype]
      rw [bind_fault hpanic]
      exact safeRun_panic _ _
    | pipe | device =>
      have hok : vfswrite (some i) r w = .ok () w := by simp [vfswrite, hw, htype]
      rw [bind_ok hok]
      exact safeRun_ok _ _
    | entry =>
      obtain ⟨v, hok⟩ : ∃ v, vfswrite (some i) r w = .ok () v := by
        simp [vfswrite, hw, htype, setFile]
      rw [bind_ok hok]
      exact safeRun_ok _ _

theorem vfsdup_some_safe (i : Nat) {act : Nat → FilesComp Int}
    (hact : ∀ j s, SafeRun (act j s)) (w : Files) : SafeRun ((vfsdup (some i) >>= act) w) := by
  by_cases href : (w.fileTable i).ref < 1
  · have hpanic : vfsdup (some i) w = .fault (.panic "vfsdup") w := by simp [vfsdup, href]
    rw [bind_fault hpanic]
    exact safeRun_panic _ _
  · obtain ⟨v, hok⟩ : ∃ v, vfsdup (some i) w = .ok i v := by simp [vfsdup, href, setFile]
    rw [bind_ok hok]
    exact hact i v

/-- `close` writes to the slot whatever it has found there. -/
theorem sysClose_safe_iff : (SafeRun (sysClose p fd w) ∧
    (w.NoFile p fd → fd ≠ atFdcwd → sysClose p fd w = .ok (-1) w)) ↔ ¬ w.NoFile p fd := by
  have hafter : ∀ x, getFileByFd p fd w = .ok x w → ¬ (fd < 0 ∨ (NOFILE : Int) ≤ fd) →
      ∃ v, sysClose p fd w = .ok 0 v := by
    intro x hget hin
    unfold sysClose
    rw [bind_ok hget, vfsclose, pure_bind_apply, if_neg hin]
    exact ⟨_, rfl⟩
  have houtside : ∀ x, getFileByFd p fd w = .ok x w → (fd < 0 ∨ (NOFILE : Int) ≤ fd) →
      sysClose p fd w = .fault (.undefined "ofile") w := by
    intro x hget hout
    unfold sysClose
    rw [bind_ok hget, vfsclose, pure_bind_apply, if_pos hout]
    rfl
  rcases getFileByFd_run w p fd with ⟨hend, hget⟩ | ⟨_, hno, hget⟩ | ⟨_, hno, i, hget⟩
  · have hno : w.NoFile p fd := .inr (.inl (le_of_eq hend.symm))
    refine iff_of_false (fun h => h.1.1 w ?_) (fun h => h hno)
    exact bind_fault hget _
  · refine iff_of_false (fun h => ?_) (fun h => h hno)
    by_cases hout : fd < 0 ∨ (NOFILE : Int) ≤ fd
    · exact h.1.1 w (houtside none hget hout)
    · obtain ⟨v, hrun⟩ := hafter none hget hout
      have hcwd : fd ≠ atFdcwd := by
        rintro rfl
        exact hout (.inl (by decide))
      have hrefused := h.2 hno hcwd
      rw [hrun] at hrefused
      cases hrefused
  · have hin : ¬ (fd < 0 ∨ (NOFILE : Int) ≤ fd) := fun hout => hno (by
      rcases hout with h | h
      · exact .inl h
      · exact .inr (.inl h))
    obtain ⟨v, hrun⟩ := hafter _ hget hin
    rw [hrun]
    exact iff_of_true ⟨safeRun_ok _ _, fun h => absurd h hno⟩ hno

/-- `dup3` goes through the file without a test. -/
theorem sysDup3_safe_iff {newfd : Int} : (SafeRun (sysDup3 p fd newfd w) ∧
    (w.NoFile p fd → fd ≠ atFdcwd → sysDup3 p fd newfd w = .ok (-1) w)) ↔ ¬ w.NoFile p fd := by
  rcases getFileByFd_run w p fd with ⟨hend, hget⟩ | ⟨_, hno, hget⟩ | ⟨_, hno, i, hget⟩
  · have hno : w.NoFile p fd := .inr (.inl (le_of_eq hend.symm))
    exact iff_of_false (fun h => h.1.1 w (bind_fault hget _)) fun h => h hno
  · have hnull : sysDup3 p fd newfd w = .fault (.undefined "null file") w := bind_ok hget _
    exact iff_of_false (fun h => h.1.2 w hnull) fun h => h hno
  · refine iff_of_true ⟨?_, fun h => absurd h hno⟩ hno
    unfold sysDup3
    rw [bind_ok hget]
    refine vfsdup_some_safe i (fun j s => ?_) w
    cases hregist : registFileHandle p j newfd s with
    | ok ansfd v =>
      rw [bind_ok hregist]
      split <;> exact safeRun_ok _ _
    | fault e v =>
      have hsafe := registFileHandle_safe p j newfd s
      rw [bind_fault hregist]
      rw [hregist] at hsafe
      exact ⟨fun t h => by cases h; exact hsafe.1 v rfl, fun t h => by cases h; exact hsafe.2 v rfl⟩

theorem pathBuffer_safe {path : CStr} {act : CStr → Int} (w : Files) :
    SafeRun ((pathBuffer path >>= fun x => pure (act x) : FilesComp Int) w) := by
  have happly := pathBuffer_apply w path
  split at happly
  · rw [bind_ok happly]
    exact safeRun_ok _ _
  · rw [bind_fault happly]
    exact safeRun_other _ (by decide)

theorem sysUnlinkat_safe_iff {filepath : CStr} {rm : CStr → Int}
    (hrel : filepath.head? ≠ some slash) : (SafeRun (sysUnlinkat p fd filepath rm w) ∧
    (w.NoFile p fd → fd ≠ atFdcwd → sysUnlinkat p fd filepath rm w = .ok (-1) w)) ↔
      (fd = atFdcwd ∨ ¬ w.NoFile p fd) := by
  unfold sysUnlinkat vfsrm dirPath
  by_cases hcwd : fd = atFdcwd
  · rw [if_pos hcwd]
    refine iff_of_true ⟨?_, fun _ h => absurd hcwd h⟩ (.inl hcwd)
    have happly := getAbPath_apply w p filepath
    split at happly
    · rw [bind_ok happly]
      exact safeRun_ok _ _
    · rw [bind_fault happly]
      exact safeRun_other _ (by decide)
  · rw [if_neg hcwd, if_neg hrel, bind_assoc_apply]
    rcases getFileByFd_run w p fd with ⟨hend, hget⟩ | ⟨_, hno, hget⟩ | ⟨_, hno, i, hget⟩
    · have hno : w.NoFile p fd := .inr (.inl (le_of_eq hend.symm))
      rw [bind_fault hget]
      exact iff_of_false (fun h => h.1.1 w rfl) fun h => h.elim hcwd fun h => h hno
    · rw [bind_ok hget]
      exact iff_of_false (fun h => h.1.2 w rfl) fun h => h.elim hcwd fun h => h hno
    · rw [bind_ok hget]
      exact iff_of_true ⟨pathBuffer_safe w, fun h => absurd h hno⟩ (.inr hno)

end Calls

end PageFaultOS
