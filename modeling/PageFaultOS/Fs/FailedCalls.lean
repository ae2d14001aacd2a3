import Mathlib.Tactic
import PageFaultOS.Fs.WorkDir

/-! What the calls that open files leave behind when they fail: `vfsopen`, `vfschdir`,
`sys_dup3`, `vfscreatePipe` and `sys_pipe2`. -/

namespace PageFaultOS
open Exec Exec.Comp

inductive OpeningCall where
  | vfsopen (filename : CStr) (flags : Nat) (fs : FsOpen)
  | vfschdir (filepath : CStr) (fs : FsOpen)
  | dup3 (oldfd newfd : Int)
  | createPipe (pi : Option Nat)
  | pipe2 (pi : Option Nat) (copied : Bool)

/-- `vfscreatePipe` returns `-1` or `0`; the descriptors go to `fds`. -/
def OpeningCall.call (p : Nat) : OpeningCall → FilesComp Int
  | .vfsopen filename flags fs => PageFaultOS.vfsopen p filename flags fs
  | .vfschdir filepath fs => PageFaultOS.vfschdir p filepath fs
  | .dup3 oldfd newfd => sysDup3 p oldfd newfd
  | .createPipe pi => do
    match ← vfscreatePipe p pi with
    | none => pure (-1)
    | some _ => pure 0
  | .pipe2 pi copied => sysPipe2 p pi copied

/-- The types and counts of all files, and the descriptors and the directory of the caller, are
as they were. -/
structure Restored (p : Nat) (w w' : Files) : Prop where
  type : ∀ i, (w'.fileTable i).type = (w.fileTable i).type
  ref : ∀ i, (w'.fileTable i).ref = (w.fileTable i).ref
  ofile : (w'.procTable p).ofile = (w.procTable p).ofile
  workDir : (w'.procTable p).workDir = (w.procTable p).workDir

/-- The calls that give back what they have taken: of `vfschdir` those that fail behind
`fs->open`, and none of `sys_dup3` and `sys_pipe2`. -/
def OpeningCall.GivesBack : OpeningCall → Prop
  | .vfsopen .. | .createPipe _ => True
  | .vfschdir _ fs => fs ≠ .failed
  | .dup3 .. | .pipe2 .. => False

instance : (c : OpeningCall) → Decidable c.GivesBack
  | .vfsopen .. | .createPipe _ => inferInstanceAs (Decidable True)
  | .vfschdir _ fs => inferInstanceAs (Decidable (fs ≠ .failed))
  | .dup3 .. | .pipe2 .. => inferInstanceAs (Decidable False)

section Files
variable {w w' : Files} {p i : Nat}

theorem Restored.refl (p : Nat) (w : Files) : Restored p w w :=
  ⟨fun _ => rfl, fun _ => rfl, rfl, rfl⟩

def File.Free (f : File) : Prop := f.ref = 0 ∧ f.type = .none

theorem File.zero_free : File.zero.Free := ⟨rfl, rfl⟩

/-- Each file is as it was, or was free and is free again. -/
theorem restored_of_files (hproc : w'.procTable = w.procTable)
    (hfile : ∀ j, w'.fileTable j = w.fileTable j ∨
      (w'.fileTable j).Free ∧ (w.fileTable j).Free) : Restored p w w' := by
  have hsame : ∀ j, (w'.fileTable j).type = (w.fileTable j).type ∧
      (w'.fileTable j).ref = (w.fileTable j).ref := by
    intro j
    rcases hfile j with h | ⟨h', h⟩
    · rw [h]
      exact ⟨rfl, rfl⟩
    · exact ⟨h'.2.trans h.2.symm, h'.1.trans h.1.symm⟩
  exact ⟨fun j => (hsame j).1, fun j => (hsame j).2, by rw [hproc], by rw [hproc]⟩

/-- A file that was free is freed. -/
theorem restored_freed (hproc : w'.procTable = w.procTable) (hfree : (w.fileTable i).Free)
    (hothers : ∀ j ≠ i, w'.fileTable j = w.fileTable j) :
    Restored p w (w'.withFile i fun _ => File.zero) := by
  refine restored_of_files hproc fun j => ?_
  rw [withFile_apply]
  by_cases hj : j = i
  · rw [if_pos hj, hj]
    exact .inr ⟨File.zero_free, hfree⟩
  · rw [if_neg hj]
    exact .inl (hothers j hj)

/-- A file with another count is not restored. -/
theorem not_restored_of_ref (h : (w'.fileTable i).ref ≠ (w.fileTable i).ref) :
    ¬ Restored p w w' := fun hr => h (hr.ref i)

/-- Where `registFileHandle` returns it has left the files alone. -/
theorem registFileHandle_fileTable {fp : Nat} {fd r : Int}
    (hrun : registFileHandle p fp fd w = .ok r w') : w'.fileTable = w.fileTable := by
  have hkeeps : Keeps Files.fileTable (registFileHandle p fp fd) := by
    unfold registFileHandle
    refine keeps_ite (keeps_pure _ _) (keeps_bind (keeps_read _) fun w => ?_)
    refine keeps_ite ?_ (keeps_ite ?_ (keeps_pure _ _))
    · split
      · exact keeps_bind (keeps_modify fun _ => rfl) fun _ => keeps_pure _ _
      · exact keeps_fault _ _
    · exact keeps_bind (keeps_modify fun _ => rfl) fun _ => keeps_pure _ _
  exact hkeeps w r w' hrun

/-- A descriptor that is looked for is not negative. -/
theorem registFileHandle_nonneg {fp : Nat} {r : Int}
    (hrun : registFileHandle p fp (-1) w = .ok r w') : 0 ≤ r := by
  unfold registFileHandle at hrun
  rw [if_neg (by decide), read_bind, if_pos (by decide)] at hrun
  cases hfind : (List.range NOFILE).find? fun i => (w.procTable p).ofile i = none with
  | none =>
    rw [hfind] at hrun
    cases hrun
  | some i =>
    rw [hfind] at hrun
    cases hrun
    exact Int.natCast_nonneg _

end Files

section Calls
variable {w w' : Files} {p : Nat} {r : Int}

theorem vfsopen_restores {filename : CStr} {flags : Nat} {fs : FsOpen}
    (hrun : vfsopen p filename flags fs w = .ok r w') (hfail : r < 0) : Restored p w w' := by
  rw [vfsopen_eq_by] at hrun
  obtain ⟨path, u, habs, hrest⟩ := bind_eq_ok.mp hrun
  have hu := getAbPath_eq habs
  subst hu
  unfold vfsopenPath at hrest
  rcases allocFileHandle_cases u with ⟨_, halloc⟩ | ⟨i, _, _, href, htype, halloc⟩
  · rw [bind_fault halloc] at hrest
    cases hrest
  · rw [bind_ok halloc, read_bind] at hrest
    cases hopen : fs.open ((u.withFile i fun f => { f with ref := 1 }).fileTable i) with
    | none =>
      rw [hopen] at hrest
      cases hrest
      refine restored_freed rfl ⟨href, htype⟩ fun j hj => ?_
      rw [withFile_apply, if_neg hj]
    | some f =>
      rw [hopen] at hrest
      obtain ⟨_, v, _, hregist⟩ := bind_eq_ok.mp hrest
      have hr := registFileHandle_nonneg hregist
      omega

theorem vfschdir_restores_iff {filepath : CStr} {fs : FsOpen}
    (hrun : vfschdir p filepath fs w = .ok r w') (hfail : r < 0) :
    Restored p w w' ↔ fs ≠ .failed := by
  rcases vfschdir_cases w p filepath fs with ⟨_, h⟩ | ⟨i, _, href, htype, _, ⟨_, s, h⟩ | ⟨_, h⟩⟩
  · rw [h] at hrun
    cases hrun
  · rw [h] at hrun
    cases hrun
  · rcases h with ⟨hfs, h⟩ | ⟨hfs, _, s, h, hproc, hothers⟩ | ⟨_, s, h⟩
    · rw [h] at hrun
      cases hrun
      refine ⟨fun hr => absurd hr (not_restored_of_ref (i := i) ?_), fun h => absurd hfs h⟩
      rw [withFile_apply, if_pos rfl, href]
      exact one_ne_zero
    · rw [h] at hrun
      cases hrun
      exact ⟨fun _ => hfs, fun _ => restored_freed hproc ⟨href, htype⟩ hothers⟩
    · rw [h] at hrun
      obtain ⟨x, u, _, hrest⟩ := bind_eq_ok.mp hrun
      cases hrest
      omega

/-- The count that `vfsdup` has raised stays. -/
theorem sysDup3_never_restores {oldfd newfd : Int} (hrun : sysDup3 p oldfd newfd w = .ok r w') :
    ¬ Restored p w w' := by
  obtain ⟨x, u, hget, hrest⟩ := bind_eq_ok.mp hrun
  rw [(getFileByFd_eq hget).1] at hrest
  obtain ⟨i, v, hdup, hrest⟩ := bind_eq_ok.mp hrest
  obtain ⟨_, _, rfl⟩ := vfsdup_eq hdup
  obtain ⟨ansfd, y, hregist, hrest⟩ := bind_eq_ok.mp hrest
  have hy : y = w' := by
    split at hrest <;> cases hrest <;> rfl
  subst hy
  refine not_restored_of_ref (i := i) ?_
  rw [registFileHandle_fileTable hregist, withFile_apply, if_pos rfl]
  show (w.fileTable i).ref + 1 ≠ _
  omega

/-- Two files are taken, which are not the same one. -/
theorem allocFileHandle_twice {f0 f1 : Nat} {u v : Files} (h0 : allocFileHandle w = .ok f0 u)
    (h1 : allocFileHandle u = .ok f1 v) : f1 ≠ f0 ∧ (w.fileTable f0).Free ∧
      (w.fileTable f1).Free ∧
      v = (w.withFile f0 fun f => { f with ref := 1 }).withFile f1 fun f => { f with ref := 1 } := by
  rcases allocFileHandle_cases w with ⟨_, halloc⟩ | ⟨i, _, _, href, htype, halloc⟩
  · rw [h0] at halloc
    cases halloc
  · rw [h0] at halloc
    cases halloc
    rcases allocFileHandle_cases (w.withFile f0 fun f => { f with ref := 1 }) with
      ⟨_, halloc⟩ | ⟨j, _, _, href', htype', halloc⟩
    · rw [h1] at halloc
      cases halloc
    · rw [h1] at halloc
      cases halloc
      have hne : f1 ≠ f0 := by
        rintro rfl
        rw [withFile_apply, if_pos rfl] at href'
        cases href'
      rw [withFile_apply, if_neg hne] at href' htype'
      exact ⟨hne, ⟨href, htype⟩, ⟨href', htype'⟩, rfl⟩

theorem createPipe_restores {pi : Option Nat}
    (hrun : (OpeningCall.createPipe pi).call p w = .ok r w') (hfail : r < 0) :
    Restored p w w' := by
  obtain ⟨fds, y, hcreate, hrest⟩ := bind_eq_ok.mp hrun
  cases fds with
  | some fds =>
    cases hrest
    omega
  | none =>
    cases hrest
    obtain ⟨f0, u, halloc0, hcreate⟩ := bind_eq_ok.mp hcreate
    obtain ⟨f1, v, halloc1, hcreate⟩ := bind_eq_ok.mp hcreate
    obtain ⟨_, hfree0, hfree1, rfl⟩ := allocFileHandle_twice halloc0 halloc1
    cases pi with
    | some pi =>
      simp only [setFile, modify_bind] at hcreate
      obtain ⟨fd0, x, _, hcreate⟩ := bind_eq_ok.mp hcreate
      obtain ⟨fd1, z, _, hcreate⟩ := bind_eq_ok.mp hcreate
      cases hcreate
    | none =>
      cases hcreate
      refine restored_of_files rfl fun j => ?_
      simp only [withFile_apply]
      by_cases hj1 : j = f1
      · rw [if_pos hj1, hj1]
        exact .inr ⟨File.zero_free, hfree1⟩
      · rw [if_neg hj1]
        by_cases hj0 : j = f0
        · rw [if_pos hj0, hj0]
          exact .inr ⟨File.zero_free, hfree0⟩
        · rw [if_neg hj0, if_neg hj1, if_neg hj0]
          exact .inl rfl

/-- The two files of a pipe stay where the descriptors cannot be handed to the caller. -/
theorem sysPipe2_never_restores {pi : Option Nat} {copied : Bool}
    (hrun : sysPipe2 p pi copied w = .ok r w') (hfail : r < 0) : ¬ Restored p w w' := by
  obtain ⟨fds, y, hcreate, hrest⟩ := bind_eq_ok.mp hrun
  cases fds with
  | none => cases hrest
  | some fds =>
    cases copied with
    | true =>
      cases hrest
      omega
    | false =>
      obtain ⟨_, _, hget0, hrest⟩ := bind_eq_ok.mp hrest
      rw [(getFileByFd_eq hget0).1] at hrest
      obtain ⟨_, _, hclose0, hrest⟩ := bind_eq_ok.mp hrest
      cases hclose0
      obtain ⟨_, _, hget1, hrest⟩ := bind_eq_ok.mp hrest
      rw [(getFileByFd_eq hget1).1] at hrest
      cases hrest
      obtain ⟨f0, u, halloc0, hcreate⟩ := bind_eq_ok.mp hcreate
      obtain ⟨f1, v, halloc1, hcreate⟩ := bind_eq_ok.mp hcreate
      obtain ⟨hne, hfree0, _, rfl⟩ := allocFileHandle_twice halloc0 halloc1
      cases pi with
      | none => cases hcreate
      | some pi =>
        simp only [setFile, modify_bind] at hcreate
        obtain ⟨fd0, x, hregist0, hcreate⟩ := bind_eq_ok.mp hcreate
        obtain ⟨fd1, z, hregist1, hcreate⟩ := bind_eq_ok.mp hcreate
        cases hcreate
        refine not_restored_of_ref (i := f0) ?_
        rw [registFileHandle_fileTable hregist1, registFileHandle_fileTable hregist0]
        simp [withFile_apply, Ne.symm hne, hfree0.1]

end Calls

end PageFaultOS
