import Mathlib.Tactic
import PageFaultOS.Fs.Directory
import PageFaultOS.Fs.ReadFile
import PageFaultOS.Fs.UniqueNames

/-! Removing a file. `tf_remove` moves the entries behind that of the file up, each of which it
writes with `tf_fwrite`; that copies the 32 bytes over the one byte of a `bool`. -/

namespace PageFaultOS
open Exec Exec.Comp ByteMem

variable {V : View} {s t : Fat32} {fp k : Nat} {path : CStr} {c d f : TFFile} {cs : List Nat}

/-! ## The directory of the file -/

theorem enter_size {e : FatFileEntry} (h : (enter e f).attributes &&& tfAttrDirectory ≠ 0) :
    (enter e f).size = 0xffffffff := if_pos h

/-- A directory at the end of a path is at its first entry. -/
theorem View.walk_directory (h : V.walk path = .ok true d) :
    Entered d ∧ (d.attributes &&& tfAttrDirectory ≠ 0 → d.size = 0xffffffff) :=
  View.walk_loop_at (P := fun d => Entered d ∧
      (d.attributes &&& tfAttrDirectory ≠ 0 → d.size = 0xffffffff))
    (fun e f => ⟨entered_enter e f, enter_size⟩) ⟨entered_root, fun _ => rfl⟩ h

/-- Opening a directory, in any mode. -/
theorem tfFnopen_directory {mode : Mode} {n : Nat} {p : FilePtr} (hn : n < 256) (hs : V.On s)
    (hwalk : V.walk (path.take n) = .ok true d) (hdir : d.attributes &&& tfAttrDirectory ≠ 0)
    (hrun : tfFnopen path mode n s = .ok p t) :
    p = .invalid ∨ ∃ fp, p = .handle fp ∧ (V.setting fp).R t d := by
  rcases tfFnopen_start path mode hn s with hstart | ⟨fp, f, hroot, hstart⟩
  · rw [hstart] at hrun
    cases hrun
    exact Or.inl rfl
  · rw [hstart] at hrun
    obtain ⟨found, u, hloop, hafter⟩ := bind_eq_ok.mp hrun
    have hon := (untouched_setFile s fp f).on hs
    have hsees := (walk_loop_sees V fp fileRounds (path.take n)).run (s.setFile fp f)
      View.root ⟨hon.1, hon.2, by rw [s.setFile_self, hroot]⟩
    unfold View.walk at hwalk
    rw [hloop, hwalk] at hsees
    obtain ⟨rfl, hrel⟩ := hsees
    have hattr : (u.handles fp).attributes = d.attributes := by
      rw [← hrel.2.2]
      rfl
    have htruncate : (if mode.write then truncate fp else pure () : FsComp Unit) u = .ok () u := by
      split
      · unfold truncate
        rw [bind_ok (getFile_run u fp), hattr, if_neg hdir]
        rfl
      · rfl
    unfold afterWalk at hafter
    rw [if_neg (by decide), bind_ok htruncate] at hafter
    cases hafter
    have huntouched := untouched_setFile u fp { u.handles fp with filename := path.take n }
    obtain ⟨hco, hview⟩ := huntouched.on ⟨hrel.1, hrel.2.1⟩
    refine Or.inr ⟨fp, rfl, hco, hview, ?_⟩
    rw [u.setFile_self, ← hrel.2.2]
    rfl

/-- The directory that `tf_parent` opens. -/
theorem tfParent_directory {p : FilePtr} (hs : V.On s) (hparent : V.parent path = .ok true d)
    (hdir : d.attributes &&& tfAttrDirectory ≠ 0) (hrun : tfParent path s = .ok p t) :
    p = .invalid ∨ ∃ fp, p = .handle fp ∧ (V.setting fp).R t d := by
  unfold tfParent at hrun
  unfold View.parent at hparent
  cases hn : strrchr path slash with
  | none =>
    rw [hn] at hrun
    cases hrun
  | some n =>
    rw [hn] at hrun hparent
    simp only at hrun hparent
    by_cases hlong : 256 ≤ n
    · rw [if_pos hlong] at hparent
      cases hparent
    · rw [if_neg hlong] at hparent
      exact tfFnopen_directory (Nat.lt_of_not_le hlong) hs hparent hdir hrun

/-! ## Moving the entries up -/

theorem InDir.aligned (h : InDir s fp cs f k) (hroom : HasRoom s.info.shape cs k) :
    Aligned (s.handles fp) := by
  unfold HasRoom at hroom
  rw [h.file]
  refine ⟨h.size, ?_, ?_, ?_⟩
  · show 32 * k % 32 = 0
    omega
  · show 32 * k < 2 ^ 32
    omega
  · have hmod := tmod_dvd (32 * k : Nat) s.info.shape (by omega)
    rw [Int.tmod_eq_emod_of_nonneg (Int.natCast_nonneg _), ← Int.natCast_mod] at hmod
    exact hmod

/-- The entry behind that of the file is read, and is to be written. -/
theorem removeEntries_never (h : InDir s fp cs f k) (hroom : HasRoom s.info.shape cs (k + 1)) :
    removeEntries fp s ≠ .ok () t := by
  intro hrun
  unfold removeEntries at hrun
  rw [read_bind, show fileRounds = (2 ^ 33 - 1) + 1 from rfl] at hrun
  obtain ⟨_, u, hloop, _⟩ := bind_eq_ok.mp hrun
  rw [loop_succ] at hloop
  obtain ⟨x, v, hround, _⟩ := bind_eq_ok.mp hloop
  obtain ⟨w, hseek, hmoved⟩ := h.seekBy (d := 32) (j := k + 1) (by omega) (by decide) hroom
  unfold removeRound at hround
  rw [bind_ok hseek, if_neg (by decide)] at hround
  obtain ⟨e, y, hread, hround⟩ := bind_eq_ok.mp hround
  obtain ⟨_, z, hback, hround⟩ := bind_eq_ok.mp hround
  obtain ⟨_, z', hwrite, _⟩ := bind_eq_ok.mp hround
  have hw := (h.moved hmoved).aligned (by rw [hmoved.same.shape]; exact hroom)
  exact fwriteEntry_never (Or.inl (seekBy_aligned (freadEntry_aligned hw hread) (by decide) hback))
    hwrite

/-! ## Removing -/

/-- The part of a path behind its last separator. -/
def lastPart (path : CStr) : CStr :=
  match strrchr path slash with
  | none => path
  | some n => path.drop (n + 1)

/-- The path names a file that is not a directory. Its parent is the directory `d` on the chain
`cs`, which has the name at entry `j`. -/
structure FileInDir (s : Fat32) (path : CStr) (c d : TFFile) (cs : List Nat) (j : Nat) :
    Prop where
  coherent : s.Coherent
  valid : s.info.shape.Valid
  found : s.view.lookup path = .ok true c
  regular : c.attributes &&& tfAttrDirectory = 0
  named : lastPart path ≠ []
  parent : s.view.parent path = .ok true d
  directory : d.attributes &&& tfAttrDirectory ≠ 0
  start : d.startCluster = cs.getD 0 0
  chain : FatChain s.info.shape s.volume cs
  entry : searchDir s.info.shape s.volume cs (lastPart path) = .found j

/-- The entries are of the same file. -/
def SameFile (e e' : FatFileEntry) : Prop :=
  e.startCluster = e'.startCluster ∧ e.attributes = e'.attributes ∧ e.fileSize = e'.fileSize

/-- `tf_remove` returns, and of the directory on `cs` the file at entry `j` is gone, while the
others are still there. -/
def Removes (s : Fat32) (path : CStr) (cs : List Nat) (j : Nat) : Prop :=
  ∃ r t, tfRemove path s = .ok r t ∧
    (∀ i, searchDir t.info.shape t.volume cs (lastPart path) ≠ .found i) ∧
    ∀ name i, searchDir s.info.shape s.volume cs name = .found i → i ≠ j →
      ∃ i', searchDir t.info.shape t.volume cs name = .found i' ∧
        SameFile (dirEntry s.info.shape s.volume cs i) (dirEntry t.info.shape t.volume cs i')

/-- Behind `tf_parent` the directory is where the search begins. -/
theorem FileInDir.inDir {j : Nat} (h : FileInDir s path c d cs j)
    (hrel : (s.view.setting fp).R t d) : InDir t fp cs (t.handles fp) 0 := by
  obtain ⟨hco, hview, hfile⟩ := hrel
  have hparent := h.parent
  unfold View.parent at hparent
  have hat : Entered d ∧ (d.attributes &&& tfAttrDirectory ≠ 0 → d.size = 0xffffffff) := by
    split at hparent
    · cases hparent
    · split at hparent
      · cases hparent
      · exact View.walk_directory hparent
  have hshape : t.info.shape = s.info.shape := congrArg View.shape hview
  have hvolume : t.volume = s.volume := congrArg View.volume hview
  have hentered := hat.1
  have hstart := h.start
  have hsize := hat.2 h.directory
  rw [← hfile] at hentered hstart hsize
  have hthere : Entered (t.handles fp) :=
    ⟨hentered.pos, hentered.byte, hentered.index, hentered.cluster, hentered.size⟩
  have hon : OnChain s.info.shape cs (t.handles fp) := hthere.onChain hstart
  refine ⟨?_, hco, ?_, hstart, hsize, ?_⟩
  · rw [hshape]
    exact h.valid
  · rw [hshape, hvolume]
    exact h.chain
  · have hhere := hon.here
    rw [hthere.pos] at hhere
    rw [hshape]
    exact hhere.symm

theorem FileInDir.never {j : Nat} (h : FileInDir s path c d cs j) (r : Int) (t : Fat32) :
    tfRemove path s ≠ .ok r t := by
  intro hrun
  obtain ⟨p, u, hopen, hrun⟩ := bind_eq_ok.mp hrun
  have hlooked := tfFopen_looked path (V := s.view) ⟨h.coherent, rfl⟩
  rw [hopen, h.found] at hlooked
  rcases hlooked with ⟨rfl, _⟩ | ⟨fp, rfl, hrel⟩
  · rw [if_neg (by decide)] at hrun
    cases hrun
  · rw [if_neg (fun hnull => by cases hnull)] at hrun
    obtain ⟨fp', u', hderef, hrun⟩ := bind_eq_ok.mp hrun
    cases hderef
    obtain ⟨g, hclose⟩ := tfFclose_untouched (tfFopen_clean hopen)
    rw [bind_ok (getFile_run u fp), bind_ok hclose] at hrun
    have hon := (untouched_setFile u fp g).on ⟨hrel.1, hrel.2.1⟩
    obtain ⟨q, v, hparent, hrun⟩ := bind_eq_ok.mp hrun
    obtain ⟨dir, v', hderef, hrun⟩ := bind_eq_ok.mp hrun
    rcases tfParent_directory hon h.parent h.directory hparent with rfl | ⟨fp', rfl, hrel'⟩
    · cases hderef
    · cases hderef
      have hin := h.inDir hrel'
      have hshape : v.info.shape = s.info.shape := congrArg View.shape hrel'.2.1
      have hvolume : v.volume = s.volume := congrArg View.volume hrel'.2.1
      have hentry := h.entry
      have hnamed := h.named
      unfold lastPart at hentry hnamed
      cases hn : strrchr path slash with
      | none =>
        rw [hn] at hrun
        cases hrun
      | some n =>
        rw [hn] at hrun hentry hnamed
        simp only at hrun hentry hnamed
        unfold searchDir at hentry
        rw [← hshape, ← hvolume] at hentry
        have hrounds : (2 ^ 27 - 1) + 1 ≤ fileRounds := by decide
        obtain ⟨w, i, hfind, hmoved, hi⟩ := tfFindFile_run hnamed hin hrounds hentry (by simp)
        obtain ⟨rfl, hroom⟩ := hi j rfl
        rw [bind_ok hfind] at hrun
        have hrc : (Searched.found i).rc = 0 := rfl
        rw [if_pos hrc] at hrun
        obtain ⟨_, x, hremove, _⟩ := bind_eq_ok.mp hrun
        refine removeEntries_never (hin.moved hmoved) ?_ hremove
        rw [hmoved.same.shape]
        exact hroom

/-- `tf_remove` removes no file. -/
theorem tfRemove_never_removes (s : Fat32) (path : CStr) (c d : TFFile) (cs : List Nat) (j : Nat)
    (h : FileInDir s path c d cs j) : ¬ Removes s path cs j := by
  rintro ⟨r, t, hrun, _⟩
  exact h.never r t hrun

/-- The file `A` in the root directory. -/
theorem helloVolume_fileInDir :
    ∃ c d, FileInDir helloVolume [slash, 0x41] c d [2] 0 := by
  obtain ⟨c, h, _⟩ := helloVolume_names
  refine ⟨c, View.root, h.coherent, h.valid, h.found, h.regular, by decide, rfl, by decide, rfl,
    ⟨fun i hi => absurd hi (by simp), fun i hi => absurd hi (by simp)⟩, ?_⟩
  decide

theorem tfRemove_keeps_hello : ∃ s path c d cs j, FileInDir s path c d cs j ∧
    ¬ Removes s path cs j := by
  obtain ⟨c, d, h⟩ := helloVolume_fileInDir
  refine ⟨helloVolume, [slash, 0x41], c, d, [2], 0, h, ?_⟩
  rintro ⟨r, t, hrun, _⟩
  exact h.never r t hrun

theorem tfRemove_never_removes_hello : ¬ Removes helloVolume [slash, 0x41] [2] 0 := by
  obtain ⟨c, d, h⟩ := helloVolume_fileInDir
  exact tfRemove_never_removes helloVolume [slash, 0x41] c d [2] 0 h

end PageFaultOS
