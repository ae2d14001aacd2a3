import Mathlib.Tactic
import PageFaultOS.Fs.Removing
import PageFaultOS.Fs.Allocation

/-! Making a directory. `tf_mkdir` returns where there is something at the path already, where
the parent does not exist, and at once for a path above the root; it does not come back from
writing the entries of a new name. -/

namespace PageFaultOS
open Exec Exec.Comp ByteMem

variable {s t : Fat32} {path : CStr}

/-- It returns `0` for the paths that it does nothing about. -/
theorem tfMkdir_zero (hrun : tfMkdir path s = .ok 0 t) :
    isParentPath (mkdirName path) = true ∧ t = s := by
  unfold tfMkdir at hrun
  change (if isParentPath (mkdirName path) then pure 0 else _ : FsComp Int) s = .ok 0 t at hrun
  split at hrun
  · rename_i habove
    cases hrun
    exact ⟨habove, rfl⟩
  · obtain ⟨p, u, _, hrun⟩ := bind_eq_ok.mp hrun
    split at hrun
    · -- there is something at the path
      obtain ⟨fp, v, _, hrun⟩ := bind_eq_ok.mp hrun
      obtain ⟨_, w, _, hrun⟩ := bind_eq_ok.mp hrun
      obtain ⟨_, x, _, hrun⟩ := bind_eq_ok.mp hrun
      cases hrun
    · obtain ⟨dir, v, hparent, hrun⟩ := bind_eq_ok.mp hrun
      split at hrun
      · -- there is no parent
        cases hrun
      · obtain ⟨fp, w, hderef, hrun⟩ := bind_eq_ok.mp hrun
        obtain ⟨_, x, hplace, _⟩ := bind_eq_ok.mp hrun
        cases dir with
        | null => cases hderef
        | invalid => cases hderef
        | handle fp' =>
          cases hderef
          have hfile := tfParent_parentFile hparent
          exact absurd hplace (placeEntry_never hfile.1 hfile.2 _)

/-- The path is missing in the directory `d` on the chain `cs`, and there is a free cluster. -/
structure MissingInDir (s : Fat32) (path : CStr) (d : TFFile) (cs : List Nat) : Prop where
  coherent : s.Coherent
  valid : s.info.shape.Valid
  absolute : path.head? = some slash
  named : lastPart path ≠ []
  absent : ∃ c, s.view.lookup path = .ok false c
  parent : s.view.parent path = .ok true d
  directory : d.attributes &&& tfAttrDirectory ≠ 0
  start : d.startCluster = cs.getD 0 0
  chain : FatChain s.info.shape s.volume cs
  free : ∃ i, Available s.info.shape s.volume i

/-- The names of the two entries of a new directory. -/
def dotName : List UInt8 := dot :: List.replicate 10 space

def dotdotName : List UInt8 := dot :: dot :: List.replicate 9 space

/-- An entry for a directory. -/
structure DirectoryEntry (e : FatFileEntry) (filename : List UInt8) (cluster : Nat) : Prop where
  filename : e.take 11 = filename
  attributes : e.attributes = tfAttrDirectory
  cluster : e.startCluster = cluster

/-- What the `..` of a directory in `d` has as its cluster. -/
def parentCluster (d : TFFile) : Nat :=
  if d.startCluster = View.root.startCluster then 0 else d.startCluster

/-- At the path there is a directory on the chain `ds`, which has its two entries and no other. -/
structure NewDirectory (t : Fat32) (path : CStr) (d : TFFile) (ds : List Nat) : Prop where
  found : ∃ c, t.view.lookup path = .ok true c ∧ c.attributes &&& tfAttrDirectory ≠ 0 ∧
    c.startCluster = ds.getD 0 0
  chain : FatChain t.info.shape t.volume ds
  own : DirectoryEntry (dirEntry t.info.shape t.volume ds 0) dotName (ds.getD 0 0)
  parent : DirectoryEntry (dirEntry t.info.shape t.volume ds 1) dotdotName (parentCluster d)
  last : entryByte (dirEntry t.info.shape t.volume ds 2) 0 = 0

/-- `tf_mkdir` returns `0`, the new directory is there, and so is all that its parent had; the
chain of the parent may have grown. -/
def MakesDirectory (s : Fat32) (path : CStr) (d : TFFile) (cs : List Nat) : Prop :=
  ∃ t, tfMkdir path s = .ok 0 t ∧ (∃ ds, NewDirectory t path d ds) ∧
    ∃ cs', cs <+: cs' ∧ FatChain t.info.shape t.volume cs' ∧
      ∀ name i, searchDir s.info.shape s.volume cs name = .found i →
        ∃ i', searchDir t.info.shape t.volume cs' name = .found i' ∧
          SameFile (dirEntry s.info.shape s.volume cs i) (dirEntry t.info.shape t.volume cs' i')

theorem MissingInDir.never {d : TFFile} {cs : List Nat} (h : MissingInDir s path d cs) :
    ¬ MakesDirectory s path d cs := by
  rintro ⟨t, hrun, ⟨ds, hnew⟩, _⟩
  obtain ⟨-, rfl⟩ := tfMkdir_zero hrun
  obtain ⟨c, habsent⟩ := h.absent
  obtain ⟨c', hfound, _⟩ := hnew.found
  rw [habsent] at hfound
  cases hfound

/-- `tf_mkdir` makes no directory. -/
theorem tfMkdir_never_makes (s : Fat32) (path : CStr) (d : TFFile) (cs : List Nat)
    (h : MissingInDir s path d cs) : ¬ MakesDirectory s path d cs := h.never

/-- A volume whose root directory is empty. -/
def emptyRoot : Fat32 :=
  { blankVolume with disk := fun a =>
      if 2 * 512 ≤ a ∧ a < 2 * 512 + 12 then if a % 4 = 3 then 0x0f else 0xff else 0 }

theorem emptyRoot_coherent : emptyRoot.Coherent := by
  apply coherent_of_first_sector
  intro a ha
  rw [if_neg (by omega)]

theorem emptyRoot_missing : MissingInDir emptyRoot [slash, 0x42] View.root [2] := by
  have hlookup : (emptyRoot.view.lookup [slash, 0x42]).value = some false := by decide +kernel
  obtain ⟨c, habsent⟩ := Res.eq_ok_of_value hlookup
  refine ⟨emptyRoot_coherent, ⟨by decide, by decide⟩, rfl, by decide, ⟨c, habsent⟩, rfl, by decide,
    rfl, ⟨fun i hi => absurd hi (by simp), fun i hi => absurd hi (by simp)⟩, 3, by decide, ?_⟩
  show fatEntry emptyRoot.info.shape emptyRoot.volume 3 &&& 0x0fffffff = 0
  decide +kernel

theorem tfMkdir_makes_nothing : ∃ s path d cs, MissingInDir s path d cs ∧
    ¬ MakesDirectory s path d cs :=
  ⟨emptyRoot, [slash, 0x42], View.root, [2], emptyRoot_missing, emptyRoot_missing.never⟩

theorem tfMkdir_never_makes_empty : ¬ MakesDirectory emptyRoot [slash, 0x42] View.root [2] :=
  tfMkdir_never_makes emptyRoot [slash, 0x42] View.root [2] emptyRoot_missing

end PageFaultOS
