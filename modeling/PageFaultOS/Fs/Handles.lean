import Mathlib.Tactic
import PageFaultOS.Lib.Run
import PageFaultOS.Fs.Ops

/-! The five `TFFile` handles of `fs/fat32.cpp`: which of them are open. What goes on with an
open file leaves them alone; `tf_fnopen` opens one, and `tf_fclose` closes it. -/

namespace PageFaultOS
open Exec Exec.Comp ByteMem

def TFFile.IsOpen (f : TFFile) : Prop := f.flags &&& tfFlagOpen ≠ 0

instance (f : TFFile) : Decidable f.IsOpen := inferInstanceAs (Decidable (_ ≠ _))

def TFFile.IsDirty (f : TFFile) : Prop := f.flags &&& tfFlagDirty ≠ 0

/-- The handles with `TF_FLAG_OPEN`. -/
def Fat32.openHandles (s : Fat32) : Finset Nat :=
  (Finset.range tfFileHandles).filter fun i => (s.handles i).IsOpen

/-- What the use of `(TFFile *)-1` as a handle ends in. -/
def badFile : Fault := .undefined "file -1"

/-- The same handles are open, for the same files. -/
structure Calm (s t : Fat32) : Prop where
  opened : ∀ i < tfFileHandles, ((t.handles i).IsOpen ↔ (s.handles i).IsOpen)
  filename : ∀ i < tfFileHandles, (s.handles i).IsOpen →
    (t.handles i).filename = (s.handles i).filename

/-- And they are still files and directories, and no handle has been refused. -/
structure Still (s t : Fat32) : Prop extends Calm s t where
  attributes : ∀ i < tfFileHandles, (t.handles i).attributes = (s.handles i).attributes
  refused : t.refused = s.refused

/-- And the same files are dirty. -/
structure Settled (s t : Fat32) : Prop extends Still s t where
  dirty : ∀ i < tfFileHandles, ((t.handles i).IsDirty ↔ (s.handles i).IsDirty)

variable {s t u : Fat32} {α : Type}

theorem Calm.refl (s : Fat32) : Calm s s := ⟨fun _ _ => Iff.rfl, fun _ _ _ => rfl⟩

theorem Calm.trans (h : Calm s t) (h' : Calm t u) : Calm s u :=
  ⟨fun i hi => (h'.opened i hi).trans (h.opened i hi), fun i hi ho =>
    (h'.filename i hi ((h.opened i hi).mpr ho)).trans (h.filename i hi ho)⟩

theorem Still.refl (s : Fat32) : Still s s := ⟨.refl s, fun _ _ => rfl, rfl⟩

theorem Still.trans (h : Still s t) (h' : Still t u) : Still s u :=
  ⟨h.toCalm.trans h'.toCalm, fun i hi => (h'.attributes i hi).trans (h.attributes i hi),
    h'.refused.trans h.refused⟩

instance : Std.Refl Still := ⟨Still.refl⟩

instance : IsTrans Fat32 Still := ⟨fun _ _ _ h h' => h.trans h'⟩

instance : Std.Refl Settled := ⟨fun s => ⟨.refl s, fun _ _ => Iff.rfl⟩⟩

instance : IsTrans Fat32 Settled :=
  ⟨fun _ _ _ h h' => ⟨h.toStill.trans h'.toStill,
    fun i hi => (h'.dirty i hi).trans (h.dirty i hi)⟩⟩

theorem Calm.openHandles (h : Calm s t) : t.openHandles = s.openHandles :=
  Finset.filter_congr fun i hi => h.opened i (Finset.mem_range.mp hi)

/-- Code that reads. -/
abbrev Reading (x : FsComp α) : Prop := Res.Follows Settled (· ≠ badFile) x

/-- Code that may write, too. -/
abbrev Quiet (x : FsComp α) : Prop := Res.Follows Still (· ≠ badFile) x

theorem Reading.quiet {x : FsComp α} (h : Reading x) : Quiet x := fun s =>
  (h s).mono (fun _ _ ht => ht.toStill) (fun _ _ ht => ⟨ht.1, ht.2.toStill⟩)

/-! ## Reading and writing -/

theorem isOpen_congr {f g : TFFile} (h : g.flags &&& 3 = f.flags &&& 3) :
    g.IsOpen ↔ f.IsOpen := by
  have hand : ∀ n, n &&& tfFlagOpen = (n &&& 3) &&& tfFlagOpen := fun n => by
    rw [Nat.and_assoc]
    rfl
  rw [TFFile.IsOpen, TFFile.IsOpen, hand, h, ← hand]

theorem isDirty_congr {f g : TFFile} (h : g.flags &&& 3 = f.flags &&& 3) :
    g.IsDirty ↔ f.IsDirty := by
  have hand : ∀ n, n &&& tfFlagDirty = (n &&& 3) &&& tfFlagDirty := fun n => by
    rw [Nat.and_assoc]
    rfl
  rw [TFFile.IsDirty, TFFile.IsDirty, hand, h, ← hand]

theorem Calm.setFile {fp : Nat} {f : TFFile} (hopen : f.IsOpen ↔ (s.handles fp).IsOpen)
    (hname : f.filename = (s.handles fp).filename) : Calm s (s.setFile fp f) := by
  constructor
  · intro i _
    by_cases hi : i = fp
    · rw [hi, s.setFile_self, hopen]
    · rw [s.setFile_other f hi]
  · intro i _ _
    by_cases hi : i = fp
    · rw [hi, s.setFile_self, hname]
    · rw [s.setFile_other f hi]

theorem Still.setFile {fp : Nat} {f : TFFile} (hopen : f.IsOpen ↔ (s.handles fp).IsOpen)
    (hname : f.filename = (s.handles fp).filename)
    (hattr : f.attributes = (s.handles fp).attributes) : Still s (s.setFile fp f) := by
  refine ⟨Calm.setFile hopen hname, fun i _ => ?_, rfl⟩
  by_cases hi : i = fp
  · rw [hi, s.setFile_self, hattr]
  · rw [s.setFile_other f hi]

/-- A change that neither opens nor closes the file. -/
structure Mild (g : TFFile → TFFile) : Prop where
  filename : ∀ f, (g f).filename = f.filename := by exact fun _ => rfl
  attributes : ∀ f, (g f).attributes = f.attributes := by exact fun _ => rfl

theorem reading_modifyFile {fp : Nat} {g : TFFile → TFFile}
    (hflags : ∀ f, (g f).flags &&& 3 = f.flags &&& 3) (hg : Mild g) :
    Reading (modifyFile fp g) := by
  refine Res.follows_modify fun s =>
    ⟨Still.setFile (isOpen_congr (hflags _)) (hg.filename _) (hg.attributes _), fun i _ => ?_⟩
  by_cases hi : i = fp
  · rw [hi, s.setFile_self]
    exact isDirty_congr (hflags _)
  · rw [s.setFile_other _ hi]

theorem quiet_modifyFile {fp : Nat} {g : TFFile → TFFile}
    (hopen : ∀ f, (g f).IsOpen ↔ f.IsOpen) (hg : Mild g) : Quiet (modifyFile fp g) :=
  Res.follows_modify fun _ => Still.setFile (hopen _) (hg.filename _) (hg.attributes _)

/-- A change of the cache or of the device. -/
theorem reading_modify {g : Fat32 → Fat32} (hhandles : ∀ s, (g s).handles = s.handles)
    (hrefused : ∀ s, (g s).refused = s.refused) : Reading (modify g) := by
  refine Res.follows_modify fun s =>
    ⟨⟨⟨fun i _ => ?_, fun i _ _ => ?_⟩, fun i _ => ?_, hrefused s⟩, fun i _ => ?_⟩
  · rw [hhandles]
  · rw [hhandles]
  · rw [hhandles]
  · rw [hhandles]

theorem reading_getFile (fp : Nat) : Reading (getFile fp) :=
  Res.follows_bind Res.follows_read fun _ => Res.follows_pure _

theorem reading_storeDirty : Reading storeDirty :=
  Res.follows_bind Res.follows_read fun _ =>
    Res.follows_ite (reading_modify (fun _ => rfl) fun _ => rfl) (Res.follows_pure ())

theorem reading_tfFetch (sector : Nat) : Reading (tfFetch sector) :=
  Res.follows_bind Res.follows_read fun _ =>
    Res.follows_ite (Res.follows_pure ()) (Res.follows_bind reading_storeDirty fun _ =>
      reading_modify (fun _ => rfl) fun _ => rfl)

theorem reading_tfGetFatEntry (cluster : Nat) : Reading (tfGetFatEntry cluster) :=
  Res.follows_bind Res.follows_read fun _ => Res.follows_bind (reading_tfFetch _) fun _ =>
    Res.follows_bind Res.follows_read fun _ => Res.follows_pure _

theorem reading_tfSetFatEntry (cluster value : Nat) : Reading (tfSetFatEntry cluster value) :=
  Res.follows_bind Res.follows_read fun _ => Res.follows_bind (reading_tfFetch _) fun _ =>
    Res.follows_bind Res.follows_read fun _ =>
      Res.follows_ite (reading_modify (fun _ => rfl) fun _ => rfl) (Res.follows_pure ())

theorem diverge_ne_badFile : Fault.diverge ≠ badFile := by decide

theorem reading_findFree (i : Nat) : Reading (loop findFreeRound fileRounds i) :=
  Res.follows_loop diverge_ne_badFile (fun _ => Res.follows_bind Res.follows_read fun _ =>
    Res.follows_ite (Res.follows_pure _) (Res.follows_bind (reading_tfGetFatEntry _) fun _ =>
      Res.follows_ite (Res.follows_pure _) (Res.follows_pure _))) _ _

theorem reading_tfFindFreeClusterFrom (c : Nat) : Reading (tfFindFreeClusterFrom c) :=
  Res.follows_bind (reading_findFree c) fun _ => Res.follows_bind Res.follows_read fun _ =>
    Res.follows_ite (reading_findFree 0) (Res.follows_pure _)

theorem reading_tfFreeClusterchain (cluster : Nat) : Reading (tfFreeClusterchain cluster) := by
  refine Res.follows_bind (reading_tfGetFatEntry _) fun _ =>
    Res.follows_loop diverge_ne_badFile (fun p => ?_) _ _
  obtain ⟨cluster, fatEntry⟩ := p
  exact Res.follows_ite (Res.follows_pure _) (Res.follows_ite (Res.follows_pure _)
    (Res.follows_bind (reading_tfSetFatEntry _ _) fun _ =>
      Res.follows_bind (reading_tfGetFatEntry _) fun _ => Res.follows_pure _))

theorem reading_nextCluster (fp : Nat) : Reading (nextCluster fp) := by
  have hto : ∀ c, Reading (modifyFile fp fun f => { f with currentCluster := c }) := fun c =>
    reading_modifyFile (fun _ => rfl) ⟨fun _ => rfl, fun _ => rfl⟩
  exact Res.follows_bind (reading_getFile fp) fun _ =>
    Res.follows_bind (reading_tfGetFatEntry _) fun _ =>
      Res.follows_ite (hto _) (Res.follows_bind (reading_tfFindFreeClusterFrom _) fun _ =>
        Res.follows_bind (reading_tfSetFatEntry _ _) fun _ =>
          Res.follows_bind (reading_tfSetFatEntry _ _) fun _ => hto _)

theorem reading_seekRound (fp n : Nat) : Reading (seekRound fp n) :=
  Res.follows_ite (Res.follows_pure _) (Res.follows_bind (reading_nextCluster fp) fun _ =>
    Res.follows_bind (reading_getFile fp) fun _ =>
      Res.follows_ite (Res.follows_pure _) (Res.follows_pure _))

theorem reading_seekCluster (fp n : Nat) : Reading (seekCluster fp n) := by
  have hloop : ∀ k, Reading (loop (seekRound fp) fileRounds k) :=
    Res.follows_loop diverge_ne_badFile (reading_seekRound fp) fileRounds
  exact Res.follows_bind (reading_getFile fp) fun _ =>
    Res.follows_ite (Res.follows_pure _) (Res.follows_ite
      (Res.follows_bind (reading_modifyFile (fun _ => rfl) ⟨fun _ => rfl, fun _ => rfl⟩)
        fun _ => hloop _)
      (Res.follows_bind (reading_modifyFile (fun _ => rfl) ⟨fun _ => rfl, fun _ => rfl⟩)
        fun _ => hloop _))

theorem or_sizechanged (n : Nat) : (n ||| tfFlagSizechanged) &&& 3 = n &&& 3 := by
  rw [Nat.and_or_distrib_right]
  exact Nat.or_zero _

theorem reading_growAtEnd (fp : Nat) (pos : Int) : Reading (growAtEnd fp pos) :=
  Res.follows_bind (reading_getFile fp) fun _ =>
    Res.follows_ite
      (reading_modifyFile (fun f => or_sizechanged f.flags) ⟨fun _ => rfl, fun _ => rfl⟩)
      (Res.follows_pure ())

theorem reading_tfUnsafeFseek (fp : Nat) (base offset : Int) :
    Reading (tfUnsafeFseek fp base offset) :=
  Res.follows_bind (reading_getFile fp) fun _ =>
    Res.follows_ite (Res.follows_pure _) (Res.follows_bind (reading_growAtEnd fp _) fun _ =>
      Res.follows_bind Res.follows_read fun _ =>
        Res.follows_bind (reading_seekCluster fp _) fun _ =>
          Res.follows_ite (Res.follows_pure _)
            (Res.follows_bind
              (reading_modifyFile (fun _ => rfl) ⟨fun _ => rfl, fun _ => rfl⟩) fun _ =>
              Res.follows_pure _))

theorem reading_tfFseek (fp : Nat) (base offset : Int) : Reading (tfFseek fp base offset) :=
  Res.follows_bind (reading_getFile fp) fun _ =>
    Res.follows_ite (Res.follows_pure _) (reading_tfUnsafeFseek fp _ _)

theorem undefined_ne_badFile {why : String} (h : why ≠ "file -1") :
    Fault.undefined why ≠ badFile := fun hf => h (Fault.undefined.inj hf)

theorem reading_tfFread (size fp : Nat) : Reading (tfFread size fp) := by
  refine Res.follows_loop diverge_ne_badFile (fun p => ?_) _ _
  obtain ⟨size, dest⟩ := p
  exact Res.follows_ite (Res.follows_pure _) (Res.follows_bind (reading_getFile fp) fun _ =>
    Res.follows_bind Res.follows_read fun _ => Res.follows_bind (reading_tfFetch _) fun _ =>
      Res.follows_ite (Res.follows_fault (undefined_ne_badFile (by decide)))
        (Res.follows_bind Res.follows_read fun _ => Res.follows_bind (reading_tfFseek fp _ _) fun _ =>
          Res.follows_ite (Res.follows_pure _) (Res.follows_pure _)))

/-! ## The memory of the process -/

/-- Any state of the memory. -/
def Anywhere : MemState → MemState → Prop := fun _ _ => True

instance : Std.Refl Anywhere := ⟨fun _ => trivial⟩

instance : IsTrans MemState Anywhere := ⟨fun _ _ _ _ _ => trivial⟩

abbrev Harmless (x : MemComp α) : Prop := Res.Follows Anywhere (· ≠ badFile) x

theorem panic_ne_badFile {msg : String} : Fault.panic msg ≠ badFile := fun h => by cases h

theorem harmless_modify (g : MemState → MemState) : Harmless (modify g) :=
  Res.follows_modify fun _ => trivial

theorem harmless_panic (msg : String) : Harmless (Comp.panic msg : MemComp α) :=
  Res.follows_fault panic_ne_badFile

theorem harmless_kalloc : Harmless kalloc := by
  refine Res.follows_bind Res.follows_read fun σ => ?_
  simp only
  exact Res.follows_ite (Res.follows_bind (harmless_modify _) fun _ =>
    Res.follows_bind (harmless_modify _) fun _ => Res.follows_pure _) (Res.follows_pure _)

theorem harmless_walkLevel (pagetable vaddr : Nat) (alloc : Bool) (level : Nat) :
    Harmless (walkLevel pagetable vaddr alloc level) :=
  Res.follows_bind Res.follows_read fun _ => Res.follows_ite (Res.follows_pure _)
    (Res.follows_ite (Res.follows_bind harmless_kalloc fun _ =>
      Res.follows_ite (Res.follows_pure _) (Res.follows_bind (harmless_modify _) fun _ =>
        Res.follows_bind (harmless_modify _) fun _ => Res.follows_pure _)) (Res.follows_pure _))

theorem harmless_walk (pagetable vaddr : Nat) (alloc : Bool) :
    Harmless (walk pagetable vaddr alloc) := by
  refine Res.follows_ite (harmless_panic _) (Res.follows_bind (harmless_walkLevel _ _ _ _)
    fun table => ?_)
  cases table with
  | none => exact Res.follows_pure _
  | some table1 =>
    refine Res.follows_bind (harmless_walkLevel _ _ _ _) fun table => ?_
    cases table with
    | none => exact Res.follows_pure _
    | some table0 => exact Res.follows_pure _

theorem harmless_kGetKaddr (kpagetable vaddr : Nat) : Harmless (kGetKaddr kpagetable vaddr) :=
  Res.follows_bind (harmless_walk _ _ _) fun _ => Res.follows_ite (harmless_panic _)
    (Res.follows_bind Res.follows_read fun _ =>
      Res.follows_ite (harmless_panic _) (Res.follows_pure _))

theorem harmless_copyin (pagetable srcvaddr len : Nat) :
    Harmless (copyin pagetable srcvaddr len) := by
  refine Res.follows_loop diverge_ne_badFile (fun p => ?_) _ _
  obtain ⟨srcvaddr, len, dst⟩ := p
  exact Res.follows_ite (Res.follows_pure _) (Res.follows_bind (harmless_kGetKaddr _ _) fun _ =>
    Res.follows_ite (Res.follows_pure _) (Res.follows_bind (harmless_modify _) fun _ =>
      Res.follows_bind Res.follows_read fun _ => Res.follows_pure _))

theorem harmless_copyout (pagetable dstvaddr : Nat) (src : List UInt8) :
    Harmless (copyout pagetable dstvaddr src) := by
  refine Res.follows_loop diverge_ne_badFile (fun p => ?_) _ _
  obtain ⟨dstvaddr, src⟩ := p
  exact Res.follows_ite (Res.follows_pure _) (Res.follows_bind (harmless_kGetKaddr _ _) fun _ =>
    Res.follows_ite (Res.follows_pure _) (Res.follows_bind (harmless_modify _) fun _ =>
      Res.follows_bind (harmless_modify _) fun _ => Res.follows_pure _))

theorem reading_onMemory {x : MemComp α} (hx : Harmless x) : Reading (onMemory x) := by
  intro s
  have h := hx s.mm
  unfold onMemory
  cases hrun : x s.mm with
  | ok a m =>
    exact ⟨⟨⟨fun _ _ => Iff.rfl, fun _ _ _ => rfl⟩, fun _ _ => rfl, rfl⟩, fun _ _ => Iff.rfl⟩
  | fault e m =>
    rw [hrun] at h
    exact ⟨h.1, ⟨⟨fun _ _ => Iff.rfl, fun _ _ _ => rfl⟩, fun _ _ => rfl, rfl⟩, fun _ _ => Iff.rfl⟩

/-! ## Writing -/

theorem reading_copyToFlag (byte : UInt8) (src x : Nat) : Reading (copyToFlag byte src x) :=
  Res.follows_bind Res.follows_read fun _ => Res.follows_bind
    (Res.follows_ite (reading_onMemory (harmless_copyin _ _ _)) (Res.follows_pure _)) fun _ =>
      Res.follows_ite (Res.follows_fault (undefined_ne_badFile (by decide))) (Res.follows_pure ())

theorem reading_growTo (fp x : Nat) : Reading (growTo fp x) :=
  Res.follows_bind (reading_getFile fp) fun _ =>
    Res.follows_ite
      (reading_modifyFile (fun f => or_sizechanged f.flags) ⟨fun _ => rfl, fun _ => rfl⟩)
      (Res.follows_pure ())

theorem quiet_tfFwrite (src sz fp : Nat) : Quiet (tfFwrite src sz fp) := by
  have hdirty : ∀ n, (n ||| tfFlagDirty) &&& tfFlagOpen = n &&& tfFlagOpen := by
    intro n
    rw [Nat.and_or_distrib_right]
    exact Nat.or_zero _
  refine Res.follows_bind (quiet_modifyFile (fun f => ?_) ⟨fun _ => rfl, fun _ => rfl⟩) fun _ =>
    Reading.quiet ?_
  · rw [TFFile.IsOpen, TFFile.IsOpen, hdirty]
  · refine Res.follows_loop diverge_ne_badFile (fun p => ?_) _ _
    obtain ⟨src, sz, n⟩ := p
    exact Res.follows_ite (Res.follows_pure _) (Res.follows_bind (reading_getFile fp) fun _ =>
      Res.follows_bind Res.follows_read fun _ => Res.follows_bind (reading_tfFetch _) fun _ =>
        Res.follows_ite (Res.follows_fault (undefined_ne_badFile (by decide)))
          (Res.follows_bind Res.follows_read fun _ =>
            Res.follows_bind (reading_copyToFlag _ _ _) fun _ =>
              Res.follows_bind (reading_modify (fun _ => rfl) fun _ => rfl) fun _ =>
                Res.follows_bind (reading_growTo fp _) fun _ =>
                  Res.follows_bind (reading_tfUnsafeFseek fp _ _) fun _ =>
                    Res.follows_ite (Res.follows_pure _) (Res.follows_pure _)))

/-! ## Directories -/

theorem reading_freadEntry (entry : FatFileEntry) (fp : Nat) : Reading (freadEntry entry fp) :=
  Res.follows_bind (reading_tfFread 32 fp) fun _ => Res.follows_pure _

theorem reading_seekBy (fp : Nat) (base : Int) : Reading (seekBy fp base) :=
  Res.follows_bind (reading_getFile fp) fun _ => reading_tfFseek fp base _

theorem reading_tfCompareFilename (fp : Nat) (name : CStr) : Reading (tfCompareFilename fp name) := by
  have hround : ∀ n p, Reading (compareLfnRound fp n p) := by
    rintro n ⟨i, compareName, entry⟩
    exact Res.follows_ite (Res.follows_bind (reading_seekBy _ _) fun _ => Res.follows_pure _)
      (Res.follows_bind (reading_seekBy _ _) fun _ =>
        Res.follows_bind (reading_freadEntry _ _) fun _ =>
          Res.follows_ite (Res.follows_bind (reading_seekBy _ _) fun _ => Res.follows_pure _)
            (Res.follows_bind (reading_seekBy _ _) fun _ => Res.follows_pure _))
  exact Res.follows_bind Res.follows_read fun _ =>
    Res.follows_bind (reading_freadEntry _ _) fun _ =>
      Res.follows_ite (Res.follows_pure _) (Res.follows_ite
        (Res.follows_ite (Res.follows_bind (reading_seekBy _ _) fun _ => Res.follows_pure _)
          (Res.follows_pure _))
        (Res.follows_ite (Res.follows_bind (reading_seekBy _ _) fun _ =>
          Res.follows_ite (Res.follows_pure _)
            (Res.follows_loop diverge_ne_badFile (hround _) _ _)) (Res.follows_pure _)))

theorem reading_tfFindFile (fp : Nat) (name : CStr) : Reading (tfFindFile fp name) :=
  Res.follows_bind (reading_tfFseek _ _ _) fun _ =>
    Res.follows_loop diverge_ne_badFile (fun _ =>
      Res.follows_bind (reading_tfCompareFilename _ _) fun _ =>
        Res.follows_ite (Res.follows_pure _)
          (Res.follows_ite (Res.follows_pure _) (Res.follows_pure _))) _ _

end PageFaultOS
