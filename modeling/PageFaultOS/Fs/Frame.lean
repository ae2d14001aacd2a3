import Mathlib.Tactic
import PageFaultOS.Lib.Commute
import PageFaultOS.Fs.Path

/-! What the code of `fs/fat32.cpp` leaves as it is: fetching sectors and setting FAT entries,
all that does not depend on the cache; seeking and reading, all that does not depend on the file
either. -/

namespace PageFaultOS
open Exec Exec.Comp ByteMem

variable {γ : Type} {φ : Fat32 → γ} {q : Nat}

/-! ## The cache -/

/-- The part `φ` of the state depends neither on the cache nor on the device. -/
def Uncached (φ : Fat32 → γ) : Prop :=
  ∀ s info disk, φ { s with info := info, disk := disk } = φ s

theorem uncached_handles : Uncached Fat32.handles := fun _ _ _ => rfl

section
variable (h : Uncached φ)
include h

theorem Uncached.tfFetch (sector : Nat) : Keeps φ (tfFetch sector) := by
  have hstore : Keeps φ storeDirty := keeps_bind (keeps_read _) fun _ =>
    keeps_ite (keeps_modify fun s => h s _ _) (keeps_pure _ _)
  exact keeps_bind (keeps_read _) fun _ => keeps_ite (keeps_pure _ _)
    (keeps_bind hstore fun _ => keeps_modify fun s => h s _ s.disk)

theorem Uncached.tfGetFatEntry (cluster : Nat) : Keeps φ (tfGetFatEntry cluster) :=
  keeps_bind (keeps_read _) fun _ => keeps_bind (h.tfFetch _) fun _ =>
    keeps_bind (keeps_read _) fun _ => keeps_pure _ _

theorem Uncached.tfSetFatEntry (cluster value : Nat) : Keeps φ (tfSetFatEntry cluster value) :=
  keeps_bind (keeps_read _) fun _ => keeps_bind (h.tfFetch _) fun _ =>
    keeps_bind (keeps_read _) fun _ =>
      keeps_ite (keeps_modify fun s => h s _ s.disk) (keeps_pure _ _)

theorem Uncached.findFree (i : Nat) : Keeps φ (loop findFreeRound fileRounds i) :=
  keeps_loop (fun _ => keeps_bind (keeps_read _) fun _ => keeps_ite (keeps_pure _ _)
    (keeps_bind (h.tfGetFatEntry _) fun _ => keeps_ite (keeps_pure _ _) (keeps_pure _ _))) _ _

theorem Uncached.tfFindFreeClusterFrom (c : Nat) : Keeps φ (tfFindFreeClusterFrom c) :=
  keeps_bind (h.findFree _) fun _ => keeps_bind (keeps_read _) fun _ =>
    keeps_ite (h.findFree 0) (keeps_pure _ _)

theorem Uncached.tfFreeClusterchain (cluster : Nat) : Keeps φ (tfFreeClusterchain cluster) := by
  refine keeps_bind (h.tfGetFatEntry _) fun _ => keeps_loop (fun p => ?_) _ _
  obtain ⟨cluster, fatEntry⟩ := p
  exact keeps_ite (keeps_pure _ _) (keeps_ite (keeps_pure _ _)
    (keeps_bind (h.tfSetFatEntry _ _) fun _ => keeps_bind (h.tfGetFatEntry _) fun _ =>
      keeps_pure _ _))

end

/-! ## Going along a chain -/

theorem keeps_getFile (φ : Fat32 → γ) (q : Nat) : Keeps φ (getFile q) :=
  keeps_bind (keeps_read _) fun _ => keeps_pure _ _

theorem keeps_modifyFile {g : TFFile → TFFile}
    (h : ∀ s, φ (s.setFile q (g (s.handles q))) = φ s) : Keeps φ (modifyFile q g) :=
  keeps_modify h

/-- Going along the chain changes nothing but the cluster. -/
theorem keeps_seekCluster (n : Nat) (h : Uncached φ) (hfile : ∀ s c i, φ (s.setFile q
      { s.handles q with currentCluster := c, currentClusterIdx := i }) = φ s) :
    Keeps φ (seekCluster q n) := by
  have hnext : Keeps φ (nextCluster q) := by
    have hmove : ∀ c, Keeps φ (modifyFile q fun f => { f with currentCluster := c }) := fun c =>
      keeps_modifyFile fun s => hfile s c (s.handles q).currentClusterIdx
    exact keeps_bind (keeps_getFile _ _) fun f => keeps_bind (h.tfGetFatEntry _) fun temp =>
      keeps_ite (hmove temp) (keeps_bind (h.tfFindFreeClusterFrom _) fun temp =>
        keeps_bind (h.tfSetFatEntry _ _) fun _ => keeps_bind (h.tfSetFatEntry _ _) fun _ =>
          hmove temp)
  have hround : ∀ n, Keeps φ (seekRound q n) := fun n =>
    keeps_ite (keeps_pure _ _) (keeps_bind hnext fun _ => keeps_bind (keeps_getFile _ _) fun _ =>
      keeps_ite (keeps_pure _ _) (keeps_pure _ _))
  refine keeps_bind (keeps_getFile _ _) fun f => keeps_ite (keeps_pure _ _) (keeps_ite ?_ ?_)
  · exact keeps_bind (keeps_modifyFile fun s => hfile s (s.handles q).currentCluster n) fun _ =>
      keeps_loop hround _ _
  · exact keeps_bind (keeps_modifyFile fun s => hfile s (s.handles q).startCluster n) fun _ =>
      keeps_loop hround _ _

/-! ## What does not depend on the file -/

/-- The part `φ` of the state depends neither on the cache nor on the file `q`. -/
structure Blind (φ : Fat32 → γ) (q : Nat) : Prop where
  cache : Uncached φ
  file : ∀ s f, φ (s.setFile q f) = φ s

/-- Another file. -/
theorem blind_other {i : Nat} (hi : i ≠ q) : Blind (fun s => s.handles i) q :=
  ⟨fun _ _ _ => rfl, fun s f => s.setFile_other f hi⟩

/-- The memory and the page table. -/
theorem blind_memory (q : Nat) : Blind (fun s => (s.mm, s.pagetable)) q :=
  ⟨fun _ _ _ => rfl, fun _ _ => rfl⟩

section
variable (h : Blind φ q)
include h

theorem Blind.modifyFile (g : TFFile → TFFile) : Keeps φ (modifyFile q g) :=
  keeps_modifyFile fun s => h.file s _

theorem Blind.tfFseek (base offset : Int) : Keeps φ (tfFseek q base offset) := by
  have hgrow : ∀ pos, Keeps φ (growAtEnd q pos) := fun pos =>
    keeps_bind (keeps_getFile _ _) fun _ => keeps_ite (h.modifyFile _) (keeps_pure _ _)
  exact keeps_bind (keeps_getFile _ _) fun _ => keeps_ite (keeps_pure _ _)
    (keeps_bind (keeps_getFile _ _) fun _ => keeps_ite (keeps_pure _ _)
      (keeps_bind (hgrow _) fun _ => keeps_bind (keeps_read _) fun _ =>
        keeps_bind (keeps_seekCluster _ h.cache fun s _ _ => h.file s _) fun _ =>
          keeps_ite (keeps_pure _ _) (keeps_bind (h.modifyFile _) fun _ => keeps_pure _ _)))

theorem Blind.seekBy (base : Int) : Keeps φ (seekBy q base) :=
  keeps_bind (keeps_getFile _ _) fun _ => h.tfFseek _ _

theorem Blind.tfFread (size : Nat) : Keeps φ (tfFread size q) := by
  refine keeps_loop (fun p => ?_) _ _
  obtain ⟨size, dest⟩ := p
  exact keeps_ite (keeps_pure _ _) (keeps_bind (keeps_getFile _ _) fun _ =>
    keeps_bind (keeps_read _) fun _ => keeps_bind (h.cache.tfFetch _) fun _ =>
      keeps_ite (keeps_fault _ _) (keeps_bind (keeps_read _) fun _ =>
        keeps_bind (h.tfFseek _ _) fun _ => keeps_ite (keeps_pure _ _) (keeps_pure _ _)))

theorem Blind.freadEntry (entry : FatFileEntry) : Keeps φ (freadEntry entry q) :=
  keeps_bind (h.tfFread 32) fun _ => keeps_pure _ _

theorem Blind.tfFindFile (name : CStr) : Keeps φ (tfFindFile q name) := by
  have hlfn : ∀ n p, Keeps φ (compareLfnRound q n p) := by
    rintro n ⟨i, rest, entry⟩
    exact keeps_ite (keeps_bind (h.seekBy _) fun _ => keeps_pure _ _)
      (keeps_bind (h.seekBy _) fun _ => keeps_bind (h.freadEntry _) fun _ => keeps_ite
        (keeps_bind (h.seekBy _) fun _ => keeps_pure _ _)
        (keeps_bind (h.seekBy _) fun _ => keeps_pure _ _))
  have hcompare : Keeps φ (tfCompareFilename q name) :=
    keeps_bind (keeps_read _) fun _ => keeps_bind (h.freadEntry _) fun _ =>
      keeps_ite (keeps_pure _ _) (keeps_ite
        (keeps_ite (keeps_bind (h.seekBy _) fun _ => keeps_pure _ _) (keeps_pure _ _))
        (keeps_ite (keeps_bind (h.seekBy _) fun _ =>
          keeps_ite (keeps_pure _ _) (keeps_loop (hlfn _) _ _)) (keeps_pure _ _)))
  exact keeps_bind (h.tfFseek _ _) fun _ => keeps_loop (fun _ =>
    keeps_bind hcompare fun _ => keeps_ite (keeps_pure _ _)
      (keeps_ite (keeps_pure _ _) (keeps_pure _ _))) _ _

theorem Blind.walkRound (path : CStr) : Keeps φ (walkRound q path) := by
  have hwalk : Keeps φ (tfWalk path q) :=
    keeps_ite (keeps_pure _ _) (keeps_bind (h.tfFindFile _) fun _ =>
      keeps_ite (keeps_bind (h.modifyFile _) fun _ => keeps_pure _ _)
        (keeps_bind (keeps_read _) fun _ => keeps_bind (h.freadEntry _) fun _ =>
          keeps_bind (h.modifyFile _) fun _ => keeps_pure _ _))
  refine keeps_bind hwalk fun rest => keeps_bind (keeps_getFile _ _) fun _ =>
    keeps_ite (keeps_pure _ _) ?_
  cases rest with
  | none => exact keeps_pure _ _
  | some rest => exact keeps_pure _ _

end

/-! ## Other memory -/

def Fat32.withMemory (mm : MemState) (s : Fat32) : Fat32 := { s with mm := mm }

section
variable (mm : MemState)

theorem commutes_tfFetch (sector : Nat) : Commutes (Fat32.withMemory mm) (tfFetch sector) := by
  have hstore : Commutes (Fat32.withMemory mm) storeDirty :=
    commutes_read (fun _ => rfl) fun _ => commutes_ite (commutes_modify fun _ => rfl)
      (commutes_pure _ _)
  exact commutes_read (fun _ => rfl) fun _ => commutes_ite (commutes_pure _ _)
    (commutes_bind hstore fun _ => commutes_modify fun _ => rfl)

theorem commutes_tfGetFatEntry (cluster : Nat) :
    Commutes (Fat32.withMemory mm) (tfGetFatEntry cluster) :=
  commutes_read (fun _ => rfl) fun _ => commutes_bind (commutes_tfFetch mm _) fun _ =>
    commutes_read (fun _ => rfl) fun _ => commutes_pure _ _

theorem commutes_tfSetFatEntry (cluster value : Nat) :
    Commutes (Fat32.withMemory mm) (tfSetFatEntry cluster value) :=
  commutes_read (fun _ => rfl) fun _ => commutes_bind (commutes_tfFetch mm _) fun _ =>
    commutes_read (fun _ => rfl) fun _ =>
      commutes_ite (commutes_modify fun _ => rfl) (commutes_pure _ _)

theorem commutes_tfFindFreeClusterFrom (c : Nat) :
    Commutes (Fat32.withMemory mm) (tfFindFreeClusterFrom c) := by
  have hround : ∀ i, Commutes (Fat32.withMemory mm) (findFreeRound i) := fun i =>
    commutes_read (fun _ => rfl) fun _ => commutes_ite (commutes_pure _ _)
      (commutes_bind (commutes_tfGetFatEntry mm _) fun _ =>
        commutes_ite (commutes_pure _ _) (commutes_pure _ _))
  have hfree : ∀ i, Commutes (Fat32.withMemory mm) (loop findFreeRound fileRounds i) :=
    commutes_loop hround _
  exact commutes_bind (hfree _) fun _ => commutes_read (fun _ => rfl) fun _ =>
    commutes_ite (hfree 0) (commutes_pure _ _)

theorem commutes_getFile (q : Nat) : Commutes (Fat32.withMemory mm) (getFile q) :=
  commutes_read (fun _ => rfl) fun _ => commutes_pure _ _

theorem commutes_modifyFile (q : Nat) (g : TFFile → TFFile) :
    Commutes (Fat32.withMemory mm) (modifyFile q g) := commutes_modify fun _ => rfl

theorem commutes_seekCluster (q n : Nat) : Commutes (Fat32.withMemory mm) (seekCluster q n) := by
  have hmove : ∀ g, Commutes (Fat32.withMemory mm) (modifyFile q g) := commutes_modifyFile mm q
  have hnext : Commutes (Fat32.withMemory mm) (nextCluster q) :=
    commutes_bind (commutes_getFile mm q) fun _ => commutes_bind (commutes_tfGetFatEntry mm _)
      fun _ => commutes_ite (hmove _) (commutes_bind (commutes_tfFindFreeClusterFrom mm _) fun _ =>
        commutes_bind (commutes_tfSetFatEntry mm _ _) fun _ =>
          commutes_bind (commutes_tfSetFatEntry mm _ _) fun _ => hmove _)
  have hround : ∀ n, Commutes (Fat32.withMemory mm) (seekRound q n) := fun n =>
    commutes_ite (commutes_pure _ _) (commutes_bind hnext fun _ =>
      commutes_bind (commutes_getFile mm q) fun _ =>
        commutes_ite (commutes_pure _ _) (commutes_pure _ _))
  exact commutes_bind (commutes_getFile mm q) fun _ => commutes_ite (commutes_pure _ _)
    (commutes_ite (commutes_bind (hmove _) fun _ => commutes_loop hround _ _)
      (commutes_bind (hmove _) fun _ => commutes_loop hround _ _))

theorem commutes_tfFseek (q : Nat) (base offset : Int) :
    Commutes (Fat32.withMemory mm) (tfFseek q base offset) := by
  have hfile := commutes_getFile mm q
  have hmove : ∀ g, Commutes (Fat32.withMemory mm) (modifyFile q g) := commutes_modifyFile mm q
  have hgrow : ∀ pos, Commutes (Fat32.withMemory mm) (growAtEnd q pos) := fun pos =>
    commutes_bind hfile fun _ => commutes_ite (hmove _) (commutes_pure _ _)
  exact commutes_bind hfile fun _ => commutes_ite (commutes_pure _ _)
    (commutes_bind hfile fun _ => commutes_ite (commutes_pure _ _)
      (commutes_bind (hgrow _) fun _ => commutes_read (fun _ => rfl) fun _ =>
        commutes_bind (commutes_seekCluster mm q _) fun _ => commutes_ite (commutes_pure _ _)
          (commutes_bind (hmove _) fun _ => commutes_pure _ _)))

theorem commutes_seekBy (q : Nat) (base : Int) :
    Commutes (Fat32.withMemory mm) (seekBy q base) :=
  commutes_bind (commutes_getFile mm q) fun _ => commutes_tfFseek mm q _ _

theorem commutes_freadEntry (entry : FatFileEntry) (q : Nat) :
    Commutes (Fat32.withMemory mm) (freadEntry entry q) := by
  have hround : ∀ p, Commutes (Fat32.withMemory mm) (freadRound q p) := by
    rintro ⟨size, dest⟩
    exact commutes_ite (commutes_pure _ _) (commutes_bind (commutes_getFile mm q) fun _ =>
      commutes_read (fun _ => rfl) fun _ => commutes_bind (commutes_tfFetch mm _) fun _ =>
        commutes_ite (commutes_fault _ _) (commutes_read (fun _ => rfl) fun _ =>
          commutes_bind (commutes_tfFseek mm q _ _) fun _ =>
            commutes_ite (commutes_pure _ _) (commutes_pure _ _)))
  exact commutes_bind (commutes_loop hround _ _) fun _ => commutes_pure _ _

theorem commutes_tfFindFile (q : Nat) (name : CStr) :
    Commutes (Fat32.withMemory mm) (tfFindFile q name) := by
  have hseek : ∀ b, Commutes (Fat32.withMemory mm) (seekBy q b) := commutes_seekBy mm q
  have hlfn : ∀ n p, Commutes (Fat32.withMemory mm) (compareLfnRound q n p) := by
    rintro n ⟨i, rest, entry⟩
    exact commutes_ite (commutes_bind (hseek _) fun _ => commutes_pure _ _)
      (commutes_bind (hseek _) fun _ => commutes_bind (commutes_freadEntry mm _ q) fun _ =>
        commutes_ite (commutes_bind (hseek _) fun _ => commutes_pure _ _)
          (commutes_bind (hseek _) fun _ => commutes_pure _ _))
  have hcompare : Commutes (Fat32.withMemory mm) (tfCompareFilename q name) :=
    commutes_read (fun _ => rfl) fun _ => commutes_bind (commutes_freadEntry mm _ q) fun _ =>
      commutes_ite (commutes_pure _ _) (commutes_ite
        (commutes_ite (commutes_bind (hseek _) fun _ => commutes_pure _ _) (commutes_pure _ _))
        (commutes_ite (commutes_bind (hseek _) fun _ =>
          commutes_ite (commutes_pure _ _) (commutes_loop (hlfn _) _ _)) (commutes_pure _ _)))
  have hround : ∀ i, Commutes (Fat32.withMemory mm) (findFileRound q name i) := fun _ =>
    commutes_bind hcompare fun _ => commutes_ite (commutes_pure _ _)
      (commutes_ite (commutes_pure _ _) (commutes_pure _ _))
  exact commutes_bind (commutes_tfFseek mm q _ _) fun _ => commutes_loop hround _ _

theorem commutes_walkRound (q : Nat) (path : CStr) :
    Commutes (Fat32.withMemory mm) (walkRound q path) := by
  have hmove : ∀ g, Commutes (Fat32.withMemory mm) (modifyFile q g) := commutes_modifyFile mm q
  have hwalk : Commutes (Fat32.withMemory mm) (tfWalk path q) :=
    commutes_ite (commutes_pure _ _) (commutes_bind (commutes_tfFindFile mm q _) fun _ =>
      commutes_ite (commutes_bind (hmove _) fun _ => commutes_pure _ _)
        (commutes_read (fun _ => rfl) fun _ => commutes_bind (commutes_freadEntry mm _ q) fun _ =>
          commutes_bind (hmove _) fun _ => commutes_pure _ _))
  refine commutes_bind hwalk fun rest => commutes_bind (commutes_getFile mm q) fun _ =>
    commutes_ite (commutes_pure _ _) ?_
  cases rest with
  | none => exact commutes_pure _ _
  | some rest => exact commutes_pure _ _

/-- Opening for reading. -/
theorem commutes_tfFnopen (path : CStr) (n : Nat) :
    Commutes (Fat32.withMemory mm) (tfFnopen path .r n) := by
  have hget : Commutes (Fat32.withMemory mm) tfGetFreeHandle := by
    refine commutes_read (fun _ => rfl) fun s => ?_
    split
    · exact commutes_bind (commutes_modify fun _ => rfl) fun _ => commutes_pure _ _
    · exact commutes_bind (commutes_modifyFile mm _ _) fun _ => commutes_pure _ _
  refine commutes_bind hget fun p => ?_
  cases p with
  | none => exact commutes_pure _ _
  | some q =>
    have hmove : ∀ g, Commutes (Fat32.withMemory mm) (modifyFile q g) := commutes_modifyFile mm q
    exact commutes_ite (commutes_fault _ _) (commutes_bind (hmove _) fun _ =>
      commutes_bind (commutes_loop (commutes_walkRound mm q) _ _) fun _ => commutes_ite
        (commutes_bind (hmove _) fun _ => commutes_pure _ _)
        (commutes_bind (commutes_pure _ _) fun _ => commutes_bind (hmove _) fun _ =>
          commutes_pure _ _))

end

end PageFaultOS
