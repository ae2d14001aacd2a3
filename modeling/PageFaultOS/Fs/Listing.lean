import Mathlib.Tactic
import PageFaultOS.Fs.View

/-! What the directories of a volume list: the entries in the clusters of the chain up to the
first without a name, and the files with their short and their long names. Where chains only
get shorter, nothing new is listed. -/

namespace PageFaultOS
open Exec Exec.Comp ByteMem

/-! ## Files -/

def tfAttrVolumeLabel : Nat := 0x08

/-- The first byte of the name of an entry that is not in use any more. -/
def deletedMark : UInt8 := 0xe5

/-- A live file, and the characters of its long name, if it has one. -/
structure DirFile where
  entry : FatFileEntry
  long : List Nat

/-- The characters of one entry of a long name. -/
def lfnPart (e : FatFileEntry) : List Nat :=
  ([1, 3, 5, 7, 9, 14, 16, 18, 20, 22, 24, 28, 30].map fun i => entryWord e i 2).takeWhile
    fun c => c ≠ 0 ∧ c ≠ 0xffff

/-- The long name with the part of `e`, which is in front of the parts read before. -/
def addPart (e : FatFileEntry) (long : List Nat) : List Nat :=
  if e.sequenceNumber &&& 0x40 ≠ 0 then lfnPart e else lfnPart e ++ long

/-- The live files of a list of entries, behind entries that spell `long`. -/
def liveFiles : List Nat → List FatFileEntry → List DirFile
  | _, [] => []
  | long, e :: es =>
    if entryByte e 0 = deletedMark then liveFiles [] es
    else if e.attributes = tfAttrLongName then liveFiles (addPart e long) es
    else if e.attributes &&& tfAttrVolumeLabel ≠ 0 then liveFiles [] es
    else ⟨e, long⟩ :: liveFiles [] es

namespace DirFile

/-- The eleven characters of the short name, whatever their case. -/
def shortName (f : DirFile) : List UInt8 := (f.entry.take 11).map toLowCase

/-- The long name, whatever the case of its letters. -/
def longName (f : DirFile) : List Nat := f.long.map fun c => if 0x41 ≤ c ∧ c ≤ 0x5a then c + 32 else c

/-- The files have the same name. -/
def Clash (f g : DirFile) : Prop :=
  f.shortName = g.shortName ∨ f.longName ≠ [] ∧ f.longName = g.longName

instance (f g : DirFile) : Decidable (f.Clash g) := inferInstanceAs (Decidable (_ ∨ _))

end DirFile

/-- No two of the files have the same name. -/
def DistinctNames (files : List DirFile) : Prop := files.Pairwise fun f g => ¬ f.Clash g

instance (files : List DirFile) : Decidable (DistinctNames files) :=
  inferInstanceAs (Decidable (List.Pairwise _ _))

theorem liveFiles_prefix {es es' : List FatFileEntry} (h : es <+: es') (long : List Nat) :
    liveFiles long es <+: liveFiles long es' := by
  induction es generalizing long es' with
  | nil => exact List.nil_prefix
  | cons e es ih =>
    obtain ⟨rest, rfl⟩ := h
    have hrest : es <+: es ++ rest := List.prefix_append es rest
    rw [List.cons_append, liveFiles, liveFiles]
    split
    · exact ih hrest []
    · split
      · exact ih hrest (addPart e long)
      · split
        · exact ih hrest []
        · exact List.cons_prefix_cons.mpr ⟨rfl, ih hrest []⟩

/-! ## Directories -/

/-- The cluster is one of the data area. -/
def DataCluster (shape : TFShape) (c : Nat) : Prop := 2 ≤ c ∧ c < totalClusters shape

instance (shape : TFShape) (c : Nat) : Decidable (DataCluster shape c) :=
  inferInstanceAs (Decidable (_ ∧ _))

namespace View
variable (V : View)

/-- The first clusters of the chain from `c`, as many as `n`. -/
def chain : Nat → Nat → List Nat
  | 0, _ => []
  | n + 1, c => if DataCluster V.shape c then c :: chain n (V.entry c) else []

/-- The entries in a cluster. -/
def clusterEntries (c : Nat) : List FatFileEntry :=
  (List.range (clusterBytes V.shape / 32)).map fun i =>
    load V.volume (tfFirstSector V.shape c * 512 + 32 * i) 32

/-- The entries of the directory that begins at the cluster `d`. -/
def dirEntries (d : Nat) : List FatFileEntry :=
  ((V.chain (totalClusters V.shape) d).flatMap V.clusterEntries).takeWhile
    fun e => entryByte e 0 ≠ 0

def files (d : Nat) : List DirFile := liveFiles [] (V.dirEntries d)

/-- A directory begins at the cluster: the root directory, or one that is listed in another. -/
inductive Directory : Nat → Prop where
  | root : Directory 2
  | sub {d : Nat} {f : DirFile} (h : Directory d) (hf : f ∈ V.files d)
      (hdir : f.entry.attributes &&& tfAttrDirectory ≠ 0) : Directory f.entry.startCluster

/-- No directory has two live files with the same name. -/
def UniqueNames : Prop := ∀ d, V.Directory d → DistinctNames (V.files d)

variable {V}

/-- The only directory of the volume is the root directory. -/
theorem Directory.eq_root {d : Nat} (h : V.Directory d)
    (hfiles : ∀ f ∈ V.files 2, f.entry.attributes &&& tfAttrDirectory = 0) : d = 2 := by
  induction h with
  | root => rfl
  | sub _ hf hdir ih =>
    rw [ih] at hf
    exact absurd (hfiles _ hf) hdir

theorem uniqueNames_of_root (hfiles : ∀ f ∈ V.files 2, f.entry.attributes &&& tfAttrDirectory = 0)
    (hroot : DistinctNames (V.files 2)) : V.UniqueNames := by
  intro d hd
  rw [hd.eq_root hfiles]
  exact hroot

end View

/-! ## Shorter chains -/

/-- From `V` to `W` chains get shorter, and the data area stays as it is. -/
structure Cut (V W : View) : Prop where
  shape : W.shape = V.shape
  data : ∀ c, DataCluster V.shape c → ∀ i < clusterBytes V.shape,
    W.volume (tfFirstSector V.shape c * 512 + i) = V.volume (tfFirstSector V.shape c * 512 + i)
  entry : ∀ c, DataCluster V.shape c →
    W.entry c = V.entry c ∨ ¬ DataCluster V.shape (W.entry c)

section
variable {V W X : View}

theorem Cut.refl (V : View) : Cut V V := ⟨rfl, fun _ _ _ _ => rfl, fun _ _ => Or.inl rfl⟩

theorem Cut.of_volume (hshape : W.shape = V.shape) (hvolume : W.volume = V.volume) : Cut V W := by
  refine ⟨hshape, fun _ _ _ _ => by rw [hvolume], fun c _ => Or.inl ?_⟩
  rw [View.entry, View.entry, hshape, hvolume]

theorem Cut.trans (h : Cut V W) (h' : Cut W X) : Cut V X where
  shape := h'.shape.trans h.shape
  data c hc i hi := by
    have hlast := h'.data c (by rwa [h.shape]) i (by rwa [h.shape])
    rw [h.shape] at hlast
    exact hlast.trans (h.data c hc i hi)
  entry c hc := by
    have hlast := h'.entry c (by rwa [h.shape])
    rw [h.shape] at hlast
    rcases hlast with heq | hend
    · rw [heq]
      exact h.entry c hc
    · exact Or.inr hend

section
variable (h : Cut V W)
include h

theorem Cut.chain (n c : Nat) : W.chain n c <+: V.chain n c := by
  induction n generalizing c with
  | zero => exact List.nil_prefix
  | succ n ih =>
    rw [View.chain, View.chain, h.shape]
    by_cases hc : DataCluster V.shape c
    · rw [if_pos hc, if_pos hc, List.cons_prefix_cons]
      refine ⟨rfl, ?_⟩
      rcases h.entry c hc with heq | hend
      · rw [heq]
        exact ih _
      · cases n with
        | zero => exact List.nil_prefix
        | succ n =>
          rw [View.chain, h.shape, if_neg hend]
          exact List.nil_prefix
    · rw [if_neg hc]
      exact List.nil_prefix

theorem Cut.clusterEntries {c : Nat} (hc : DataCluster V.shape c) :
    W.clusterEntries c = V.clusterEntries c := by
  rw [View.clusterEntries, View.clusterEntries, h.shape]
  apply List.map_congr_left
  intro i hi
  have hi' := List.mem_range.mp hi
  rw [ByteMem.load, ByteMem.load]
  apply List.map_congr_left
  intro j hj
  have hj' := List.mem_range.mp hj
  rw [Nat.add_assoc]
  exact h.data c hc (32 * i + j) (by omega)

end

theorem View.mem_chain {n c d : Nat} (h : d ∈ V.chain n c) : DataCluster V.shape d := by
  induction n generalizing c with
  | zero => cases h
  | succ n ih =>
    rw [View.chain] at h
    split at h
    · rename_i hc
      rcases List.mem_cons.mp h with rfl | hrest
      · exact hc
      · exact ih hrest
    · cases h

theorem takeWhile_prefix_of_prefix {α : Type} {p : α → Bool} {l l' : List α} (h : l <+: l') :
    l.takeWhile p <+: l'.takeWhile p := by
  obtain ⟨rest, rfl⟩ := h
  rw [List.takeWhile_append]
  split
  · rename_i hall
    have hself : l.takeWhile p = l := (List.takeWhile_prefix p).eq_of_length hall
    rw [hself]
    exact List.prefix_append _ _
  · exact List.prefix_rfl

theorem Cut.files (h : Cut V W) (d : Nat) : W.files d <+: V.files d := by
  have hchain := h.chain (totalClusters V.shape) d
  have hentries : (W.chain (totalClusters V.shape) d).flatMap W.clusterEntries =
      (W.chain (totalClusters V.shape) d).flatMap V.clusterEntries := by
    apply List.flatMap_congr
    intro c hc
    have hdata := View.mem_chain hc
    rw [h.shape] at hdata
    exact h.clusterEntries hdata
  have hdir : W.dirEntries d <+: V.dirEntries d := by
    rw [View.dirEntries, View.dirEntries, h.shape, hentries]
    exact takeWhile_prefix_of_prefix (hchain.flatMap _)
  exact liveFiles_prefix hdir []

theorem Cut.directory (h : Cut V W) {d : Nat} (hd : W.Directory d) : V.Directory d := by
  induction hd with
  | root => exact .root
  | sub _ hf hdir ih => exact .sub ih ((h.files _).subset hf) hdir

/-- What is not listed any more cannot clash. -/
theorem Cut.uniqueNames (h : Cut V W) (hunique : V.UniqueNames) : W.UniqueNames := fun d hd =>
  (hunique d (h.directory hd)).sublist (h.files d).sublist

end

/-! ## Setting an entry of the FAT -/

/-- The FAT lies in front of the data area, and sectors and clusters have their numbers. -/
structure Layout (shape : TFShape) : Prop where
  fat : shape.reservedSectors * 512 + 4 * totalClusters shape ≤ shape.firstDataSector * 512
  sectors : shape.firstDataSector + shape.totalSectors < 2 ^ 32
  clusters : totalClusters shape ≤ tfMarkEoc32

section
variable {shape : TFShape} (hlayout : Layout shape)
include hlayout

theorem Layout.fatAddr_lt {c : Nat} (hc : c < totalClusters shape) :
    fatAddr shape c + 4 ≤ shape.firstDataSector * 512 := by
  obtain ⟨hfat, hsectors, hclusters⟩ := hlayout
  unfold tfMarkEoc32 at hclusters
  have hoffset : u32 (c * 4) = c * 4 := Nat.mod_eq_of_lt (by omega)
  have hsector : u32 (shape.reservedSectors + c * 4 / 512) = shape.reservedSectors + c * 4 / 512 :=
    Nat.mod_eq_of_lt (by omega)
  have hsplit := Nat.div_add_mod (c * 4) 512
  rw [fatAddr, hoffset, hsector]
  linarith

theorem Layout.firstSector {c : Nat} (hc : DataCluster shape c) :
    shape.firstDataSector ≤ tfFirstSector shape c := by
  obtain ⟨hfat, hsectors, hclusters⟩ := hlayout
  obtain ⟨hlow, hhigh⟩ := hc
  unfold tfMarkEoc32 at hclusters
  have hindex : u32 (c + (2 ^ 32 - 2)) = c - 2 := by
    rw [u32]
    omega
  have hbelow : (c - 2) * shape.sectorsPerCluster ≤ shape.totalSectors := by
    have hle : (c - 2) * shape.sectorsPerCluster ≤
        totalClusters shape * shape.sectorsPerCluster := Nat.mul_le_mul_right _ (by omega)
    exact hle.trans (Nat.div_mul_le_self _ _)
  rw [tfFirstSector, hindex, u32, Nat.mod_eq_of_lt (by omega)]
  omega

/-- An entry of the FAT that is set to something else than a cluster. -/
theorem cut_setEntry {V W : View} {c value : Nat} (hV : V.shape = shape) (hW : W.shape = shape)
    (hvolume : W.volume = setEntry shape V.volume c value) (hc : c < totalClusters shape)
    (hvalue : ¬ DataCluster shape (value % 2 ^ 32)) : Cut V W := by
  subst hV
  refine ⟨hW, fun d hd i _ => ?_, fun d hd => ?_⟩
  · have hfat := hlayout.fatAddr_lt hc
    have hdata := hlayout.firstSector hd
    have hsector := Nat.mul_le_mul_right 512 hdata
    rw [hvolume, setEntry, writeLE, if_neg (by omega)]
  · rw [View.entry, View.entry, hW, hvolume]
    by_cases heq : fatAddr V.shape d = fatAddr V.shape c
    · right
      rw [fatEntry_setEntry_same _ _ heq]
      exact hvalue
    · left
      exact fatEntry_setEntry_other _ _ heq

end

end PageFaultOS
