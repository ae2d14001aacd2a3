import Mathlib.Tactic
import PageFaultOS.Fs.Seek

/-! Where a file is depends on the last seek alone, and reads go on where the last one has ended.
Both are told for whole sequences of calls: of `tf_fseek`, and of `tf_fread`. -/

namespace PageFaultOS
open Exec Exec.Comp ByteMem

/-- A handle at one of the clusters of its chain. -/
structure HandleOn (s : Fat32) (fp : Nat) (cs : List Nat) : Prop where
  valid : s.info.shape.Valid
  coherent : s.Coherent
  chain : FatChain s.info.shape s.volume cs
  cluster : AtCluster cs (s.handles fp)
  size : (s.handles fp).size < 2 ^ 32

/-- The arguments `base` and `offset` of `tf_fseek` are for position `p`, also where `base` is cut
to an `int`, and `p` is before the end of the file `f` and of its chain. -/
structure SeeksTo (shape : TFShape) (cs : List Nat) (f : TFFile) (a : Int × Int) (p : Nat) :
    Prop where
  target : toLong (a.1 + a.2) = p
  narrowed : toLong (toInt a.1 + a.2) = p
  inside : p < f.size
  room : p < chainBytes shape cs

/-- Calls of `tf_fseek`, and what they return. -/
def tfFseeks (fp : Nat) : List (Int × Int) → FsComp (List Int)
  | [] => pure []
  | a :: as => do
    let r ← tfFseek fp a.1 a.2
    let rs ← tfFseeks fp as
    pure (r :: rs)

/-- Calls of `tf_fread`, and what they read. -/
def tfFreads (fp : Nat) : List Nat → FsComp (List (List UInt8))
  | [] => pure []
  | n :: ns => do
    let bytes ← tfFread n fp
    let rest ← tfFreads fp ns
    pure (bytes :: rest)

/-- The file as it is when it has just been opened. -/
def TFFile.fresh (f : TFFile) : TFFile :=
  { f with currentClusterIdx := 0, currentCluster := f.startCluster, currentByte := 0, pos := 0 }

variable {s t : Fat32} {fp : Nat} {cs : List Nat} {shape : TFShape} {f : TFFile}

theorem HandleOn.moved (h : HandleOn s fp cs) {p : Nat}
    (hm : Moved s t fp (moveTo s.info.shape cs p (s.handles fp))) : HandleOn t fp cs := by
  have hshape := hm.same.shape
  refine ⟨?_, hm.coherent, h.chain.same hm.same, ?_, ?_⟩
  · rw [hshape]
    exact h.valid
  · rw [hm.file]
    exact (h.cluster.moveTo s.info.shape p).atCluster
  · rw [hm.file]
    exact h.size

theorem HandleOn.fresh (h : HandleOn s fp cs) :
    HandleOn (s.setFile fp (s.handles fp).fresh) fp cs := by
  refine ⟨h.valid, h.coherent, h.chain, ?_, ?_⟩
  · rw [s.setFile_self]
    exact ⟨h.cluster.start, h.cluster.start⟩
  · rw [s.setFile_self]
    exact h.size

/-! ## Seeking -/

/-- Where `base` is an `int` there is nothing to narrow. -/
theorem seeksTo_of_int {base offset : Int} {p : Nat} (hbase : -2 ^ 31 ≤ base ∧ base < 2 ^ 31)
    (hp : base + offset = p) (hinside : p < f.size) (hsize : f.size < 2 ^ 32)
    (hroom : p < chainBytes shape cs) : SeeksTo shape cs f (base, offset) p := by
  have hlong : toLong (base + offset) = p := by
    rw [hp, toLong_natCast (by omega)]
  refine ⟨hlong, ?_, hinside, hroom⟩
  rw [toInt_small hbase.1 hbase.2, hlong]

theorem SeeksTo.moved {a : Int × Int} {p : Nat} (h : SeeksTo shape cs f a p) (q : Nat) :
    SeeksTo shape cs (moveTo shape cs q f) a p :=
  ⟨h.target, h.narrowed, h.inside, h.room⟩

theorem HandleOn.seek (h : HandleOn s fp cs) {a : Int × Int} {p : Nat}
    (ha : SeeksTo s.info.shape cs (s.handles fp) a p) :
    ∃ t, tfFseek fp a.1 a.2 s = .ok 0 t ∧
      Moved s t fp (moveTo s.info.shape cs p (s.handles fp)) :=
  tfFseek_goes h.valid h.coherent h.chain h.cluster ha.target ha.narrowed ha.inside h.size ha.room

/-- Each seek forgets the one before. -/
theorem moveTo_foldl (shape : TFShape) (cs ps : List Nat) (q : Nat) (f : TFFile) :
    moveTo shape cs q (ps.foldl (fun f p => moveTo shape cs p f) f) = moveTo shape cs q f := by
  induction ps generalizing f with
  | nil => rfl
  | cons p ps ih => exact ih (moveTo shape cs p f)

/-- A sequence of seeks. -/
theorem HandleOn.seeks (h : HandleOn s fp cs) {as : List (Int × Int)} {ps : List Nat}
    (has : List.Forall₂ (SeeksTo s.info.shape cs (s.handles fp)) as ps) :
    ∃ t, tfFseeks fp as s = .ok (List.replicate as.length 0) t ∧ Moved s t fp
      (ps.foldl (fun f p => moveTo s.info.shape cs p f) (s.handles fp)) := by
  induction as generalizing s ps with
  | nil =>
    cases has
    exact ⟨s, rfl, Moved.refl fp h.coherent⟩
  | cons a as ih =>
    obtain ⟨p, ps, ha, hrest, rfl⟩ := List.forall₂_cons_left_iff.mp has
    obtain ⟨t, hseek, hmoved⟩ := h.seek ha
    have has' : List.Forall₂ (SeeksTo t.info.shape cs (t.handles fp)) as ps := by
      rw [hmoved.file, hmoved.same.shape]
      exact hrest.imp fun _ _ hseeks => hseeks.moved p
    obtain ⟨u, hrun, hmoved'⟩ := ih (h.moved hmoved) has'
    rw [hmoved.file, hmoved.same.shape] at hmoved'
    refine ⟨u, ?_, hmoved.trans hmoved'⟩
    rw [tfFseeks, bind_ok hseek, bind_ok hrun]
    rfl

/-- Whatever seeks have gone before, a seek leaves the file where it leaves one that has just been
opened, and the FAT as it was. -/
theorem tfFseek_path_independent (s : Fat32) (fp : Nat) (cs : List Nat) (h : HandleOn s fp cs)
    (as : List (Int × Int)) (ps : List Nat) (a : Int × Int) (p : Nat)
    (has : List.Forall₂ (SeeksTo s.info.shape cs (s.handles fp)) as ps)
    (ha : SeeksTo s.info.shape cs (s.handles fp) a p) :
    (∃ t, tfFseeks fp (as ++ [a]) s = .ok (List.replicate (as.length + 1) 0) t ∧
      Moved s t fp (moveTo s.info.shape cs p (s.handles fp)) ∧
      ∀ c, fatEntry t.info.shape t.volume c = fatEntry s.info.shape s.volume c) ∧
    ∃ t, tfFseek fp a.1 a.2 (s.setFile fp (s.handles fp).fresh) = .ok 0 t ∧
      t.handles fp = moveTo s.info.shape cs p (s.handles fp) := by
  constructor
  · have hall := List.rel_append has (List.Forall₂.cons ha List.Forall₂.nil)
    obtain ⟨t, hrun, hmoved⟩ := h.seeks hall
    rw [List.foldl_append] at hmoved
    simp only [List.foldl_cons, List.foldl_nil] at hmoved
    rw [moveTo_foldl] at hmoved
    rw [List.length_append] at hrun
    refine ⟨t, hrun, hmoved, fun c => ?_⟩
    rw [hmoved.same.shape, hmoved.same.volume]
  · have ha' : SeeksTo (s.setFile fp (s.handles fp).fresh).info.shape cs
        ((s.setFile fp (s.handles fp).fresh).handles fp) a p := by
      rw [s.setFile_self]
      exact ⟨ha.target, ha.narrowed, ha.inside, ha.room⟩
    obtain ⟨t, hrun, hmoved⟩ := h.fresh.seek ha'
    refine ⟨t, hrun, ?_⟩
    rw [hmoved.file, s.setFile_self]
    rfl

/-! ## Reading -/

/-- A handle from whose position on the file can be read. -/
structure ReadFrom (s : Fat32) (fp : Nat) (cs : List Nat) : Prop where
  valid : s.info.shape.Valid
  coherent : s.Coherent
  chain : FatChain s.info.shape s.volume cs
  position : OnChain s.info.shape cs (s.handles fp)
  inside : (s.handles fp).pos < (s.handles fp).size
  size : (s.handles fp).size < 2 ^ 32
  room : (s.handles fp).size ≤ chainBytes s.info.shape cs

theorem ReadFrom.moved (h : ReadFrom s fp cs) {p : Nat}
    (hm : Moved s t fp (moveTo s.info.shape cs p (s.handles fp)))
    (hp : p < (s.handles fp).size) : ReadFrom t fp cs := by
  have hshape := hm.same.shape
  refine ⟨?_, hm.coherent, h.chain.same hm.same, ?_, ?_, ?_, ?_⟩
  · rw [hshape]
    exact h.valid
  · rw [hm.file, hshape]
    exact h.position.moveTo p
  · rw [hm.file]
    exact hp
  · rw [hm.file]
    exact h.size
  · rw [hm.file, hshape]
    exact h.room

theorem ReadFrom.read (h : ReadFrom s fp cs) {n : Nat} (hn : n < 2 ^ 31) :
    ∃ t q, tfFread n fp s = .ok (fileBytes s.info.shape s.volume cs (s.handles fp).pos
        (min n ((s.handles fp).size - (s.handles fp).pos))) t ∧
      Moved s t fp (moveTo s.info.shape cs q (s.handles fp)) ∧
      ((s.handles fp).pos + n < (s.handles fp).size → q = (s.handles fp).pos + n) :=
  tfFread_run (Nat.lt_trans hn (by decide)) h.valid h.coherent h.chain
    ⟨h.position, Nat.le_of_lt h.inside, h.size, Or.inr h.room⟩

/-- Reads that end before the end of the file. -/
theorem ReadFrom.reads (h : ReadFrom s fp cs) {ns : List Nat} (hns : ∀ n ∈ ns, n < 2 ^ 31)
    (hend : (s.handles fp).pos + ns.sum < (s.handles fp).size) :
    ∃ pieces t, tfFreads fp ns s = .ok pieces t ∧ pieces.map List.length = ns ∧
      pieces.flatten = fileBytes s.info.shape s.volume cs (s.handles fp).pos ns.sum ∧
      Moved s t fp (moveTo s.info.shape cs ((s.handles fp).pos + ns.sum) (s.handles fp)) := by
  induction ns generalizing s with
  | nil =>
    refine ⟨[], s, rfl, rfl, rfl, ?_⟩
    rw [List.sum_nil, Nat.add_zero, h.position.here]
    exact Moved.refl fp h.coherent
  | cons n ns ih =>
    rw [List.sum_cons] at hend
    obtain ⟨t, q, hread, hmoved, hq⟩ := h.read (hns n List.mem_cons_self)
    have hpos : q = (s.handles fp).pos + n := hq (by omega)
    subst hpos
    rw [Nat.min_eq_left (by omega)] at hread
    obtain ⟨pieces, u, hrest, hlengths, hbytes, hmoved'⟩ :=
      ih (h.moved hmoved (by omega)) (fun m hm => hns m (List.mem_cons_of_mem _ hm))
        (by rw [hmoved.file]; simp only [moveTo]; omega)
    rw [hmoved.file, hmoved.same.shape, hmoved.same.volume] at hbytes
    rw [hmoved.file, hmoved.same.shape] at hmoved'
    refine ⟨fileBytes s.info.shape s.volume cs (s.handles fp).pos n :: pieces, u, ?_, ?_, ?_, ?_⟩
    · rw [tfFreads, bind_ok hread, bind_ok hrest]
      rfl
    · rw [List.map_cons, fileBytes_length, hlengths]
    · rw [List.flatten_cons, hbytes, List.sum_cons]
      exact fileBytes_append s.info.shape s.volume cs (s.handles fp).pos n ns.sum
    · rw [List.sum_cons, ← Nat.add_assoc]
      exact hmoved.trans hmoved'

/-- A read returns the bytes of the file behind those of the reads before it, as many as are asked
for or as there are, and changes neither the FAT nor a sector. -/
theorem tfFread_consecutive (s : Fat32) (fp : Nat) (cs : List Nat) (h : ReadFrom s fp cs)
    (ns : List Nat) (n : Nat) (hns : ∀ m ∈ ns, m < 2 ^ 31) (hn : n < 2 ^ 31)
    (hend : (s.handles fp).pos + ns.sum < (s.handles fp).size) :
    ∃ pieces t, tfFreads fp ns s = .ok pieces t ∧ pieces.map List.length = ns ∧
      pieces.flatten = fileBytes s.info.shape s.volume cs (s.handles fp).pos ns.sum ∧
      ∃ u q, tfFread n fp t = .ok (fileBytes s.info.shape s.volume cs
          ((s.handles fp).pos + ns.sum)
          (min n ((s.handles fp).size - ((s.handles fp).pos + ns.sum)))) u ∧
        Moved s u fp (moveTo s.info.shape cs q (s.handles fp)) ∧
        ((s.handles fp).pos + ns.sum + n < (s.handles fp).size →
          q = (s.handles fp).pos + ns.sum + n) := by
  obtain ⟨pieces, t, hrun, hlengths, hbytes, hmoved⟩ := h.reads hns hend
  obtain ⟨u, q, hread, hmoved', hq⟩ := (h.moved hmoved hend).read hn
  rw [hmoved.file, hmoved.same.shape, hmoved.same.volume] at hread
  rw [hmoved.file, hmoved.same.shape] at hmoved'
  rw [hmoved.file] at hq
  exact ⟨pieces, t, hrun, hlengths, hbytes, u, q, hread, hmoved.trans hmoved', hq⟩

/-! ## A file of two clusters -/

/-- The chain `2`, `3` of a volume. -/
def pairVolume : Fat32 :=
  { blankVolume with
    disk := fun a => if a = 2 * 512 + 8 then 3 else 0
    handles := fun _ => ⟨2, 0, 2, 0, 0, tfFlagOpen, 0, 1000, []⟩ }

theorem pairVolume_coherent : pairVolume.Coherent := by
  have h : { blankVolume with disk := pairVolume.disk }.Coherent :=
    coherent_of_first_sector fun a ha => if_neg (by omega)
  exact h

theorem pairVolume_chain : FatChain pairVolume.info.shape pairVolume.volume [2, 3] := by
  constructor
  · intro i hi
    have hzero : i = 0 := by simpa using hi
    subst hzero
    decide
  · intro i hi
    have hzero : i = 0 := by simpa using hi
    subst hzero
    decide

theorem pairVolume_handleOn : HandleOn pairVolume 0 [2, 3] :=
  ⟨⟨by decide, by decide⟩, pairVolume_coherent, pairVolume_chain, ⟨rfl, rfl⟩, by decide⟩

theorem tfFseek_path_independent_pair :
    (∃ t, tfFseeks 0 ([(0, 600)] ++ [(-32, 100)]) pairVolume = .ok (List.replicate 2 0) t ∧
      Moved pairVolume t 0 (moveTo pairVolume.info.shape [2, 3] 68 (pairVolume.handles 0)) ∧
      ∀ c, fatEntry t.info.shape t.volume c =
        fatEntry pairVolume.info.shape pairVolume.volume c) ∧
    ∃ t, tfFseek 0 (-32) 100 (pairVolume.setFile 0 (pairVolume.handles 0).fresh) = .ok 0 t ∧
      t.handles 0 = moveTo pairVolume.info.shape [2, 3] 68 (pairVolume.handles 0) :=
  tfFseek_path_independent pairVolume 0 [2, 3] pairVolume_handleOn [(0, 600)] [600] (-32, 100) 68
    (.cons (seeksTo_of_int (by decide) rfl (by decide) (by decide) (by decide)) .nil)
    (seeksTo_of_int (by decide) rfl (by decide) (by decide) (by decide))

theorem pairVolume_readFrom : ReadFrom pairVolume 0 [2, 3] :=
  ⟨⟨by decide, by decide⟩, pairVolume_coherent, pairVolume_chain, ⟨rfl, rfl⟩, by decide, by decide,
    by decide⟩

theorem tfFread_consecutive_pair : ∃ pieces t, tfFreads 0 [100, 500] pairVolume = .ok pieces t ∧
    pieces.map List.length = [100, 500] ∧
    pieces.flatten = fileBytes pairVolume.info.shape pairVolume.volume [2, 3] 0 600 ∧
    ∃ u, tfFread 300 0 t =
        .ok (fileBytes pairVolume.info.shape pairVolume.volume [2, 3] 600 300) u ∧
      (u.handles 0).pos = 900 := by
  obtain ⟨pieces, t, hrun, hlengths, hbytes, u, q, hread, hmoved, hq⟩ :=
    tfFread_consecutive pairVolume 0 [2, 3] pairVolume_readFrom [100, 500] 300 (by decide)
      (by decide) (by decide)
  have hpos : q = 900 := hq (by decide)
  have hsum : (pairVolume.handles 0).pos + [100, 500].sum = 600 := by decide
  have hmin : min 300 ((pairVolume.handles 0).size - 600) = 300 := by decide
  rw [hsum, hmin] at hread
  refine ⟨pieces, t, hrun, hlengths, hbytes, u, hread, ?_⟩
  rw [hmoved.file, hpos]
  rfl

end PageFaultOS
