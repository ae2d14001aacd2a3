import Mathlib.Tactic
import PageFaultOS.Lib.Sim
import PageFaultOS.Fs.Path
import PageFaultOS.Fs.Growth

/-! Files on a volume that nobody writes. A `View` is such a volume, and the code that reads
is a computation on one file, which stops where it comes to the end of a chain. The code of
`fs/fat32.cpp` does what the computation does, as long as that does not stop. -/

namespace PageFaultOS
open Exec Exec.Comp ByteMem

/-- A volume, and what is in a `FatFileEntry` before it is read. -/
structure View where
  shape : TFShape
  volume : Mem
  stale : List UInt8

namespace View

/-- Here a cluster would have to be added to the chain. -/
def chainEnd : Fault := .undefined "chain end"

variable (V : View)

/-! ## Seeking -/

def entry (cluster : Nat) : Nat := fatEntry V.shape V.volume cluster

def nextCluster : Comp TFFile Unit := do
  let f ← read
  if V.entry f.currentCluster &&& 0x0fffffff ≠ tfMarkEoc32 then
    modify fun f' => { f' with currentCluster := V.entry f.currentCluster }
  else
    fault chainEnd

def seekRound (clusterIdx : Nat) : Comp TFFile (Nat ⊕ Int) := do
  if ¬ 0 < clusterIdx then
    pure (.inr 0)
  else do
    V.nextCluster
    let f ← read
    if tfMarkEoc32 ≤ f.currentCluster ∧ 0 < clusterIdx - 1 then
      pure (.inr tfErrInvalidSeek)
    else
      pure (.inl (clusterIdx - 1))

def seekCluster (clusterIdx : Nat) : Comp TFFile Int := do
  let f ← read
  if clusterIdx = f.currentClusterIdx then
    pure 0
  else if f.currentClusterIdx < clusterIdx then do
    modify fun f => { f with currentClusterIdx := clusterIdx }
    loop V.seekRound fileRounds (clusterIdx - f.currentClusterIdx)
  else do
    modify fun f => { f with currentCluster := f.startCluster, currentClusterIdx := clusterIdx }
    loop V.seekRound fileRounds clusterIdx

def growAtEnd (pos : Int) : Comp TFFile Unit := do
  let f ← read
  if pos = f.size then
    modify fun f => { f with size := u32 (f.size + 1), flags := f.flags ||| tfFlagSizechanged }
  else
    pure ()

def tfUnsafeFseek (base offset : Int) : Comp TFFile Int := do
  let pos := toLong (base + offset)
  let f ← read
  if (f.size : Int) < pos then
    pure tfErrInvalidSeek
  else do
    growAtEnd pos
    let r ← V.seekCluster (u32OfInt (pos.tdiv (clusterBytes V.shape)))
    if r ≠ 0 then
      pure r
    else do
      modify fun f => { f with
        currentByte := toShort (pos.tmod (clusterBytes V.shape)), pos := u32OfInt pos }
      pure 0

def tfFseek (base offset : Int) : Comp TFFile Int := do
  let f ← read
  if (f.size : Int) ≤ toLong (base + offset) then
    pure tfErrInvalidSeek
  else
    V.tfUnsafeFseek (toInt base) offset

/-! ## Reading -/

/-- The bytes that one round reads. -/
def chunkBytes (f : TFFile) (size : Nat) : List UInt8 :=
  load (readSector V.volume (fileSector V.shape f)) (f.currentByte % 512).toNat (chunk f size)

def freadRound : Nat × List UInt8 → Comp TFFile ((Nat × List UInt8) ⊕ List UInt8) :=
    fun (size, dest) => do
  if ¬ 0 < size then
    pure (.inr dest)
  else do
    let f ← read
    if f.currentByte < 0 then
      fault (.undefined "tf_info.buffer")
    else do
      let r ← V.tfFseek 0 (f.pos + chunk f size : Nat)
      if r ≠ 0 then
        pure (.inr (dest ++ V.chunkBytes f size))
      else
        pure (.inl (size - chunk f size, dest ++ V.chunkBytes f size))

def tfFread (size : Nat) : Comp TFFile (List UInt8) := loop V.freadRound fileRounds (size, [])

def freadEntry (entry : FatFileEntry) : Comp TFFile FatFileEntry := do
  let bytes ← V.tfFread 32
  pure (bytes ++ (entry.take 32).drop bytes.length)

def seekBy (base : Int) : Comp TFFile Int := do
  let f ← read
  V.tfFseek base f.pos

end View

/-! ## The volume of the code -/

/-- What no reading changes. -/
def TFFile.anon (f : TFFile) : TFFile := { f with filename := [] }

def Fat32.view (s : Fat32) : View := ⟨s.info.shape, s.volume, s.stale⟩

namespace View

/-- Clusters are numbered with 28 bits, and cluster `0` is not free. -/
structure Sound (V : View) : Prop where
  total : totalClusters V.shape < tfMarkEoc32
  zero : ¬ FreeCluster V.shape V.volume 0

/-- Behind a stop at the file `c`: its cluster was the end of a chain, and is not any more. -/
structure Stopped (V : View) (c : TFFile) (s : Fat32) : Prop where
  coherent : s.Coherent
  shape : s.info.shape = V.shape
  stale : s.stale = V.stale
  last : LastOfChain V.shape V.volume c.currentCluster
  linked : V.Sound → c.currentCluster < totalClusters V.shape →
    Linked V.shape s.volume c.currentCluster

/-- From `s` to `t` no link of a chain is lost. -/
def Links (V : View) (s t : Fat32) : Prop :=
  totalClusters V.shape < tfMarkEoc32 → ∀ c < totalClusters V.shape,
    Linked V.shape s.volume c → fatEntry V.shape t.volume c = fatEntry V.shape s.volume c

theorem linked_congr {shape : TFShape} {v w : Mem} {c : Nat}
    (h : fatEntry shape w c = fatEntry shape v c) : Linked shape w c ↔ Linked shape v c := by
  rw [Linked, FreeCluster, LastOfChain, h]
  rfl

/-- The file `fp` of the code, as it is on the view. -/
def setting (V : View) (fp : Nat) : Setting Fat32 TFFile where
  R s c := s.Coherent ∧ s.view = V ∧ (s.handles fp).anon = c
  Good s := s.Coherent ∧ s.info.shape = V.shape ∧ s.stale = V.stale
  G := V.Links
  stop := chainEnd
  Stopped := V.Stopped
  good h := ⟨h.1, congrArg View.shape h.2.1, congrArg View.stale h.2.1⟩
  refl _ _ _ _ _ := rfl
  trans h h' htotal c hc hlinked := by
    have h1 := h htotal c hc hlinked
    rw [h' htotal c hc ((linked_congr h1).mpr hlinked), h1]
  stopped_good h := ⟨h.coherent, h.shape, h.stale⟩
  stopped_mono h hgood hlinks := by
    refine ⟨hgood.1, hgood.2.1, hgood.2.2, h.last, fun hsound hc => ?_⟩
    have hlinked := h.linked hsound hc
    exact (linked_congr (hlinks hsound.total _ hc hlinked)).mpr hlinked

end View

variable {V : View} {fp : Nat} {α β : Type}

/-- Reading code on the file `fp`. -/
abbrev View.Sees (V : View) (fp : Nat) (x : FsComp α) (y : Comp TFFile α) : Prop :=
  (V.setting fp).Sim x y

theorem sees_getFile {k : TFFile → FsComp β} {l : TFFile → Comp TFFile β}
    (h : ∀ f, V.Sees fp (k f) (l f.anon)) : V.Sees fp (getFile fp >>= k) (read >>= l) where
  run s c hs := by
    rw [bind_ok (getFile_run s fp), read_bind, ← hs.2.2]
    exact (h _).run s _ ⟨hs.1, hs.2.1, rfl⟩
  keeps s b t hs hrun := by
    rw [bind_ok (getFile_run s fp)] at hrun
    exact (h _).keeps s b t hs hrun

/-- A change of the file that has nothing to do with its name. -/
theorem sees_modifyFile {g : TFFile → TFFile} (h : ∀ f, (g f).anon = g f.anon) :
    V.Sees fp (modifyFile fp g) (modify g) where
  run s c hs := by
    rw [modifyFile_run]
    refine ⟨rfl, hs.1, hs.2.1, ?_⟩
    rw [s.setFile_self, h, hs.2.2]
  keeps s b t hs hrun := by
    cases hrun
    exact ⟨hs, fun _ _ _ _ => rfl⟩

/-- Fetching sectors changes nothing. -/
theorem sees_of_same {x : FsComp α} {g : TFFile → α}
    (h : ∀ s, s.Coherent → ∃ a t, x s = .ok a t ∧ Same s t ∧ t.handles = s.handles ∧
      (s.view = V → a = g (s.handles fp).anon)) :
    V.Sees fp x (read >>= fun f => pure (g f)) where
  run s c hs := by
    obtain ⟨a, t, hrun, hsame, hhandles, ha⟩ := h s hs.1
    have hview : t.view = s.view := by
      rw [Fat32.view, Fat32.view, hsame.shape, hsame.volume, hsame.stale]
    rw [hrun, read_bind]
    refine ⟨?_, hsame.coherent, hview.trans hs.2.1, ?_⟩
    · rw [ha hs.2.1, hs.2.2]
    · rw [hhandles, hs.2.2]
  keeps s b t hs hrun := by
    obtain ⟨a, u, hrun', hsame, _, _⟩ := h s hs.1
    rw [hrun'] at hrun
    cases hrun
    refine ⟨⟨hsame.coherent, hsame.shape.trans hs.2.1, hsame.stale.trans hs.2.2⟩, ?_⟩
    intro _ c _ _
    rw [hsame.volume]

theorem sees_tfFetch (sector : Nat) : V.Sees fp (tfFetch sector) (pure ()) :=
  sees_of_same (g := fun _ => ()) fun s hs => by
    obtain ⟨t, hrun, hsame, hhandles, _⟩ := tfFetch_run hs sector
    exact ⟨(), t, hrun, hsame, hhandles, fun _ => rfl⟩

/-! ## Seeking -/

theorem nextCluster_inside {s : Fat32} (hco : s.Coherent)
    (h : ¬ LastOfChain s.info.shape s.volume (s.handles fp).currentCluster) :
    ∃ t, nextCluster fp s = .ok () t ∧ Moved s t fp { s.handles fp with
      currentCluster := fatEntry s.info.shape s.volume (s.handles fp).currentCluster } := by
  obtain ⟨t, hrun, hsame, hhandles⟩ := tfGetFatEntry_run hco (s.handles fp).currentCluster
  have hmoved := Moved.of_same fp hsame hhandles
  refine ⟨_, ?_, hmoved.trans (Moved.setFile fp _ hsame.coherent)⟩
  have hlink : fatEntry s.info.shape s.volume (s.handles fp).currentCluster &&& 0x0fffffff ≠
      tfMarkEoc32 := h
  unfold nextCluster
  rw [bind_ok (getFile_run s fp), bind_ok hrun, if_pos hlink, modifyFile_run, hmoved.file]

theorem view_of_same {s t : Fat32} (h : Same s t) : t.view = s.view := by
  rw [Fat32.view, Fat32.view, h.shape, h.volume, h.stale]

theorem sees_nextCluster : V.Sees fp (nextCluster fp) V.nextCluster where
  run s c hs := by
    obtain ⟨hco, rfl, rfl⟩ := hs
    unfold View.nextCluster
    rw [read_bind]
    by_cases hlast : LastOfChain s.info.shape s.volume (s.handles fp).currentCluster
    · have hstop : ¬ s.view.entry (s.handles fp).anon.currentCluster &&& 0x0fffffff ≠
          tfMarkEoc32 := not_not_intro hlast
      rw [if_neg hstop]
      cases hrun : nextCluster fp s with
      | fault e t => exact Or.inl ⟨_, rfl⟩
      | ok a t =>
        obtain ⟨hco', hshape, hstale, ⟨hnot, _⟩ | ⟨j, hgrown⟩⟩ := nextCluster_cases hco hrun
        · exact absurd hlast hnot
        · exact ⟨rfl, hco', hshape, hstale, hlast, fun hsound hc =>
            hgrown.last_linked hsound.total hsound.zero hc⟩
    · have hgo : s.view.entry (s.handles fp).anon.currentCluster &&& 0x0fffffff ≠
          tfMarkEoc32 := hlast
      rw [if_pos hgo]
      obtain ⟨t, hrun, hmoved⟩ := nextCluster_inside hco hlast
      rw [hrun]
      refine ⟨rfl, hmoved.coherent, view_of_same hmoved.same, ?_⟩
      rw [hmoved.file]
      rfl
  keeps s a t hs hrun := by
    obtain ⟨hco, hshape, hstale, hcases⟩ := nextCluster_cases hs.1 hrun
    refine ⟨⟨hco, hshape.trans hs.2.1, hstale.trans hs.2.2⟩, fun htotal c hc hlinked => ?_⟩
    rcases hcases with ⟨_, hvolume⟩ | ⟨j, hgrown⟩
    · rw [hvolume]
    · rw [hs.2.1] at hgrown
      exact hgrown.linked htotal hc hlinked

theorem sees_seekRound (n : Nat) : V.Sees fp (seekRound fp n) (V.seekRound n) :=
  Setting.sim_ite (Setting.sim_pure _) (Setting.sim_bind sees_nextCluster fun _ =>
    sees_getFile fun _ => Setting.sim_ite (Setting.sim_pure _) (Setting.sim_pure _))

theorem sees_seekCluster (n : Nat) : V.Sees fp (seekCluster fp n) (V.seekCluster n) := by
  have hloop : ∀ k, V.Sees fp (loop (seekRound fp) fileRounds k)
      (loop V.seekRound fileRounds k) := Setting.sim_loop sees_seekRound fileRounds
  exact sees_getFile fun _ => Setting.sim_ite (Setting.sim_pure _) (Setting.sim_ite
    (Setting.sim_bind (sees_modifyFile fun _ => rfl) fun _ => hloop _)
    (Setting.sim_bind (sees_modifyFile fun _ => rfl) fun _ => hloop _))

theorem sees_growAtEnd (pos : Int) : V.Sees fp (growAtEnd fp pos) (View.growAtEnd pos) :=
  sees_getFile fun _ => Setting.sim_ite (sees_modifyFile fun _ => rfl) (Setting.sim_pure _)

theorem sees_tfUnsafeFseek (base offset : Int) :
    V.Sees fp (tfUnsafeFseek fp base offset) (V.tfUnsafeFseek base offset) := by
  refine sees_getFile fun f => Setting.sim_ite (Setting.sim_pure _)
    (Setting.sim_bind (sees_growAtEnd _) fun _ => Setting.sim_read fun s hs => ?_)
  rw [hs.2.1]
  exact Setting.sim_bind (sees_seekCluster _) fun r => Setting.sim_ite (Setting.sim_pure _)
    (Setting.sim_bind (sees_modifyFile fun _ => rfl) fun _ => Setting.sim_pure _)

theorem sees_tfFseek (base offset : Int) :
    V.Sees fp (tfFseek fp base offset) (V.tfFseek base offset) :=
  sees_getFile fun _ => Setting.sim_ite (Setting.sim_pure _) (sees_tfUnsafeFseek _ _)

theorem sees_seekBy (base : Int) : V.Sees fp (seekBy fp base) (V.seekBy base) :=
  sees_getFile fun _ => sees_tfFseek _ _

/-! ## Reading -/

/-- Bytes of a sector. -/
theorem sees_load {sector off n : Nat} {k : List UInt8 → FsComp β} {l : List UInt8 → Comp TFFile β}
    (hoff : off + n ≤ 512) (hk : ∀ bytes, V.Sees fp (k bytes) (l bytes)) :
    V.Sees fp (tfFetch sector >>= fun _ => read >>= fun s => k (load s.info.buffer off n))
      (l (load (readSector V.volume sector) off n)) where
  run s c hs := by
    obtain ⟨t, hrun, hsame, hhandles, hbuffer⟩ := tfFetch_run hs.1 sector
    have hload : load t.info.buffer off n = load (readSector V.volume sector) off n := by
      rw [ByteMem.load, ByteMem.load]
      apply List.map_congr_left
      intro i hi
      have hi' := List.mem_range.mp hi
      rw [hbuffer _ (by omega), ← hs.2.1]
      rfl
    rw [bind_ok hrun, read_bind, hload]
    refine (hk _).run t c ⟨hsame.coherent, (view_of_same hsame).trans hs.2.1, ?_⟩
    rw [hhandles, hs.2.2]
  keeps s b t hs hrun := by
    obtain ⟨_, u, hfetch, hrest⟩ := bind_eq_ok.mp hrun
    have hseen : V.Sees fp (tfFetch sector) (pure ()) := sees_tfFetch sector
    obtain ⟨hgood, hlinks⟩ := hseen.keeps s () u hs hfetch
    rw [read_bind] at hrest
    obtain ⟨hgood', hlinks'⟩ := (hk _).keeps u b t hgood hrest
    exact ⟨hgood', (V.setting fp).trans hlinks hlinks'⟩

/-- A round stays within its sector. -/
theorem chunk_le {f : TFFile} (h : ¬ f.currentByte < 0) (size : Nat) :
    (f.currentByte % 512).toNat + chunk f size ≤ 512 := by
  have hmod : f.currentByte.tmod 512 = f.currentByte % 512 :=
    Int.tmod_eq_emod_of_nonneg (by omega)
  rw [chunk, hmod]
  omega

theorem sees_freadRound (p : Nat × List UInt8) :
    V.Sees fp (freadRound fp p) (V.freadRound p) := by
  obtain ⟨size, dest⟩ := p
  refine Setting.sim_ite (Setting.sim_pure _) (sees_getFile fun f => Setting.sim_read fun s hs => ?_)
  by_cases hbyte : f.currentByte < 0
  · have hbyte' : f.anon.currentByte < 0 := hbyte
    simp only [if_pos hbyte, if_pos hbyte']
    exact Setting.sim_bind (sees_tfFetch _) fun _ => Setting.sim_fault _ (fault _)
  · have hbyte' : ¬ f.anon.currentByte < 0 := hbyte
    simp only [if_neg hbyte, if_neg hbyte', hs.2.1]
    have hround : ∀ bytes, V.Sees fp
        (tfFseek fp 0 (f.pos + chunk f size : Nat) >>= fun r =>
          if r ≠ 0 then pure (.inr (dest ++ bytes))
          else pure (.inl (size - chunk f size, dest ++ bytes)) :
            FsComp ((Nat × List UInt8) ⊕ List UInt8))
        (V.tfFseek 0 (f.pos + chunk f size : Nat) >>= fun r =>
          if r ≠ 0 then pure (.inr (dest ++ bytes))
          else pure (.inl (size - chunk f size, dest ++ bytes))) := fun bytes =>
      Setting.sim_bind (sees_tfFseek _ _) fun r =>
        Setting.sim_ite (Setting.sim_pure _) (Setting.sim_pure _)
    exact sees_load (chunk_le hbyte size) hround

theorem sees_tfFread (size : Nat) : V.Sees fp (tfFread size fp) (V.tfFread size) :=
  Setting.sim_loop sees_freadRound fileRounds _

theorem sees_freadEntry (entry : FatFileEntry) :
    V.Sees fp (freadEntry entry fp) (V.freadEntry entry) :=
  Setting.sim_bind (sees_tfFread 32) fun _ => Setting.sim_pure _

end PageFaultOS
