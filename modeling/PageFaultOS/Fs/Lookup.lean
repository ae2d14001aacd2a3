import Mathlib.Tactic
import PageFaultOS.Fs.View
import PageFaultOS.Fs.Ops

/-! Looking a path up, and listing a directory, on a volume that nobody writes. -/

namespace PageFaultOS
open Exec Exec.Comp ByteMem

namespace View
variable (V : View)

/-! ## Names -/

def compareLfnRound (lfnEntries : Nat) :
    Nat × CStr × FatFileEntry → Comp TFFile ((Nat × CStr × FatFileEntry) ⊕ Int) :=
    fun (i, compareName, entry) => do
  if ¬ i < lfnEntries then do
    let _ ← V.seekBy (32 * lfnEntries : Nat)
    pure (.inr 1)
  else do
    let _ ← V.seekBy (-32)
    let entry ← V.freadEntry entry
    if tfCompareFilenameSegment entry compareName = false then do
      let _ ← V.seekBy (i * 32 : Nat)
      pure (.inr 0)
    else do
      let _ ← V.seekBy (-32)
      pure (.inl (i + 1, compareName.drop 13, entry))

def tfCompareFilename (name : CStr) : Comp TFFile Int := do
  let entry ← V.freadEntry V.stale
  if entryByte entry 0 = 0 then
    pure (-1)
  else if entry.attributes ≠ tfAttrLongName then
    if tfCompareFilenameSegment entry name then do
      let _ ← V.seekBy (-32)
      pure 1
    else
      pure 0
  else if entry.sequenceNumber &&& 0xc0 = 0x40 then do
    let lfnEntries := clearFlag entry.sequenceNumber 0x40
    let _ ← V.seekBy (u32 (32 * u32 (lfnEntries + (2 ^ 32 - 1))))
    if (name.length + 12) / 13 ≠ lfnEntries then
      pure 0
    else
      loop (V.compareLfnRound lfnEntries) fileRounds (0, name, entry)
  else
    pure (-1)

def findFileRound (name : CStr) (_ : Unit) : Comp TFFile (Unit ⊕ Int) := do
  let rc ← V.tfCompareFilename name
  if rc < 0 then
    pure (.inr (-1))
  else if rc = 1 then
    pure (.inr 0)
  else
    pure (.inl ())

def tfFindFile (name : CStr) : Comp TFFile Int := do
  let _ ← V.tfFseek 0 0
  loop (V.findFileRound name) fileRounds ()

/-! ## Paths -/

def tfWalk (filename : CStr) : Comp TFFile (Option CStr) := do
  let filename := skipSlash filename
  if filename = [] then
    pure none
  else do
    let rc ← V.tfFindFile filename
    if rc ≠ 0 then do
      modify fun f => { f with flags := 0xff }
      pure none
    else do
      let entry ← V.freadEntry V.stale
      modify (enter entry)
      let rest := skipSlash (filename.dropWhile (· ≠ slash))
      pure (if rest = [] then none else some rest)

def walkRound (temp : CStr) : Comp TFFile (CStr ⊕ Bool) := do
  let temp ← V.tfWalk temp
  let f ← read
  if f.flags = 0xff then
    pure (.inr false)
  else
    match temp with
    | none => pure (.inr true)
    | some temp => pure (.inl temp)

/-- The root directory. -/
def root : TFFile := rootFile ⟨0, 0, 0, 0, 0, tfFlagOpen, 0, 0, []⟩

/-- The file at the path, and whether there is one. -/
def lookup (path : CStr) : Res TFFile Bool :=
  if isParentPath path then
    .ok false root
  else if 256 ≤ (stripDot path).length then
    .fault (.undefined "myfile") root
  else
    loop V.walkRound fileRounds (stripDot path) root

/-! ## Reading to the process, and listing -/

def freadUserRound : Nat × Nat × Nat → Comp TFFile ((Nat × Nat × Nat) ⊕ Nat) :=
    fun (dest, size, n) => do
  if ¬ 0 < size then
    pure (.inr n)
  else do
    let f ← read
    if f.currentByte < 0 then
      fault (.undefined "tf_info.buffer")
    else do
      let r ← V.tfFseek 0 (f.pos + chunk f size : Nat)
      if r ≠ 0 then
        pure (.inr (n + chunk f size))
      else
        pure (.inl (dest + chunk f size, size - chunk f size, n + chunk f size))

/-- The number of characters that `copysfn` copies. -/
def sfnLength (e : FatFileEntry) : Nat :=
  let name := (e.take 8).takeWhile (· ≠ space)
  let extension := ((e.drop 8).take 3).takeWhile (· ≠ space)
  if extension = [] then name.length else name.length + 1 + extension.length

/-- The number of characters that `copylfn` copies. -/
def lfnLength (e : FatFileEntry) : Nat :=
  (lfnChars e 1 5).length + (lfnChars e 14 6).length + (lfnChars e 28 2).length

def lsLfnRound (lfnEntries : Nat) : Nat × Nat → Comp TFFile ((Nat × Nat) ⊕ Option Nat) :=
    fun (i, n) => do
  if ¬ i < lfnEntries then
    pure (.inr (some n))
  else do
    let entry ← V.tfFread 32
    if entry.length ≠ 32 ∨ FatFileEntry.attributes entry ≠ tfAttrLongName then
      pure (.inr none)
    else
      pure (.inl (i + 1, n + lfnLength entry))

def lsLfn (entry : FatFileEntry) : Comp TFFile (Option (FatFileEntry × Nat)) := do
  match ← loop (V.lsLfnRound (clearFlag entry.sequenceNumber 0x40)) fileRounds
    (1, lfnLength entry) with
  | none => pure none
  | some n => do
    let entry ← V.tfFread 32
    pure (if entry.length ≠ 32 then none else some (entry, n))

def lsRound (len : Int) : Nat × Nat → Comp TFFile ((Nat × Nat) ⊕ Int) :=
    fun (contents, readn) => do
  let entry ← V.tfFread 32
  if entry.length ≠ 32 then
    pure (.inr readn)
  else if entryByte entry 0 = 0 ∨ addr64 len ≤ readn + 8 then
    pure (.inr readn)
  else if FatFileEntry.attributes entry ≠ tfAttrLongName then
    pure (.inl (u64 (contents + reclen (sfnLength entry)), readn + reclen (sfnLength entry)))
  else if FatFileEntry.sequenceNumber entry &&& 0xc0 = 0x40 then
    if len ≤ (clearFlag (FatFileEntry.sequenceNumber entry) 0x40 * 26 + readn : Nat) then
      pure (.inr readn)
    else do
      match ← V.lsLfn entry with
      | none => pure (.inr (-1))
      | some (_, n) => pure (.inl (u64 (contents + reclen n), readn + reclen n))
  else
    pure (.inl (contents, readn))

def ls (contents : Nat) (len : Int) : Comp TFFile Int := do
  let f ← read
  if f.attributes &&& tfAttrDirectory = 0 then
    pure (-1)
  else
    loop (V.lsRound len) fileRounds (contents, 0)

end View

/-! ## The code sees what is on the view -/

variable {V : View} {fp : Nat} {α β : Type}

/-- What an entry holds before it is read. -/
theorem sees_stale {k : FatFileEntry → FsComp β} {y : Comp TFFile β}
    (h : V.Sees fp (k V.stale) y) : V.Sees fp (read >>= fun s => k s.stale) y :=
  Setting.sim_read fun s hs => by
    rw [hs.2.2]
    exact h

theorem sees_compareLfnRound (n : Nat) (p : Nat × CStr × FatFileEntry) :
    V.Sees fp (compareLfnRound fp n p) (V.compareLfnRound n p) := by
  obtain ⟨i, name, entry⟩ := p
  exact Setting.sim_ite (Setting.sim_bind (sees_seekBy _) fun _ => Setting.sim_pure _)
    (Setting.sim_bind (sees_seekBy _) fun _ => Setting.sim_bind (sees_freadEntry _) fun _ =>
      Setting.sim_ite (Setting.sim_bind (sees_seekBy _) fun _ => Setting.sim_pure _)
        (Setting.sim_bind (sees_seekBy _) fun _ => Setting.sim_pure _))

theorem sees_tfCompareFilename (name : CStr) :
    V.Sees fp (tfCompareFilename fp name) (V.tfCompareFilename name) := by
  refine sees_stale (k := fun entry => freadEntry entry fp >>= _)
    (Setting.sim_bind (sees_freadEntry _) fun entry => ?_)
  exact Setting.sim_ite (Setting.sim_pure _) (Setting.sim_ite
    (Setting.sim_ite (Setting.sim_bind (sees_seekBy _) fun _ => Setting.sim_pure _)
      (Setting.sim_pure _))
    (Setting.sim_ite (Setting.sim_bind (sees_seekBy _) fun _ => Setting.sim_ite
      (Setting.sim_pure _) (Setting.sim_loop (sees_compareLfnRound _) _ _)) (Setting.sim_pure _)))

theorem sees_findFileRound (name : CStr) (i : Unit) :
    V.Sees fp (findFileRound fp name i) (V.findFileRound name i) :=
  Setting.sim_bind (sees_tfCompareFilename _) fun _ => Setting.sim_ite (Setting.sim_pure _)
    (Setting.sim_ite (Setting.sim_pure _) (Setting.sim_pure _))

theorem sees_tfFindFile (name : CStr) : V.Sees fp (tfFindFile fp name) (V.tfFindFile name) :=
  Setting.sim_bind (sees_tfFseek _ _) fun _ => Setting.sim_loop (sees_findFileRound name) _ _

theorem sees_tfWalk (path : CStr) : V.Sees fp (tfWalk path fp) (V.tfWalk path) := by
  refine Setting.sim_ite (Setting.sim_pure _) (Setting.sim_bind (sees_tfFindFile _) fun _ =>
    Setting.sim_ite
      (Setting.sim_bind (sees_modifyFile fun _ => rfl) fun _ => Setting.sim_pure _) ?_)
  exact sees_stale (k := fun entry => freadEntry entry fp >>= _)
    (Setting.sim_bind (sees_freadEntry _) fun _ =>
      Setting.sim_bind (sees_modifyFile fun _ => rfl) fun _ => Setting.sim_pure _)

theorem sees_walkRound (path : CStr) : V.Sees fp (walkRound fp path) (V.walkRound path) := by
  refine Setting.sim_bind (sees_tfWalk path) fun rest => sees_getFile fun f =>
    Setting.sim_ite (Setting.sim_pure _) ?_
  cases rest with
  | none => exact Setting.sim_pure _
  | some rest => exact Setting.sim_pure _

/-! ## Copying to the process -/

theorem onMemory_cases (x : MemComp α) (s : Fat32) : (onMemory x s).Holds
    (fun _ t => ∃ m, t = { s with mm := m }) fun _ t => ∃ m, t = { s with mm := m } := by
  unfold onMemory
  cases x s.mm with
  | ok a m => exact ⟨m, rfl⟩
  | fault e m => exact ⟨m, rfl⟩

/-- The memory is not part of the volume. -/
theorem sees_memory {x : FsComp α} {k : α → FsComp β} {y : Comp TFFile β}
    (hx : ∀ s, (x s).Holds (fun _ t => ∃ m, t = { s with mm := m })
      fun _ t => ∃ m, t = { s with mm := m })
    (hk : ∀ a, V.Sees fp (k a) y) : V.Sees fp (x >>= k) y := by
  refine Setting.sim_skip (fun s hs => (hx s).mono ?_ ?_) hk
  · rintro a t ⟨m, rfl⟩
    exact ⟨hs, fun _ _ _ _ => rfl, fun c hc => hc⟩
  · rintro e t ⟨m, rfl⟩
    exact fun c hc => hc

theorem sees_eitherCopyout {user : Bool} {dst : Int} {src : List UInt8} {k : Int → FsComp β}
    {y : Comp TFFile β} (hk : ∀ r, V.Sees fp (k r) y) :
    V.Sees fp (eitherCopyout user dst src >>= k) y := by
  refine sees_memory (fun s => ?_) hk
  unfold eitherCopyout
  rw [read_bind]
  split
  · exact onMemory_cases _ s
  · exact Res.holds_bind (onMemory_cases _ s) fun _ t ht => ht

theorem sees_freadUserRound (p : Nat × Nat × Nat) :
    V.Sees fp (freadUserRound fp p) (V.freadUserRound p) := by
  obtain ⟨dest, size, n⟩ := p
  refine Setting.sim_ite (Setting.sim_pure _) (sees_getFile fun f => Setting.sim_read fun s hs => ?_)
  by_cases hbyte : f.currentByte < 0
  · have hbyte' : f.anon.currentByte < 0 := hbyte
    simp only [if_pos hbyte, if_pos hbyte']
    exact Setting.sim_bind (sees_tfFetch _) fun _ => Setting.sim_fault _ (fault _)
  · have hbyte' : ¬ f.anon.currentByte < 0 := hbyte
    simp only [if_neg hbyte, if_neg hbyte', hs.2.1]
    have hround : ∀ bytes, V.Sees fp
        (eitherCopyout true dest bytes >>= fun _ =>
          tfFseek fp 0 (f.pos + chunk f size : Nat) >>= fun r =>
            if r ≠ 0 then pure (.inr (n + chunk f size))
            else pure (.inl (dest + chunk f size, size - chunk f size, n + chunk f size)) :
              FsComp ((Nat × Nat × Nat) ⊕ Nat))
        (V.tfFseek 0 (f.pos + chunk f size : Nat) >>= fun r =>
          if r ≠ 0 then pure (.inr (n + chunk f size))
          else pure (.inl (dest + chunk f size, size - chunk f size, n + chunk f size))) :=
      fun bytes => sees_eitherCopyout fun _ => Setting.sim_bind (sees_tfFseek _ _) fun r =>
        Setting.sim_ite (Setting.sim_pure _) (Setting.sim_pure _)
    exact sees_load (chunk_le hbyte size) hround

/-! ## Listing -/

theorem sees_copySfn (e : FatFileEntry) (dst : Int) (user : Bool) :
    V.Sees fp (copySfn e dst user) (pure (View.sfnLength e)) := by
  refine sees_eitherCopyout fun _ => ?_
  unfold View.sfnLength
  by_cases h : ((e.drop 8).take 3).takeWhile (· ≠ space) = []
  · simp only [h, if_true]
    exact Setting.sim_pure _
  · simp only [h, if_false]
    exact sees_eitherCopyout fun _ => sees_eitherCopyout fun _ => Setting.sim_pure _

theorem sees_copyLfn (e : FatFileEntry) (dst : Int) (user : Bool) :
    V.Sees fp (copyLfn e dst user) (pure (View.lfnLength e)) := by
  refine sees_eitherCopyout fun r => ?_
  by_cases h : r < 0
  · simp only [h, if_true]
    exact Setting.sim_fault _ _
  · simp only [h, if_false]
    exact sees_eitherCopyout fun _ => sees_eitherCopyout fun _ => Setting.sim_pure _

/-- A number that is known on the view. -/
theorem sees_value {x : FsComp α} {a : α} {k : α → FsComp β} (l : α → Comp TFFile β)
    (hx : V.Sees fp x (pure a)) (hk : ∀ b, V.Sees fp (k b) (l b)) :
    V.Sees fp (x >>= k) (l a) := Setting.sim_bind hx hk

theorem sees_lsLfnRound (m contents : Nat) (user : Bool) (p : Nat × Nat) :
    V.Sees fp (lsLfnRound fp m contents user p) (V.lsLfnRound m p) := by
  obtain ⟨i, n⟩ := p
  refine Setting.sim_ite (Setting.sim_pure _) (Setting.sim_bind (sees_tfFread 32) fun entry =>
    Setting.sim_ite (Setting.sim_pure _) ?_)
  exact sees_value (fun k => pure (Sum.inl (i + 1, n + k))) (sees_copyLfn _ _ _) fun _ =>
    Setting.sim_pure _

theorem sees_lsLfn (contents : Nat) (user : Bool) (entry : FatFileEntry) :
    V.Sees fp (lsLfn fp contents user entry) (V.lsLfn entry) := by
  refine sees_value (fun n => loop (V.lsLfnRound (clearFlag entry.sequenceNumber 0x40)) fileRounds
    (1, n) >>= _) (sees_copyLfn _ _ _) fun n =>
      Setting.sim_bind (Setting.sim_loop (sees_lsLfnRound _ _ _) _ _) fun r => ?_
  cases r with
  | none => exact Setting.sim_pure _
  | some n => exact Setting.sim_bind (sees_tfFread 32) fun _ => Setting.sim_pure _

theorem sees_lsRound (len : Int) (user : Bool) (p : Nat × Nat) :
    V.Sees fp (lsRound fp len user p) (V.lsRound len p) := by
  obtain ⟨contents, readn⟩ := p
  refine Setting.sim_bind (sees_tfFread 32) fun entry => Setting.sim_ite (Setting.sim_pure _)
    (Setting.sim_ite (Setting.sim_pure _) (Setting.sim_ite ?_
      (Setting.sim_ite (Setting.sim_ite (Setting.sim_pure _)
        (Setting.sim_bind (sees_lsLfn _ _ _) fun r => ?_)) (Setting.sim_pure _))))
  · exact sees_value (fun n => pure (Sum.inl (u64 (contents + reclen n), readn + reclen n)))
      (sees_copySfn _ _ _) fun _ => sees_eitherCopyout fun _ => Setting.sim_pure _
  · cases r with
    | none => exact Setting.sim_pure _
    | some e => exact sees_eitherCopyout fun _ => Setting.sim_pure _

end PageFaultOS
