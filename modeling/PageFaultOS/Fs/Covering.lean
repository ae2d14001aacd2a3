import Mathlib.Tactic
import PageFaultOS.Fs.ReadOnly

/-! Lookups that come to an end. Where the lookup on the view finds a file, the code finds it too,
if only a handle is free. -/

namespace PageFaultOS
open Exec Exec.Comp ByteMem

variable {V : View} {fp : Nat} {α β : Type} {s : Fat32} {path : CStr} {c : TFFile}

/-- Where the reading ends on the view, it ends. -/
abbrev View.Covers (V : View) (fp : Nat) (x : FsComp α) (y : Comp TFFile α) : Prop :=
  (V.setting fp).Covers x y

theorem covers_getFile {k : TFFile → FsComp β} {l : TFFile → Comp TFFile β}
    (h : ∀ f, V.Covers fp (k f) (l f.anon)) : V.Covers fp (getFile fp >>= k) (read >>= l) := by
  intro s c b d hs hrun
  rw [bind_ok (getFile_run s fp)]
  rw [read_bind, ← hs.2.2] at hrun
  exact h _ s _ b d ⟨hs.1, hs.2.1, rfl⟩ hrun

theorem covers_modifyFile {g : TFFile → TFFile} (h : ∀ f, (g f).anon = g f.anon) :
    V.Covers fp (modifyFile fp g) (modify g) := by
  intro s c b d hs hrun
  cases hrun
  refine ⟨_, modifyFile_run s fp g, hs.1, hs.2.1, ?_⟩
  rw [s.setFile_self, h, hs.2.2]

/-- What an entry holds before it is read. -/
theorem covers_stale {k : FatFileEntry → FsComp β} {y : Comp TFFile β}
    (h : V.Covers fp (k V.stale) y) : V.Covers fp (read >>= fun s => k s.stale) y :=
  Setting.covers_read fun s hs => by
    rw [hs.2.2]
    exact h

/-! ## Seeking -/

theorem covers_nextCluster : V.Covers fp (nextCluster fp) V.nextCluster := by
  intro s c a d hs hrun
  obtain ⟨hco, rfl, rfl⟩ := hs
  unfold View.nextCluster at hrun
  rw [read_bind] at hrun
  split at hrun
  · rename_i hgo
    cases hrun
    obtain ⟨t, hnext, hmoved⟩ := nextCluster_inside hco hgo
    refine ⟨t, hnext, hmoved.coherent, view_of_same hmoved.same, ?_⟩
    rw [hmoved.file]
    rfl
  · cases hrun

theorem covers_seekCluster (n : Nat) : V.Covers fp (seekCluster fp n) (V.seekCluster n) := by
  have hround : ∀ k, V.Covers fp (seekRound fp k) (V.seekRound k) := fun k =>
    Setting.covers_ite (Setting.covers_pure _) (Setting.covers_bind covers_nextCluster fun _ =>
      covers_getFile fun _ => Setting.covers_ite (Setting.covers_pure _) (Setting.covers_pure _))
  have hloop : ∀ k, V.Covers fp (loop (seekRound fp) fileRounds k)
      (loop V.seekRound fileRounds k) := Setting.covers_loop hround fileRounds
  exact covers_getFile fun _ => Setting.covers_ite (Setting.covers_pure _) (Setting.covers_ite
    (Setting.covers_bind (covers_modifyFile fun _ => rfl) fun _ => hloop _)
    (Setting.covers_bind (covers_modifyFile fun _ => rfl) fun _ => hloop _))

theorem covers_tfFseek (base offset : Int) :
    V.Covers fp (tfFseek fp base offset) (V.tfFseek base offset) := by
  have hgrow : ∀ pos, V.Covers fp (growAtEnd fp pos) (View.growAtEnd pos) := fun pos =>
    covers_getFile fun _ =>
      Setting.covers_ite (covers_modifyFile fun _ => rfl) (Setting.covers_pure _)
  have hraw : ∀ b, V.Covers fp (tfUnsafeFseek fp b offset) (V.tfUnsafeFseek b offset) := by
    intro b
    refine covers_getFile fun f => Setting.covers_ite (Setting.covers_pure _)
      (Setting.covers_bind (hgrow _) fun _ => Setting.covers_read fun s hs => ?_)
    rw [hs.2.1]
    exact Setting.covers_bind (covers_seekCluster _) fun r =>
      Setting.covers_ite (Setting.covers_pure _)
        (Setting.covers_bind (covers_modifyFile fun _ => rfl) fun _ => Setting.covers_pure _)
  exact covers_getFile fun _ => Setting.covers_ite (Setting.covers_pure _) (hraw _)

theorem covers_seekBy (base : Int) : V.Covers fp (seekBy fp base) (V.seekBy base) :=
  covers_getFile fun _ => covers_tfFseek _ _

/-! ## Reading -/

/-- Bytes of a sector. -/
theorem covers_load {sector off n : Nat} {k : List UInt8 → FsComp β}
    {l : List UInt8 → Comp TFFile β} (hoff : off + n ≤ 512)
    (hk : ∀ bytes, V.Covers fp (k bytes) (l bytes)) :
    V.Covers fp (tfFetch sector >>= fun _ => read >>= fun s => k (load s.info.buffer off n))
      (l (load (readSector V.volume sector) off n)) := by
  intro s c b d hs hrun
  obtain ⟨t, hfetch, hsame, hhandles, hbuffer⟩ := tfFetch_run hs.1 sector
  have hload : load t.info.buffer off n = load (readSector V.volume sector) off n := by
    rw [ByteMem.load, ByteMem.load]
    apply List.map_congr_left
    intro i hi
    have hi' := List.mem_range.mp hi
    rw [hbuffer _ (by omega), ← hs.2.1]
    rfl
  rw [bind_ok hfetch, read_bind, hload]
  refine hk _ t c b d ⟨hsame.coherent, (view_of_same hsame).trans hs.2.1, ?_⟩ hrun
  rw [hhandles, hs.2.2]

theorem covers_freadRound (p : Nat × List UInt8) :
    V.Covers fp (freadRound fp p) (V.freadRound p) := by
  obtain ⟨size, dest⟩ := p
  refine Setting.covers_ite (Setting.covers_pure _)
    (covers_getFile fun f => Setting.covers_read fun s hs => ?_)
  by_cases hbyte : f.currentByte < 0
  · have hbyte' : f.anon.currentByte < 0 := hbyte
    simp only [if_pos hbyte']
    intro t c b d _ hrun
    cases hrun
  · have hbyte' : ¬ f.anon.currentByte < 0 := hbyte
    simp only [if_neg hbyte, if_neg hbyte', hs.2.1]
    have hround : ∀ bytes, V.Covers fp
        (tfFseek fp 0 (f.pos + chunk f size : Nat) >>= fun r =>
          if r ≠ 0 then pure (.inr (dest ++ bytes))
          else pure (.inl (size - chunk f size, dest ++ bytes)) :
            FsComp ((Nat × List UInt8) ⊕ List UInt8))
        (V.tfFseek 0 (f.pos + chunk f size : Nat) >>= fun r =>
          if r ≠ 0 then pure (.inr (dest ++ bytes))
          else pure (.inl (size - chunk f size, dest ++ bytes))) := fun bytes =>
      Setting.covers_bind (covers_tfFseek _ _) fun r =>
        Setting.covers_ite (Setting.covers_pure _) (Setting.covers_pure _)
    exact covers_load (chunk_le hbyte size) hround

theorem covers_freadEntry (entry : FatFileEntry) :
    V.Covers fp (freadEntry entry fp) (V.freadEntry entry) :=
  Setting.covers_bind (Setting.covers_loop covers_freadRound fileRounds _) fun _ =>
    Setting.covers_pure _

/-! ## Paths -/

theorem covers_compareLfnRound (n : Nat) (p : Nat × CStr × FatFileEntry) :
    V.Covers fp (compareLfnRound fp n p) (V.compareLfnRound n p) := by
  obtain ⟨i, name, entry⟩ := p
  exact Setting.covers_ite
    (Setting.covers_bind (covers_seekBy _) fun _ => Setting.covers_pure _)
    (Setting.covers_bind (covers_seekBy _) fun _ =>
      Setting.covers_bind (covers_freadEntry _) fun _ => Setting.covers_ite
        (Setting.covers_bind (covers_seekBy _) fun _ => Setting.covers_pure _)
        (Setting.covers_bind (covers_seekBy _) fun _ => Setting.covers_pure _))

theorem covers_tfCompareFilename (name : CStr) :
    V.Covers fp (tfCompareFilename fp name) (V.tfCompareFilename name) := by
  refine covers_stale (k := fun entry => freadEntry entry fp >>= _)
    (Setting.covers_bind (covers_freadEntry _) fun entry => ?_)
  exact Setting.covers_ite (Setting.covers_pure _) (Setting.covers_ite
    (Setting.covers_ite
      (Setting.covers_bind (covers_seekBy _) fun _ => Setting.covers_pure _)
      (Setting.covers_pure _))
    (Setting.covers_ite (Setting.covers_bind (covers_seekBy _) fun _ => Setting.covers_ite
      (Setting.covers_pure _) (Setting.covers_loop (covers_compareLfnRound _) _ _))
      (Setting.covers_pure _)))

theorem covers_tfFindFile (name : CStr) :
    V.Covers fp (tfFindFile fp name) (V.tfFindFile name) := by
  have hround : ∀ i, V.Covers fp (findFileRound fp name i) (V.findFileRound name i) := fun _ =>
    Setting.covers_bind (covers_tfCompareFilename _) fun _ =>
      Setting.covers_ite (Setting.covers_pure _)
        (Setting.covers_ite (Setting.covers_pure _) (Setting.covers_pure _))
  exact Setting.covers_bind (covers_tfFseek _ _) fun _ => Setting.covers_loop hround _ _

theorem covers_walkRound (path : CStr) :
    V.Covers fp (walkRound fp path) (V.walkRound path) := by
  have hwalk : V.Covers fp (tfWalk path fp) (V.tfWalk path) := by
    refine Setting.covers_ite (Setting.covers_pure _)
      (Setting.covers_bind (covers_tfFindFile _) fun _ => Setting.covers_ite
        (Setting.covers_bind (covers_modifyFile fun _ => rfl) fun _ => Setting.covers_pure _) ?_)
    exact covers_stale (k := fun entry => freadEntry entry fp >>= _)
      (Setting.covers_bind (covers_freadEntry _) fun _ =>
        Setting.covers_bind (covers_modifyFile fun _ => rfl) fun _ => Setting.covers_pure _)
  refine Setting.covers_bind hwalk fun rest => covers_getFile fun f =>
    Setting.covers_ite (Setting.covers_pure _) ?_
  cases rest with
  | none => exact Setting.covers_pure _
  | some rest => exact Setting.covers_pure _

/-! ## Looking a path up -/

theorem tfFnopen_finds (hn : path.length < 256) (hs : V.On s) (hfree : s.Free)
    (hfound : loop V.walkRound fileRounds path View.root = .ok true c) :
    Exists (tfFnopen path .r path.length) s := by
  rcases tfFnopen_start path .r hn s with hrun | ⟨fp, f, hroot, hrun⟩
  · have h : Within True s _ _ := tfFnopen_within path .r path.length s fun _ => hfree
    rw [hrun] at h
    exact absurd hfree h.1.1
  · have hstart := (untouched_setFile s fp f).on hs
    have hround : ∀ p, V.Covers fp (walkRound fp p) (V.walkRound p) := covers_walkRound
    obtain ⟨t, hloop, _⟩ := Setting.covers_loop hround fileRounds path (s.setFile fp f) View.root
      true c ⟨hstart.1, hstart.2, by rw [s.setFile_self, hroot]⟩ hfound
    obtain ⟨g, hafter, _⟩ := afterWalk_run path fp true t
    refine ⟨fp, t.setFile fp g, ?_⟩
    rw [hrun, List.take_length, bind_ok hloop, hafter]
    rfl

/-- Where there is a file at the path and a free handle, the file is opened, in each mode that
does not truncate. -/
theorem tfFopen_finds (hs : V.On s) (hfree : s.Free) (hfound : V.lookup path = .ok true c) :
    ∃ fp t, ∀ mode : Mode, mode.write = false → tfFopen path mode s = .ok (.handle fp) t := by
  unfold View.lookup at hfound
  split at hfound
  · cases hfound
  · rename_i hparent
    split at hfound
    · cases hfound
    · rename_i hlong
      obtain ⟨fp, t, hrun⟩ := tfFnopen_finds (Nat.lt_of_not_le hlong) hs hfree hfound
      refine ⟨fp, t, fun mode hmode => ?_⟩
      obtain ⟨plus, write⟩ := mode
      obtain rfl : write = false := hmode
      have hrun' : tfFnopen (stripDot path) ⟨plus, false⟩ (stripDot path).length s =
          .ok (.handle fp) t := hrun
      unfold tfFopen
      rw [if_neg hparent, bind_ok hrun', if_neg (fun hnull => by cases hnull)]
      rfl

end PageFaultOS
