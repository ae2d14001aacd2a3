import Mathlib.Tactic
import PageFaultOS.Fs.Handles
import PageFaultOS.Fs.Truncated

/-! The operations of `fs/fat32.cpp` and the five handles: each file that an operation opens
it closes again, but for `ls` and for `open` of a file that is not a directory. -/

namespace PageFaultOS
open Exec Exec.Comp ByteMem

variable {α β ι : Type} {room : Prop} {s t u : Fat32}

/-- Where `x` returns, `Q` holds; and with enough room no handle is refused, and
`(TFFile *)-1` is not used. -/
def Within (room : Prop) (s : Fat32) (Q : α → Fat32 → Prop) (r : Res Fat32 α) : Prop :=
  r.Holds (fun a t => Q a t ∧ (room → t.refused = s.refused))
    fun e t => room → e ≠ badFile ∧ t.refused = s.refused

theorem Within.mono {room' : Prop} {Q Q' : α → Fat32 → Prop} {r : Res Fat32 α}
    (h : Within room s Q r) (hroom : room' → room) (hQ : ∀ a t, Q a t → Q' a t) :
    Within room' s Q' r :=
  Res.Holds.mono h (fun a t ht => ⟨hQ a t ht.1, fun hr => ht.2 (hroom hr)⟩)
    fun _ _ ht hr => ht (hroom hr)

theorem Within.bind {P : α → Fat32 → Prop} {Q : β → Fat32 → Prop} {x : FsComp α}
    {f : α → FsComp β} (hx : Within room s P (x s)) (hf : ∀ a t, P a t → Within room t Q (f a t)) :
    Within room s Q ((x >>= f) s) := by
  refine Res.holds_bind hx fun a t ht => ?_
  refine Res.Holds.mono (hf a t ht.1) (fun b u hu => ⟨hu.1, fun hr => (hu.2 hr).trans (ht.2 hr)⟩) ?_
  exact fun e u hu hr => ⟨(hu hr).1, (hu hr).2.trans (ht.2 hr)⟩

theorem Within.bind_eq {P : α → Fat32 → Prop} {Q : β → Fat32 → Prop} {x : FsComp α}
    {f : α → FsComp β} (hx : Within room s P (x s))
    (hf : ∀ a t, x s = .ok a t → P a t → Within room t Q (f a t)) :
    Within room s Q ((x >>= f) s) :=
  Within.bind (P := fun a t => x s = .ok a t ∧ P a t)
    (by
      cases hrun : x s with
      | ok a t =>
        rw [hrun] at hx
        exact ⟨⟨rfl, hx.1⟩, hx.2⟩
      | fault e t =>
        rw [hrun] at hx
        exact hx)
    fun a t h => hf a t h.1 h.2

theorem within_pure {Q : α → Fat32 → Prop} {a : α} (h : Q a s) : Within room s Q (.ok a s) :=
  ⟨h, fun _ => rfl⟩

theorem within_fault {Q : α → Fat32 → Prop} {e : Fault} (h : room → e ≠ badFile) :
    Within room s Q (.fault e s) := fun hr => ⟨h hr, rfl⟩

theorem within_loop {body : ι → FsComp (ι ⊕ α)} {I : ι → Fat32 → Prop} {Q : α → Fat32 → Prop}
    (hbody : ∀ i t, I i t → Within room t
      (fun r u => match r with | .inl j => I j u | .inr a => Q a u) (body i t))
    (n : Nat) {i : ι} (h : I i s) : Within room s Q (loop body n i s) := by
  refine Res.holds_loop (I := fun i t => I i t ∧ (room → t.refused = s.refused))
    (fun i t ht => ?_) (fun i t ht hr => ⟨diverge_ne_badFile, ht.2 hr⟩) n i s ⟨h, fun _ => rfl⟩
  refine Res.Holds.mono (hbody i t ht.1) (fun r u hu => ?_) fun e u hu hr =>
    ⟨(hu hr).1, (hu hr).2.trans (ht.2 hr)⟩
  cases r with
  | inl j => exact ⟨hu.1, fun hr => (hu.2 hr).trans (ht.2 hr)⟩
  | inr a => exact ⟨hu.1, fun hr => (hu.2 hr).trans (ht.2 hr)⟩

theorem within_quiet {x : FsComp α} (hx : Quiet x) (s : Fat32) :
    Within room s (fun _ t => Calm s t) (x s) :=
  (hx s).mono (fun _ _ h => ⟨h.toCalm, fun _ => h.refused⟩) fun _ _ h _ => ⟨h.1, h.2.refused⟩

theorem within_still {x : FsComp α} (hx : Quiet x) (s : Fat32) :
    Within room s (fun _ t => Still s t) (x s) :=
  (hx s).mono (fun _ _ h => ⟨h, fun _ => h.refused⟩) fun _ _ h _ => ⟨h.1, h.2.refused⟩

theorem within_reading {x : FsComp α} (hx : Reading x) (s : Fat32) :
    Within room s (fun _ t => Settled s t) (x s) :=
  (hx s).mono (fun _ _ h => ⟨h, fun _ => h.refused⟩) fun _ _ h _ => ⟨h.1, h.2.refused⟩

/-! ## Opening a file -/

/-- There is a free handle. -/
def Fat32.Free (s : Fat32) : Prop := ∃ i < tfFileHandles, ¬ (s.handles i).IsOpen

/-- From `s` to `t` the free handle `fp` has been opened for `name`. -/
structure Took (s : Fat32) (fp : Nat) (name : CStr) (t : Fat32) : Prop where
  lt : fp < tfFileHandles
  free : ¬ (s.handles fp).IsOpen
  opened : (t.handles fp).IsOpen
  filename : (t.handles fp).filename = name
  others : ∀ i < tfFileHandles, i ≠ fp → ((t.handles i).IsOpen ↔ (s.handles i).IsOpen)
  names : ∀ i < tfFileHandles, (s.handles i).IsOpen →
    (t.handles i).filename = (s.handles i).filename

theorem Took.calm {fp : Nat} {name : CStr} (h : Took s fp name t) (hc : Calm t u) :
    Took s fp name u := by
  refine ⟨h.lt, h.free, (hc.opened fp h.lt).mpr h.opened, ?_, fun i hi hne => ?_, fun i hi ho => ?_⟩
  · rw [hc.filename fp h.lt h.opened, h.filename]
  · exact (hc.opened i hi).trans (h.others i hi hne)
  · have hne : i ≠ fp := fun he => h.free (he ▸ ho)
    rw [hc.filename i hi ((h.others i hi hne).mpr ho), h.names i hi ho]

theorem Took.close {fp : Nat} {name : CStr} {f : TFFile} (h : Took s fp name t)
    (hf : ¬ f.IsOpen) : Calm s (t.setFile fp f) := by
  constructor
  · intro i hi
    by_cases hne : i = fp
    · rw [hne, t.setFile_self]
      exact ⟨fun ho => absurd ho hf, fun ho => absurd ho h.free⟩
    · rw [t.setFile_other f hne]
      exact h.others i hi hne
  · intro i hi ho
    have hne : i ≠ fp := fun he => h.free (he ▸ ho)
    rw [t.setFile_other f hne, h.names i hi ho]

theorem Calm.took {fp : Nat} {name : CStr} (hc : Calm s t) (h : Took t fp name u) :
    Took s fp name u := by
  refine ⟨h.lt, fun ho => h.free ((hc.opened fp h.lt).mpr ho), h.opened, h.filename,
    fun i hi hne => (h.others i hi hne).trans (hc.opened i hi), fun i hi ho => ?_⟩
  rw [h.names i hi ((hc.opened i hi).mpr ho), hc.filename i hi ho]

theorem Took.openHandles {fp : Nat} {name : CStr} (h : Took s fp name t) :
    t.openHandles = insert fp s.openHandles := by
  ext i
  simp only [Fat32.openHandles, Finset.mem_filter, Finset.mem_insert, Finset.mem_range]
  by_cases hi : i = fp
  · rw [hi]
    exact ⟨fun _ => Or.inl rfl, fun _ => ⟨h.lt, h.opened⟩⟩
  · constructor
    · exact fun ho => Or.inr ⟨ho.1, (h.others i ho.1 hi).mp ho.2⟩
    · rintro (he | ho)
      · exact absurd he hi
      · exact ⟨ho.1, (h.others i ho.1 hi).mpr ho.2⟩

theorem Took.not_mem {fp : Nat} {name : CStr} (h : Took s fp name t) : fp ∉ s.openHandles :=
  fun hm => h.free (Finset.mem_filter.mp hm).2

theorem Took.card {fp : Nat} {name : CStr} (h : Took s fp name t) :
    t.openHandles.card = s.openHandles.card + 1 := by
  rw [h.openHandles, Finset.card_insert_of_notMem h.not_mem]

theorem Fat32.free_of_card (h : s.openHandles.card < tfFileHandles) : s.Free := by
  by_contra hall
  have hopen : ∀ i ∈ Finset.range tfFileHandles, (s.handles i).IsOpen := by
    intro i hi
    by_contra ho
    exact hall ⟨i, Finset.mem_range.mp hi, ho⟩
  rw [Fat32.openHandles, Finset.filter_true_of_mem hopen, Finset.card_range] at h
  exact Nat.lt_irrefl _ h

theorem Took.start {fp : Nat} {f : TFFile} (hlt : fp < tfFileHandles)
    (hfree : ¬ (s.handles fp).IsOpen) (hf : f.IsOpen) :
    Took s fp f.filename (s.setFile fp f) := by
  refine ⟨hlt, hfree, ?_, ?_, fun i _ hne => ?_, fun i _ ho => ?_⟩
  · rw [s.setFile_self]
    exact hf
  · rw [s.setFile_self]
  · rw [s.setFile_other f hne]
  · have hne : i ≠ fp := fun he => hfree (he ▸ ho)
    rw [s.setFile_other f hne]

theorem Calm.setOpen {fp : Nat} {f : TFFile} (hopen : (s.handles fp).IsOpen) (hf : f.IsOpen)
    (hname : f.filename = (s.handles fp).filename) : Calm s (s.setFile fp f) :=
  Calm.setFile ⟨fun _ => hopen, fun _ => hf⟩ hname

theorem Took.rename {fp : Nat} {name : CStr} (h : Took s fp name t) (name' : CStr) :
    Took s fp name' (t.setFile fp { t.handles fp with filename := name' }) := by
  refine ⟨h.lt, h.free, ?_, ?_, fun i hi hne => ?_, fun i hi ho => ?_⟩
  · rw [t.setFile_self]
    exact h.opened
  · rw [t.setFile_self]
  · rw [t.setFile_other _ hne]
    exact h.others i hi hne
  · have hne : i ≠ fp := fun he => h.free (he ▸ ho)
    rw [t.setFile_other _ hne]
    exact h.names i hi ho

theorem isOpen_failed (f : TFFile) : TFFile.IsOpen { f with flags := 0xff } := by
  show 0xff &&& tfFlagOpen ≠ 0
  decide

theorem isOpen_enter (e : FatFileEntry) (f : TFFile) : (enter e f).IsOpen := by
  show tfFlagOpen &&& tfFlagOpen ≠ 0
  decide

theorem isOpen_rootFile {f : TFFile} (h : f.flags = tfFlagOpen) : (rootFile f).IsOpen := by
  show (f.flags ||| tfFlagRoot) &&& tfFlagOpen ≠ 0
  rw [h]
  decide

theorem not_isDirty_rootFile {f : TFFile} (h : f.flags = tfFlagOpen) :
    ¬ (rootFile f).IsDirty := by
  show ¬ ((f.flags ||| tfFlagRoot) &&& tfFlagDirty ≠ 0)
  rw [h]
  decide

/-- `flags &= ~TF_FLAG_OPEN` -/
theorem not_isOpen_clear (f : TFFile) :
    ¬ TFFile.IsOpen { f with flags := clearFlag f.flags tfFlagOpen } := by
  show ¬ ((f.flags &&& 253) &&& tfFlagOpen ≠ 0)
  rw [Nat.and_assoc]
  exact not_not_intro (Nat.and_zero _)

theorem not_isDirty_enter (e : FatFileEntry) (f : TFFile) : ¬ (enter e f).IsDirty := by
  show ¬ (tfFlagOpen &&& tfFlagDirty ≠ 0)
  decide

/-- The outcome of `tf_get_free_handle`. -/
theorem tfGetFreeHandle_cases (s : Fat32) :
    (¬ s.Free ∧ tfGetFreeHandle s = .ok none { s with refused := true }) ∨
    ∃ fp, ¬ (s.handles fp).IsOpen ∧ fp < tfFileHandles ∧ tfGetFreeHandle s =
      .ok (some fp) (s.setFile fp { s.handles fp with flags := tfFlagOpen }) := by
  unfold tfGetFreeHandle
  rw [read_bind]
  cases hfind : (List.range tfFileHandles).find? fun i =>
      (s.handles i).flags &&& tfFlagOpen = 0 with
  | none =>
    refine Or.inl ⟨?_, rfl⟩
    rintro ⟨i, hi, hopen⟩
    have hnone := List.find?_eq_none.mp hfind i (List.mem_range.mpr hi)
    exact hnone (decide_eq_true (not_not.mp hopen))
  | some fp =>
    have hfp := List.find?_some hfind
    have hmem := List.mem_of_find?_eq_some hfind
    refine Or.inr ⟨fp, fun hopen => hopen (of_decide_eq_true hfp), List.mem_range.mp hmem, rfl⟩

/-- What `tf_fnopen` returns: no file, no handle, or a handle that is open now and clean. -/
def Opened (s : Fat32) (name : CStr) (p : FilePtr) (t : Fat32) : Prop :=
  match p with
  | .null => Calm s t
  | .invalid => ¬ s.Free ∧ Calm s t
  | .handle fp => Took s fp name t ∧ ¬ (t.handles fp).IsDirty

theorem tfWalk_within {fp : Nat} (hlt : fp < tfFileHandles) (hopen : (s.handles fp).IsOpen)
    (hclean : ¬ (s.handles fp).IsDirty) (filename : CStr) :
    Within room s (fun _ t => Calm s t ∧ ((t.handles fp).flags ≠ 0xff →
      ¬ (t.handles fp).IsDirty)) (tfWalk filename fp s) := by
  unfold tfWalk
  simp only
  split
  · exact within_pure ⟨Calm.refl s, fun _ => hclean⟩
  · refine (within_reading (reading_tfFindFile fp _) s).bind fun rc t ht => ?_
    have hopen' : (t.handles fp).IsOpen := (ht.opened fp hlt).mpr hopen
    split
    · refine ⟨⟨ht.toCalm.trans (Calm.setOpen hopen' (isOpen_failed _) rfl), fun h => ?_⟩,
        fun _ => rfl⟩
      rw [Fat32.setFile_self] at h
      exact absurd rfl h
    · rw [read_bind]
      refine (within_reading (reading_freadEntry _ fp) t).bind fun entry u hu => ?_
      have hopen'' : (u.handles fp).IsOpen := (hu.opened fp hlt).mpr hopen'
      refine ⟨⟨(ht.toCalm.trans hu.toCalm).trans (Calm.setOpen hopen'' (isOpen_enter _ _) rfl),
        fun _ => ?_⟩, fun _ => rfl⟩
      rw [Fat32.setFile_self]
      exact not_isDirty_enter _ _

/-- The loop of `tf_fnopen`. -/
theorem walk_loop_within {fp : Nat} (hlt : fp < tfFileHandles) (hopen : (s.handles fp).IsOpen)
    (hclean : ¬ (s.handles fp).IsDirty) (n : Nat) (path : CStr) :
    Within room s (fun found t => Calm s t ∧ (found = true → ¬ (t.handles fp).IsDirty))
      (loop (walkRound fp) n path s) := by
  refine within_loop (I := fun _ t => Calm s t ∧ ¬ (t.handles fp).IsDirty) (fun path t ht => ?_) n
    ⟨Calm.refl s, hclean⟩
  have hopen' : (t.handles fp).IsOpen := (ht.1.opened fp hlt).mpr hopen
  refine (tfWalk_within hlt hopen' ht.2 path).bind fun rest u hu => ?_
  have hcalm := ht.1.trans hu.1
  rw [bind_ok (getFile_run u fp)]
  split
  · exact within_pure ⟨hcalm, fun h => by cases h⟩
  · rename_i hflags
    cases rest with
    | none => exact within_pure ⟨hcalm, fun _ => hu.2 hflags⟩
    | some rest => exact within_pure ⟨hcalm, hu.2 hflags⟩

theorem reading_truncate (fp : Nat) : Reading (truncate fp) :=
  Res.follows_bind (reading_getFile fp) fun _ => Res.follows_ite
    (Res.follows_bind (reading_modifyFile (fun _ => rfl) ⟨fun _ => rfl, fun _ => rfl⟩) fun _ =>
      Res.follows_bind (reading_tfUnsafeFseek _ _ _) fun _ =>
        Res.follows_bind (reading_tfGetFatEntry _) fun _ =>
          Res.follows_ite (Res.follows_bind (reading_tfFreeClusterchain _) fun _ =>
            reading_tfSetFatEntry _ _) (Res.follows_pure ()))
    (Res.follows_pure ())

theorem tfFnopen_within (filename : CStr) (mode : Mode) (n : Nat) (s : Fat32)
    (hroom : room → s.Free) :
    Within room s (fun p t => Opened s (filename.take n) p t) (tfFnopen filename mode n s) := by
  unfold tfFnopen
  rcases tfGetFreeHandle_cases s with ⟨hfull, hrun⟩ | ⟨fp, hfree, hlt, hrun⟩
  · rw [bind_ok hrun]
    exact ⟨⟨hfull, fun _ _ => Iff.rfl, fun _ _ _ => rfl⟩, fun hr => absurd (hroom hr) hfull⟩
  · rw [bind_ok hrun]
    simp only
    have hopen : TFFile.IsOpen { s.handles fp with flags := tfFlagOpen } := by
      show tfFlagOpen &&& tfFlagOpen ≠ 0
      decide
    have htook := Took.start hlt hfree hopen
    split
    · exact fun hr => ⟨undefined_ne_badFile (by decide), rfl⟩
    · show Within room (s.setFile fp { s.handles fp with flags := tfFlagOpen }) _ _
      have hflags : ((s.setFile fp { s.handles fp with flags := tfFlagOpen }).handles fp).flags =
          tfFlagOpen := by rw [s.setFile_self]
      have hisOpen : ((s.setFile fp { s.handles fp with flags := tfFlagOpen }).handles fp).IsOpen := by
        rw [s.setFile_self]
        exact hopen
      have hroot := Calm.setOpen hisOpen (isOpen_rootFile hflags) rfl
      rw [bind_ok (modifyFile_run _ fp rootFile)]
      refine (walk_loop_within hlt (by rw [Fat32.setFile_self]; exact isOpen_rootFile hflags)
        (by rw [Fat32.setFile_self]; exact not_isDirty_rootFile hflags) _ _).bind fun found t ht => ?_
      have htook' := (htook.calm hroot).calm ht.1
      split
      · exact ⟨htook'.close (not_isOpen_clear _), fun _ => rfl⟩
      · rename_i hfound
        have hclean := ht.2 (Bool.eq_true_of_not_eq_false hfound)
        have hmode : Reading (if mode.write then truncate fp else pure () : FsComp Unit) :=
          Res.follows_ite (reading_truncate fp) (Res.follows_pure ())
        refine (within_reading hmode t).bind fun _ u hu => ?_
        refine ⟨⟨(htook'.calm hu.toCalm).rename _, ?_⟩, fun _ => rfl⟩
        rw [Fat32.setFile_self]
        exact fun hd => hclean ((hu.dirty fp hlt).mp hd)

theorem tfParent_within (filename : CStr) (s : Fat32) (hroom : room → s.Free) :
    Within room s (fun p t => ∃ name, Opened s name p t) (tfParent filename s) := by
  unfold tfParent
  cases hn : strrchr filename slash with
  | none => exact within_fault fun _ => undefined_ne_badFile (by decide)
  | some n =>
    exact (tfFnopen_within filename .rw n s hroom).mono id fun p t ht => ⟨_, ht⟩

/-! ## Closing a file -/

theorem quiet_flushed (fp : Nat) : Quiet (flushed fp) := by
  refine quiet_modifyFile (fun f => ?_) ⟨fun _ => rfl, fun _ => rfl⟩
  show ((f.flags &&& 251) &&& 254) &&& tfFlagOpen ≠ 0 ↔ f.flags &&& tfFlagOpen ≠ 0
  rw [Nat.and_assoc, Nat.and_assoc]
  rfl

theorem quiet_flushEntry (filename : CStr) (dir : Nat) : Quiet (flushEntry filename dir) := by
  unfold flushEntry
  cases strrchr filename slash with
  | none => exact Res.follows_fault (undefined_ne_badFile (by decide))
  | some n =>
    exact Res.follows_bind (reading_tfFindFile _ _).quiet fun _ =>
      Res.follows_bind Res.follows_read fun _ =>
        Res.follows_bind (reading_freadEntry _ _).quiet fun _ =>
          Res.follows_bind (reading_seekBy _ _).quiet fun _ =>
            Res.follows_bind Res.follows_read fun _ =>
              Res.follows_bind (quiet_tfFwrite _ _ _) fun _ => Res.follows_pure ()

theorem Calm.free (h : Calm s t) : t.Free ↔ s.Free := by
  constructor
  · rintro ⟨i, hi, hfree⟩
    exact ⟨i, hi, fun ho => hfree ((h.opened i hi).mpr ho)⟩
  · rintro ⟨i, hi, hfree⟩
    exact ⟨i, hi, fun ho => hfree ((h.opened i hi).mp ho)⟩

theorem tfFflush_directory {depth fp : Nat}
    (hdir : (s.handles fp).attributes &&& tfAttrDirectory ≠ 0) :
    Within room s (fun _ t => Calm s t) (tfFflush depth fp s) := by
  cases depth with
  | zero => exact within_fault fun _ => diverge_ne_badFile
  | succ depth =>
    unfold tfFflush
    rw [bind_ok (getFile_run s fp)]
    split
    · exact within_pure (Calm.refl s)
    · refine (within_reading reading_storeDirty s).bind fun _ t ht => ?_
      rw [if_pos (Or.inr hdir)]
      exact (within_quiet (quiet_flushed fp) t).bind fun _ u hu => within_pure (ht.toCalm.trans hu)

theorem badFile_of_deref {p : FilePtr} (h : p ≠ .invalid) :
    Within room s (fun fp t => t = s ∧ p = .handle fp) (p.deref s) := by
  cases p with
  | null => exact within_fault fun _ => undefined_ne_badFile (by decide)
  | invalid => exact absurd rfl h
  | handle fp => exact within_pure ⟨rfl, rfl⟩

/-- A handle for the parent directory is enough. -/
theorem tfFflush_within {depth fp : Nat} (hfree : room → s.Free) :
    Within room s (fun _ t => Calm s t) (tfFflush depth fp s) := by
  cases depth with
  | zero => exact within_fault fun _ => diverge_ne_badFile
  | succ depth =>
    unfold tfFflush
    rw [bind_ok (getFile_run s fp)]
    split
    · exact within_pure (Calm.refl s)
    · refine (within_reading reading_storeDirty s).bind fun _ t ht => ?_
      split
      · exact ((within_quiet (quiet_flushed fp) t).bind fun _ u hu =>
          within_pure (ht.toCalm.trans hu))
      · refine (tfParent_within (s.handles fp).filename t fun hr =>
          ht.free.mpr (hfree hr)).bind_eq fun dir u hparent hu => ?_
        obtain ⟨name, hu⟩ := hu
        split
        · rename_i hdir
          rw [hdir] at hu
          exact within_pure (ht.toCalm.trans hu.2)
        · rename_i hdir
          refine (badFile_of_deref hdir).bind fun d v hv => ?_
          obtain ⟨rfl, rfl⟩ := hv
          refine (within_still (quiet_flushEntry _ d) v).bind_eq fun _ w hflush hw => ?_
          have hattr : (w.handles d).attributes &&& tfAttrDirectory ≠ 0 := by
            rcases tfParent_truncated hparent with hisDir | htruncated
            · rw [hw.attributes d hu.1.lt]
              exact hisDir
            · exact absurd hflush (flushEntry_truncated htruncated _)
          refine (tfFflush_directory hattr).bind fun _ x hx => ?_
          rw [bind_ok (modifyFile_run x d _)]
          have hclosed := (hu.1.calm (hw.toCalm.trans hx)).close (not_isOpen_clear (x.handles d))
          show Within room (x.setFile d { x.handles d with
            flags := clearFlag (x.handles d).flags tfFlagOpen }) _ _
          exact (within_quiet (quiet_flushed fp) _).bind fun _ y hy =>
            within_pure (ht.toCalm.trans (hclosed.trans hy))

/-- The room for a file and its parent directory. -/
def Fat32.Room (s : Fat32) : Prop := s.openHandles.card + 2 ≤ tfFileHandles

theorem Fat32.Room.free (h : s.Room) : s.Free := by
  unfold Fat32.Room at h
  exact Fat32.free_of_card (by omega)

theorem Took.free_handle {fp : Nat} {name : CStr} (h : Took s fp name t) (hroom : s.Room) :
    t.Free := by
  unfold Fat32.Room at hroom
  apply Fat32.free_of_card
  rw [h.card]
  omega

theorem Calm.room_iff (h : Calm s t) : t.Room ↔ s.Room := by
  rw [Fat32.Room, Fat32.Room, h.openHandles]

theorem tfFclose_within {fp : Nat} {name : CStr} (h : Took s fp name t) (hroom : room → s.Room) :
    Within room t (fun _ u => Calm s u) (tfFclose fp t) := by
  refine (tfFflush_within fun hr => h.free_handle (hroom hr)).bind fun rc u hu => ?_
  exact ⟨(h.calm hu).close (not_isOpen_clear _), fun _ => rfl⟩

/-- A file that has not been written to is closed without more ado. -/
theorem tfFclose_clean {fp : Nat} {name : CStr} (h : Took s fp name t)
    (hclean : ¬ (t.handles fp).IsDirty) : Within room t (fun _ u => Calm s u) (tfFclose fp t) := by
  have hflush : tfFflush flushDepth fp t = .ok 0 t := by
    unfold flushDepth tfFflush
    rw [bind_ok (getFile_run t fp), if_pos (not_not.mp hclean)]
    rfl
  unfold tfFclose
  rw [bind_ok hflush]
  exact ⟨h.close (not_isOpen_clear _), fun _ => rfl⟩

/-! ## Making and removing entries -/

theorem quiet_fwriteEntry (fp : Nat) : Quiet (fwriteEntry fp) :=
  Res.follows_bind Res.follows_read fun _ =>
    Res.follows_bind (quiet_tfFwrite _ _ _) fun _ => Res.follows_pure ()

/-- `xfile` is none of the handles. -/
theorem quiet_tfChooseSfn (dest : List UInt8) (src : CStr) (fp : Nat) :
    Quiet (tfChooseSfn dest src fp) := by
  have hcopy : ∀ f, Quiet (modifyFile xfile fun _ => f) := by
    intro f
    refine Res.follows_modify fun s => ⟨⟨fun i hi => ?_, fun i hi _ => ?_⟩, fun i hi => ?_, rfl⟩
    · have hne : i ≠ xfile := Nat.ne_of_lt hi
      rw [s.setFile_other _ hne]
    · have hne : i ≠ xfile := Nat.ne_of_lt hi
      rw [s.setFile_other _ hne]
    · have hne : i ≠ xfile := Nat.ne_of_lt hi
      rw [s.setFile_other _ hne]
  refine Res.follows_bind (reading_getFile fp).quiet fun f => Res.follows_bind (hcopy f) fun _ =>
    Res.follows_loop diverge_ne_badFile (fun p => ?_) _ _
  obtain ⟨num, dest⟩ := p
  exact Res.follows_bind (reading_tfFindFile _ _).quiet fun _ =>
    Res.follows_ite (Res.follows_pure _) (Res.follows_pure _)

theorem quiet_placeEntry (fp : Nat) (filename : CStr) : Quiet (placeEntry fp filename) := by
  refine Res.follows_bind Res.follows_read fun _ =>
    Res.follows_bind (Res.follows_loop diverge_ne_badFile (fun _ =>
      Res.follows_bind (reading_freadEntry _ _).quiet fun _ =>
        Res.follows_ite (Res.follows_pure _) (Res.follows_pure _)) _ _) fun entry =>
      Res.follows_bind (reading_seekBy _ _).quiet fun _ =>
        Res.follows_bind (reading_findFree 0).quiet fun _ =>
          Res.follows_bind (reading_tfSetFatEntry _ _).quiet fun _ => ?_
  cases strrchr filename slash with
  | none => exact Res.follows_fault (undefined_ne_badFile (by decide))
  | some n =>
    exact Res.follows_bind (quiet_tfChooseSfn _ _ _) fun _ =>
      Res.follows_bind (Res.follows_forEach (fun _ => quiet_fwriteEntry fp) _) fun _ =>
        Res.follows_bind (quiet_fwriteEntry fp) fun _ => quiet_fwriteEntry fp

theorem quiet_removeEntries (fp : Nat) : Quiet (removeEntries fp) := by
  have hsize : Reading (modifyFile fp fun f => { f with
      size := u32 (f.size + (2 ^ 32 - 32)), flags := f.flags ||| tfFlagSizechanged }) :=
    reading_modifyFile (fun f => or_sizechanged f.flags) ⟨fun _ => rfl, fun _ => rfl⟩
  refine Res.follows_bind Res.follows_read fun _ =>
    Res.follows_bind (Res.follows_loop diverge_ne_badFile (fun _ =>
      Res.follows_bind (reading_seekBy _ _).quiet fun _ =>
        Res.follows_ite (Res.follows_pure _)
          (Res.follows_bind (reading_freadEntry _ _).quiet fun _ =>
            Res.follows_bind (reading_seekBy _ _).quiet fun _ =>
              Res.follows_bind (quiet_fwriteEntry fp) fun _ =>
                Res.follows_ite (Res.follows_pure _) (Res.follows_pure _))) _ _) fun _ =>
      hsize.quiet

theorem Opened.after {name : CStr} {p : FilePtr} (hc : Calm s t) (h : Opened t name p u) :
    Opened s name p u := by
  cases p with
  | null => exact hc.trans h
  | invalid => exact ⟨fun hf => h.1 (hc.free.mpr hf), hc.trans h.2⟩
  | handle fp => exact ⟨hc.took h.1, h.2⟩

theorem deref_within {name : CStr} {p : FilePtr} (h : Opened s name p t) (hroom : room → s.Free) :
    Within room t (fun fp u => u = t ∧ p = .handle fp) (p.deref t) := by
  cases p with
  | null => exact within_fault fun _ => undefined_ne_badFile (by decide)
  | invalid => exact within_fault fun hr => absurd (hroom hr) h.1
  | handle fp => exact within_pure ⟨rfl, rfl⟩

/-- Releasing a handle that is closed. -/
theorem release_within {fp : Nat} {name : CStr} (h : Took s fp name t) (hc : Calm s u) :
    Within room u (fun _ v => Calm s v) (tfReleaseHandle fp u) := by
  have hclosed : ¬ (u.handles fp).IsOpen := fun ho => h.free ((hc.opened fp h.lt).mp ho)
  refine ⟨hc.trans (Calm.setFile ⟨fun ho => ?_, fun ho => absurd ho hclosed⟩ rfl), fun _ => rfl⟩
  exact absurd ho (not_isOpen_clear _)

theorem tfCreate_within (filename : CStr) (s : Fat32) (hroom : room → s.Room) :
    Within room s (fun _ t => Calm s t) (tfCreate filename s) := by
  have hfree : room → s.Free := fun hr => (hroom hr).free
  refine (tfParent_within filename s hfree).bind fun dir t ht => ?_
  obtain ⟨name, ht⟩ := ht
  split
  · rename_i hnull
    rw [hnull] at ht
    exact within_pure ht
  · refine (deref_within ht hfree).bind fun fp u hu => ?_
    obtain ⟨rfl, rfl⟩ := hu
    refine (tfFclose_clean ht.1 ht.2).bind fun _ u hu => ?_
    refine (tfParent_within filename u fun hr => hu.free.mpr (hfree hr)).bind fun dir v hv => ?_
    obtain ⟨name', hv⟩ := hv
    have hv' := hv.after hu
    refine (deref_within hv' hfree).bind fun fp w hw => ?_
    obtain ⟨rfl, rfl⟩ := hw
    refine (within_quiet (quiet_placeEntry fp filename) w).bind fun _ x hx => ?_
    exact (tfFclose_within (hv'.1.calm hx) hroom).bind fun _ y hy => within_pure hy

theorem tfFopen_within (filename : CStr) (mode : Mode) (s : Fat32) (hfree : room → s.Free)
    (hroom : room → mode.plus ∨ mode.write → s.Room) :
    Within room s (fun p t => ∃ name, Opened s name p t) (tfFopen filename mode s) := by
  unfold tfFopen
  split
  · exact within_pure ⟨[], Calm.refl s⟩
  · refine (tfFnopen_within (stripDot filename) mode _ s hfree).bind fun p t ht => ?_
    split
    · rename_i hnull
      rw [hnull] at ht
      have hcalm : Calm s t := ht
      have hcreate : Within room t (fun _ u => Calm s u)
          ((if mode.plus ∨ mode.write then tfCreate (stripDot filename) else pure 0 : FsComp Int)
            t) := by
        split
        · rename_i hmode
          exact (tfCreate_within _ t fun hr => hcalm.room_iff.mpr (hroom hr hmode)).mono id
            fun _ u hu => hcalm.trans hu
        · exact within_pure hcalm
      refine hcreate.bind fun _ u hu => ?_
      exact (tfFnopen_within _ mode _ u fun hr => hu.free.mpr (hfree hr)).mono id
        fun p v hv => ⟨_, hv.after hu⟩
    · exact within_pure ⟨_, ht⟩

/-- Looking a path up. -/
theorem lookup_opened (path : CStr) (s : Fat32) (hfree : room → s.Free) :
    Within room s (fun p t => ∃ name, Opened s name p t) (tfFopen path .r s) :=
  tfFopen_within path .r s hfree fun _ hmode => absurd hmode (by decide)

theorem tfMkdir_within (filename : CStr) (s : Fat32) (hroom : room → s.Room) :
    Within room s (fun _ t => Calm s t) (tfMkdir filename s) := by
  unfold tfMkdir
  generalize (if filename.take 3 = [slash, dot, slash] then filename.drop 2 else filename) = path
  have hfree : room → s.Free := fun hr => (hroom hr).free
  split
  · exact within_pure (Calm.refl s)
  · refine (lookup_opened path s hfree).bind fun p t ht => ?_
    obtain ⟨name, ht⟩ := ht
    split
    · refine (deref_within ht hfree).bind fun fp u hu => ?_
      obtain ⟨rfl, rfl⟩ := hu
      refine (tfFclose_clean ht.1 ht.2).bind fun _ u hu => ?_
      exact (release_within ht.1 hu).bind fun _ v hv => within_pure hv
    · rename_i hnull
      rw [not_not.mp hnull] at ht
      have hcalm : Calm s t := ht
      refine (tfParent_within path t fun hr => hcalm.free.mpr (hfree hr)).bind fun dir u hu => ?_
      obtain ⟨name, hu⟩ := hu
      have hu' := hu.after hcalm
      split
      · rename_i hdir
        rw [hdir] at hu'
        exact within_pure hu'
      · refine (deref_within hu' hfree).bind fun fp v hv => ?_
        obtain ⟨rfl, rfl⟩ := hv
        refine (within_quiet (quiet_placeEntry fp path) v).bind fun _ w hw => ?_
        refine (tfFclose_within (hu'.1.calm hw) hroom).bind fun _ x hx => ?_
        refine (release_within hu'.1 hx).bind fun _ y hy => ?_
        refine (tfFopen_within (path.take 255) .w y (fun hr => hy.free.mpr (hfree hr))
          fun hr _ => hy.room_iff.mpr (hroom hr)).bind fun p z hz => ?_
        obtain ⟨name, hz⟩ := hz
        have hz' := hz.after hy
        refine (deref_within hz' hfree).bind fun fp a ha => ?_
        obtain ⟨rfl, rfl⟩ := ha
        refine (within_quiet (quiet_fwriteEntry fp) a).bind fun _ b hb => ?_
        refine (within_quiet (quiet_fwriteEntry fp) b).bind fun _ c hc => ?_
        refine (within_quiet (quiet_fwriteEntry fp) c).bind fun _ d hd => ?_
        have htook := hz'.1.calm ((hb.trans hc).trans hd)
        refine (tfFclose_within htook hroom).bind fun _ e he => ?_
        exact (release_within htook he).bind fun _ g hg => within_pure hg

theorem tfRemove_within (filename : CStr) (s : Fat32) (hroom : room → s.Room) :
    Within room s (fun _ t => Calm s t) (tfRemove filename s) := by
  have hfree : room → s.Free := fun hr => (hroom hr).free
  refine (lookup_opened filename s hfree).bind fun p t ht => ?_
  obtain ⟨name, ht⟩ := ht
  split
  · rename_i hnull
    rw [hnull] at ht
    exact within_pure ht
  · refine (deref_within ht hfree).bind fun fp u hu => ?_
    obtain ⟨rfl, rfl⟩ := hu
    rw [bind_ok (getFile_run u fp)]
    refine (tfFclose_clean ht.1 ht.2).bind fun _ v hv => ?_
    refine (tfParent_within filename v fun hr => hv.free.mpr (hfree hr)).bind fun dir w hw => ?_
    obtain ⟨name', hw⟩ := hw
    have hw' := hw.after hv
    refine (deref_within hw' hfree).bind fun fp x hx => ?_
    obtain ⟨rfl, rfl⟩ := hx
    cases hn : strrchr filename slash with
    | none => exact within_fault fun _ => undefined_ne_badFile (by decide)
    | some n =>
      refine (within_quiet (reading_tfFindFile fp _).quiet x).bind fun rc y hy => ?_
      have hremove : Quiet (if rc = 0 then removeEntries fp else pure () : FsComp Unit) :=
        Res.follows_ite (quiet_removeEntries fp) (Res.follows_pure ())
      refine (within_quiet hremove y).bind fun _ z hz => ?_
      refine (tfFclose_within (hw'.1.calm (hy.trans hz)) hroom).bind fun _ a ha => ?_
      exact (within_quiet (reading_tfFreeClusterchain _).quiet a).bind fun _ b hb =>
        within_pure (ha.trans hb)

/-! ## The operations -/

inductive FsCall where
  | open (path : CStr) (flags : Nat)
  | read (path : CStr) (user : Bool) (buf : Nat) (offset n : Int)
  | write (path : CStr) (buf : Nat) (offset n : Int)
  | mkdir (path : CStr)
  | touch (path : CStr)
  | rm (path : CStr)
  | getFile (path : CStr)
  | ls (path : CStr) (contents : Nat) (len : Int) (user : Bool)

def FsCall.run : FsCall → FsComp Unit
  | .open path flags => do
    let _ ← Fat32.open path flags
    pure ()
  | .read path user buf offset n =>
    if user then do
      let _ ← Fat32.readUser path buf offset n
      pure ()
    else do
      let _ ← Fat32.read path offset n
      pure ()
  | .write path buf offset n => do
    let _ ← Fat32.write path buf offset n
    pure ()
  | .mkdir path => do
    let _ ← Fat32.mkdir path
    pure ()
  | .touch path => do
    let _ ← Fat32.touch path
    pure ()
  | .rm path => do
    let _ ← Fat32.rm path
    pure ()
  | .getFile path => do
    let _ ← Fat32.getFile path
    pure ()
  | .ls path contents len user => do
    let _ ← Fat32.ls path contents len user
    pure ()

/-- The lookup finds something. -/
def Exists (x : FsComp FilePtr) (s : Fat32) : Prop := ∃ fp t, x s = .ok (.handle fp) t

/-- The lookup finds something that is not a directory. -/
def RegularAt (x : FsComp FilePtr) (s : Fat32) : Prop :=
  ∃ fp t, x s = .ok (.handle fp) t ∧ (t.handles fp).attributes &&& tfAttrDirectory = 0

/-- `ls` of a path that exists, and `open` of a file that is not a directory with the flags
`O_DIRECTORY`; where there is no file, `open` looks once more after `mkdir`. -/
def FsCall.Leaks (s : Fat32) : FsCall → Prop
  | .open path flags => flags = oDirectory ∧ (RegularAt (tfFopen path .r) s ∨
      ∃ t, tfFopen path .r s = .ok .null t ∧
        RegularAt (tfMkdir path >>= fun _ => tfFopen path .r) t)
  | .ls path _ _ _ => Exists (tfFopen path .r) s
  | _ => False

/-- Either all files are closed again, or one is left open. -/
def Balanced (leaks : Prop) (s t : Fat32) : Prop :=
  ¬ leaks ∧ Calm s t ∨ leaks ∧ ∃ fp name, Took s fp name t

theorem Balanced.openHandles {leaks : Prop} (h : Balanced leaks s t) :
    t.openHandles = s.openHandles ↔ ¬ leaks := by
  rcases h with ⟨hnot, hcalm⟩ | ⟨hleaks, fp, name, htook⟩
  · exact ⟨fun _ => hnot, fun _ => hcalm.openHandles⟩
  · refine ⟨fun heq => absurd ?_ htook.not_mem, fun h => absurd hleaks h⟩
    rw [← heq, htook.openHandles]
    exact Finset.mem_insert_self fp _

theorem openFound_within {flags : Nat} {name : CStr} {p : FilePtr} (h : Opened s name p t)
    (hfree : room → s.Free) :
    Within room t (fun _ u => Balanced (flags = oDirectory ∧ ∃ fp, p = .handle fp ∧
      (t.handles fp).attributes &&& tfAttrDirectory = 0) s u) (openFound flags p t) := by
  unfold openFound
  split
  · rename_i hnull
    rw [hnull] at h ⊢
    refine within_pure (Or.inl ⟨?_, h⟩)
    rintro ⟨_, fp, hp, _⟩
    cases hp
  · refine (deref_within h hfree).bind fun fp u hu => ?_
    obtain ⟨rfl, rfl⟩ := hu
    rw [bind_ok (getFile_run u fp)]
    split
    · rename_i hdir
      exact within_pure (Or.inr ⟨⟨hdir.1, fp, rfl, hdir.2⟩, fp, name, h.1⟩)
    · rename_i hdir
      refine (tfFclose_clean h.1 h.2).bind fun _ v hv => within_pure (Or.inl ⟨?_, hv⟩)
      rintro ⟨hflags, fp', hp, hattr⟩
      cases hp
      exact hdir ⟨hflags, hattr⟩

theorem Balanced.congr {leaks leaks' : Prop} (h : Balanced leaks s t) (hiff : leaks ↔ leaks') :
    Balanced leaks' s t := by
  rw [Balanced, ← hiff]
  exact h

theorem open_within (path : CStr) (flags : Nat) (s : Fat32) (hroom : room → s.Room) :
    Within room s (fun _ t => Balanced ((FsCall.open path flags).Leaks s) s t)
      (Fat32.open path flags s) := by
  have hfree : room → s.Free := fun hr => (hroom hr).free
  refine (tfFopen_within path _ s hfree fun hr _ => hroom hr).bind_eq fun p t hrun ht => ?_
  obtain ⟨name, ht⟩ := ht
  have hmode : flags = oDirectory → (if flags &&& oCreate ≠ 0 then Mode.w else .r) = .r := by
    intro hflags
    rw [hflags]
    rfl
  split
  · rename_i hnull
    have hrun' : tfFopen path .r s = .ok .null t := by
      rw [← hmode hnull.2, hrun, hnull.1]
    have hcalm : Calm s t := by
      rw [hnull.1] at ht
      exact ht
    have hsecond : Within room t (fun p u => ∃ name, Opened s name p u)
        ((tfMkdir path >>= fun _ => tfFopen path .r) t) := by
      refine (tfMkdir_within path t fun hr => hcalm.room_iff.mpr (hroom hr)).bind fun _ u hu => ?_
      refine (lookup_opened path u fun hr => (hcalm.trans hu).free.mpr (hfree hr)).mono id
        fun p v hv => ?_
      obtain ⟨name, hv⟩ := hv
      exact ⟨name, hv.after (hcalm.trans hu)⟩
    rw [← bind_assoc_apply]
    refine hsecond.bind_eq fun p' u hrun2 hu => ?_
    obtain ⟨name', hu⟩ := hu
    refine (openFound_within hu hfree).mono id fun r v hv => hv.congr ?_
    constructor
    · rintro ⟨_, fp, rfl, hattr⟩
      exact ⟨hnull.2, Or.inr ⟨t, hrun', fp, u, hrun2, hattr⟩⟩
    · rintro ⟨_, ⟨fp, w, hw, _⟩ | ⟨w, hw, fp, x, hx, hattr⟩⟩
      · rw [hrun'] at hw
        cases hw
      · rw [hrun'] at hw
        cases hw
        rw [hrun2] at hx
        cases hx
        exact ⟨hnull.2, fp, rfl, hattr⟩
  · rename_i hnot
    refine (openFound_within ht hfree).mono id fun r u hu => hu.congr ?_
    constructor
    · rintro ⟨hflags, fp, rfl, hattr⟩
      rw [hmode hflags] at hrun
      exact ⟨hflags, Or.inl ⟨fp, t, hrun, hattr⟩⟩
    · rintro ⟨hflags, ⟨fp, w, hw, hattr⟩ | ⟨w, hw, _⟩⟩
      · rw [hmode hflags, hw] at hrun
        cases hrun
        exact ⟨hflags, fp, rfl, hattr⟩
      · rw [hmode hflags, hw] at hrun
        cases hrun
        exact absurd ⟨rfl, hflags⟩ hnot

theorem reading_eitherCopyout (user : Bool) (dst : Int) (src : List UInt8) :
    Reading (eitherCopyout user dst src) :=
  Res.follows_bind Res.follows_read fun _ =>
    Res.follows_ite (reading_onMemory (harmless_copyout _ _ _))
      (Res.follows_bind (reading_onMemory (harmless_modify _)) fun _ => Res.follows_pure _)

theorem reading_copySfn (e : FatFileEntry) (dst : Int) (user : Bool) :
    Reading (copySfn e dst user) :=
  Res.follows_bind (reading_eitherCopyout _ _ _) fun _ =>
    Res.follows_ite (Res.follows_pure _) (Res.follows_bind (reading_eitherCopyout _ _ _) fun _ =>
      Res.follows_bind (reading_eitherCopyout _ _ _) fun _ => Res.follows_pure _)

theorem reading_copyLfn (e : FatFileEntry) (dst : Int) (user : Bool) :
    Reading (copyLfn e dst user) :=
  Res.follows_bind (reading_eitherCopyout _ _ _) fun _ =>
    Res.follows_ite (Res.follows_fault panic_ne_badFile)
      (Res.follows_bind (reading_eitherCopyout _ _ _) fun _ =>
        Res.follows_bind (reading_eitherCopyout _ _ _) fun _ => Res.follows_pure _)

theorem reading_lsLfn (fp contents : Nat) (user : Bool) (entry : FatFileEntry) :
    Reading (lsLfn fp contents user entry) := by
  have hround : ∀ m p, Reading (lsLfnRound fp m contents user p) := by
    rintro m ⟨i, n⟩
    exact Res.follows_ite (Res.follows_pure _) (Res.follows_bind (reading_tfFread _ _) fun _ =>
      Res.follows_ite (Res.follows_pure _) (Res.follows_bind (reading_copyLfn _ _ _) fun _ =>
        Res.follows_pure _))
  refine Res.follows_bind (reading_copyLfn _ _ _) fun n =>
    Res.follows_bind (Res.follows_loop diverge_ne_badFile (hround _) _ _) fun r => ?_
  cases r with
  | none => exact Res.follows_pure _
  | some n => exact Res.follows_bind (reading_tfFread _ _) fun _ => Res.follows_pure _

theorem reading_lsRound (fp : Nat) (len : Int) (user : Bool) (p : Nat × Nat) :
    Reading (lsRound fp len user p) := by
  obtain ⟨contents, readn⟩ := p
  refine Res.follows_bind (reading_tfFread _ _) fun entry =>
    Res.follows_ite (Res.follows_pure _) (Res.follows_ite (Res.follows_pure _)
      (Res.follows_ite (Res.follows_bind (reading_copySfn _ _ _) fun _ =>
        Res.follows_bind (reading_eitherCopyout _ _ _) fun _ => Res.follows_pure _)
        (Res.follows_ite (Res.follows_ite (Res.follows_pure _)
          (Res.follows_bind (reading_lsLfn _ _ _ _) fun r => ?_)) (Res.follows_pure _))))
  cases r with
  | none => exact Res.follows_pure _
  | some e =>
    obtain ⟨entry, n⟩ := e
    exact Res.follows_bind (reading_eitherCopyout _ _ _) fun _ => Res.follows_pure _

theorem reading_freadUserRound (fp : Nat) (p : Nat × Nat × Nat) : Reading (freadUserRound fp p) := by
  obtain ⟨dest, size, n⟩ := p
  exact Res.follows_ite (Res.follows_pure _) (Res.follows_bind (reading_getFile fp) fun _ =>
    Res.follows_bind Res.follows_read fun _ => Res.follows_bind (reading_tfFetch _) fun _ =>
      Res.follows_ite (Res.follows_fault (undefined_ne_badFile (by decide)))
        (Res.follows_bind Res.follows_read fun _ =>
          Res.follows_bind (reading_eitherCopyout _ _ _) fun _ =>
            Res.follows_bind (reading_tfFseek fp _ _) fun _ =>
              Res.follows_ite (Res.follows_pure _) (Res.follows_pure _)))

theorem Took.reading {fp : Nat} {name : CStr} {x : FsComp α}
    (h : Took s fp name t ∧ ¬ (t.handles fp).IsDirty) (hx : Reading x) :
    Within room t (fun _ u => Took s fp name u ∧ ¬ (u.handles fp).IsDirty) (x t) :=
  (within_reading hx t).mono id fun _ _ hu =>
    ⟨h.1.calm hu.toCalm, fun hd => h.2 ((hu.dirty fp h.1.lt).mp hd)⟩

/-- A call that looks its file up; `tail` is the rest of it, which closes the file. -/
theorem lookup_within {path : CStr} {none : β} {tail : Nat → FsComp β}
    (htail : ∀ fp name t, Took s fp name t ∧ ¬ (t.handles fp).IsDirty →
      Within room t (fun _ u => Calm s u) (tail fp t)) (hfree : room → s.Free) :
    Within room s (fun _ t => Calm s t) ((tfFopen path .r >>= fun p =>
      if p = .null then pure none else p.deref >>= tail) s) := by
  refine (lookup_opened path s hfree).bind fun p t ht => ?_
  obtain ⟨name, ht⟩ := ht
  split
  · rename_i hnull
    rw [hnull] at ht
    exact within_pure ht
  · refine (deref_within ht hfree).bind fun fp u hu => ?_
    obtain ⟨rfl, rfl⟩ := hu
    exact htail fp name u ht

theorem write_within (path : CStr) (buf : Nat) (offset n : Int) (s : Fat32)
    (hroom : room → s.Room) :
    Within room s (fun _ t => Calm s t) (Fat32.write path buf offset n s) := by
  have hfree : room → s.Free := fun hr => (hroom hr).free
  refine (tfFopen_within path .p s hfree fun hr _ => hroom hr).bind fun p t ht => ?_
  obtain ⟨name, ht⟩ := ht
  refine (deref_within ht hfree).bind fun fp u hu => ?_
  obtain ⟨rfl, rfl⟩ := hu
  refine (within_reading (reading_tfFseek fp 0 offset) u).bind fun _ v hv => ?_
  refine (within_quiet (quiet_tfFwrite buf n.toNat fp) v).bind fun _ w hw => ?_
  exact (tfFclose_within (ht.1.calm (hv.toCalm.trans hw)) hroom).bind fun _ x hx => within_pure hx

theorem ls_within (path : CStr) (contents : Nat) (len : Int) (user : Bool) (s : Fat32)
    (hfree : room → s.Free) :
    Within room s (fun _ t => Balanced (Exists (tfFopen path .r) s) s t)
      (Fat32.ls path contents len user s) := by
  refine (lookup_opened path s hfree).bind_eq fun p t hrun ht => ?_
  obtain ⟨name, ht⟩ := ht
  split
  · rename_i hnull
    rw [hnull] at ht hrun
    refine within_pure (Or.inl ⟨?_, ht⟩)
    rintro ⟨fp, u, hu⟩
    rw [hrun] at hu
    cases hu
  · refine (deref_within ht hfree).bind fun fp u hu => ?_
    obtain ⟨rfl, rfl⟩ := hu
    have hexists : Exists (tfFopen path .r) s := ⟨fp, u, hrun⟩
    rw [bind_ok (getFile_run u fp)]
    split
    · exact within_pure (Or.inr ⟨hexists, fp, name, ht.1⟩)
    · refine (within_quiet (Reading.quiet (Res.follows_loop diverge_ne_badFile
        (reading_lsRound fp len user) fileRounds (contents, 0))) u).mono id fun r v hv => ?_
      exact Or.inr ⟨hexists, fp, name, ht.1.calm hv⟩

theorem within_discard {Q : Fat32 → Prop} {x : FsComp α} (h : Within room s (fun _ t => Q t) (x s)) :
    Within room s (fun _ t => Q t) ((x >>= fun _ => pure ()) s) :=
  h.bind fun _ _ ht => within_pure ht

theorem Within.balanced {r : Res Fat32 α} {P : Prop} (h : Within room s (fun _ t => Calm s t) r)
    (hP : ¬ P) : Within room s (fun _ t => Balanced P s t) r :=
  h.mono id fun _ _ ht => Or.inl ⟨hP, ht⟩

theorem fsCall_within (call : FsCall) (s : Fat32) (hroom : room → s.Room) :
    Within room s (fun _ t => Balanced (call.Leaks s) s t) (call.run s) := by
  have hfree : room → s.Free := fun hr => (hroom hr).free
  cases call with
  | «open» path flags => exact within_discard (open_within path flags s hroom)
  | read path user buf offset n =>
    cases user with
    | true =>
      refine within_discard (Within.balanced (lookup_within (fun fp name t ht => ?_) hfree)
        not_false)
      refine (Took.reading ht (reading_tfFseek fp 0 offset)).bind fun _ u hu => ?_
      refine (Took.reading hu (Res.follows_loop diverge_ne_badFile (reading_freadUserRound fp)
        fileRounds (buf, n.toNat, 0))).bind fun _ v hv => ?_
      exact (tfFclose_clean hv.1 hv.2).bind fun _ w hw => within_pure hw
    | false =>
      refine within_discard (Within.balanced (lookup_within (fun fp name t ht => ?_) hfree)
        not_false)
      refine (Took.reading ht (reading_tfFseek fp 0 offset)).bind fun _ u hu => ?_
      refine (Took.reading hu (reading_tfFread n.toNat fp)).bind fun _ v hv => ?_
      exact (tfFclose_clean hv.1 hv.2).bind fun _ w hw => within_pure hw
  | write path buf offset n =>
    exact within_discard ((write_within path buf offset n s hroom).balanced not_false)
  | mkdir path => exact within_discard ((tfMkdir_within path s hroom).balanced not_false)
  | touch path =>
    refine within_discard (Within.balanced ?_ not_false)
    exact (tfCreate_within path s hroom).bind fun _ t ht => within_pure ht
  | rm path =>
    refine within_discard (Within.balanced ?_ not_false)
    exact (tfRemove_within path s hroom).bind fun _ t ht => within_pure ht
  | getFile path =>
    refine within_discard (Within.balanced (lookup_within (fun fp name t ht => ?_) hfree) not_false)
    rw [bind_ok (getFile_run t fp)]
    exact (tfFclose_clean ht.1 ht.2).bind fun _ u hu => within_pure hu
  | ls path contents len user =>
    exact within_discard (ls_within path contents len user s hfree)

/-! ## Runs -/

/-- Where the call ends, no handle has been refused and `(TFFile *)-1` has not been used. -/
def NeverRefused (call : FsCall) (s : Fat32) : Prop :=
  (call.run s).Holds (fun _ t => t.refused = false) fun e t => e ≠ badFile ∧ t.refused = false

/-- A run of operations that starts with all handles free. -/
def FsReach (ok : Fat32 → FsCall → Prop) : Fat32 → Prop :=
  Run.Reach (fun s => s.openHandles = ∅ ∧ s.refused = false)
    (fun s (call : FsCall) t => call.run s = .ok () t) ok

theorem room_of_empty (h : s.openHandles = ∅) : s.Room := by
  rw [Fat32.Room, h]
  decide

/-- A call that returns leaves the same handles open exactly if it does not leak; and while the
calls do not leak, all handles are free between them, and none is ever refused. -/
theorem handles_balanced (call : FsCall) (s : Fat32) :
    (∀ t, call.run s = .ok () t → (t.openHandles = s.openHandles ↔ ¬ call.Leaks s)) ∧
    (FsReach (fun s call => ¬ call.Leaks s) s →
      s.openHandles = ∅ ∧ s.refused = false ∧ NeverRefused call s) := by
  constructor
  · intro t hrun
    have h : Within False s _ _ := fsCall_within call s fun hf => hf.elim
    rw [hrun] at h
    exact h.1.openHandles
  · intro hs
    have hinv : s.openHandles = ∅ ∧ s.refused = false := by
      refine Run.Reach.invariant (I := fun s : Fat32 => s.openHandles = ∅ ∧ s.refused = false)
        (fun _ h => h) (fun s call t hs hok hrun => ?_) hs
      have h : Within True s _ _ := fsCall_within call s fun _ => room_of_empty hs.1
      rw [hrun] at h
      exact ⟨(h.1.openHandles.mpr hok).trans hs.1, (h.2 trivial).trans hs.2⟩
    refine ⟨hinv.1, hinv.2, ?_⟩
    have h : Within True s _ _ := fsCall_within call s fun _ => room_of_empty hinv.1
    exact Res.Holds.mono h (fun _ t ht => (ht.2 trivial).trans hinv.2) fun e t ht =>
      ⟨(ht trivial).1, (ht trivial).2.trans hinv.2⟩

/-! ## Listing the root directory -/

/-- `ls` of `/` keeps a handle. -/
theorem ls_leaks : ¬ ∀ call s t, FsCall.run call s = .ok () t → t.openHandles = s.openHandles := by
  intro hall
  have hrun : ((FsCall.ls [slash] 0 512 false).run blankVolume).value = some () := by
    decide +kernel
  obtain ⟨t, ht⟩ := Res.eq_ok_of_value hrun
  have hlookup : (tfFopen [slash] .r blankVolume).value = some (.handle 0) := by decide +kernel
  obtain ⟨u, hu⟩ := Res.eq_ok_of_value hlookup
  have h : Within False blankVolume _ _ := fsCall_within (FsCall.ls [slash] 0 512 false)
    blankVolume fun hf => hf.elim
  rw [ht] at h
  exact absurd ⟨0, u, hu⟩ (h.1.openHandles.mp (hall _ _ _ ht))

end PageFaultOS
