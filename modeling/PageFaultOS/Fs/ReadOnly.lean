import Mathlib.Tactic
import PageFaultOS.Fs.Lookup
import PageFaultOS.Fs.Balance

/-! The operations that do not write, and the volume. They change it where the lookup or the
reading comes to the end of a chain, and where `open` truncates a file; and nowhere else. -/

namespace PageFaultOS
open Exec Exec.Comp ByteMem

variable {V : View} {fp : Nat} {α β γ : Type} {s t u : Fat32}

namespace View

/-- The file with which the reading stops. -/
def stopAt : Res TFFile β → Option TFFile
  | .ok _ _ => none
  | .fault e c => if e = chainEnd then some c else none

/-- Where a lookup and the reading `y` of the file stop. -/
def visit (V : View) (path : CStr) (y : Comp TFFile β) : Option TFFile :=
  match V.lookup path with
  | .ok true c => stopAt (y c)
  | .ok false _ => none
  | .fault e c => if e = chainEnd then some c else none

/-- What reading leaves, where it stops at `stop` on the view. -/
def After (V : View) (stop : Option TFFile) : Res Fat32 α → Prop
  | .ok _ t =>
    match stop with
    | none => t.volume = V.volume
    | some c => V.Stopped c t
  | .fault _ t => stop = none → t.volume = V.volume

/-- The state is on the view. -/
def On (V : View) (s : Fat32) : Prop := s.Coherent ∧ s.view = V

theorem On.volume (h : V.On s) : s.volume = V.volume := congrArg View.volume h.2

theorem On.good (h : V.On s) : (V.setting fp).Good s :=
  ⟨h.1, congrArg View.shape h.2, congrArg View.stale h.2⟩

/-- What a lookup leaves, and the file that it finds. -/
def Looked (V : View) (y : Res TFFile Bool) : Res Fat32 FilePtr → Prop
  | .ok p t => p = .invalid ∧ V.On t ∨
    match y with
    | .ok true c => ∃ fp, p = .handle fp ∧ (V.setting fp).R t c
    | .ok false _ => p = .null ∧ V.On t
    | .fault e c => e = chainEnd ∧ V.Stopped c t
  | .fault _ t => (∃ c, y = .fault chainEnd c) ∨ V.On t

end View

theorem after_of_agrees {y : Res TFFile α} {r : Res Fat32 α} (h : (V.setting fp).Agrees y r) :
    V.After (View.stopAt y) r := by
  cases r with
  | ok b t =>
    cases y with
    | ok a c => exact congrArg View.volume h.2.2.1
    | fault e c =>
      obtain ⟨hstop, hstopped⟩ := h
      have hstop' : e = View.chainEnd := hstop
      rw [View.stopAt, if_pos hstop']
      exact hstopped
  | fault e t =>
    intro hnone
    rcases h with ⟨c, hc⟩ | ⟨c, hc⟩
    · rw [hc, View.stopAt] at hnone
      have hstop : (V.setting fp).stop = View.chainEnd := rfl
      rw [if_pos hstop] at hnone
      cases hnone
    · exact congrArg View.volume hc.2.1

/-! ## Looking a path up -/

/-- What `tf_fnopen` does when it has followed the path. -/
def afterWalk (mode : Mode) (myfile : CStr) (fp : Nat) (found : Bool) : FsComp FilePtr := do
  if found = false then do
    tfReleaseHandle fp
    pure .null
  else do
    (if mode.write then truncate fp else pure () : FsComp Unit)
    modifyFile fp fun f => { f with filename := myfile }
    pure (.handle fp)

theorem tfFnopen_start (filename : CStr) (mode : Mode) {n : Nat} (hn : n < 256) (s : Fat32) :
    tfFnopen filename mode n s = .ok .invalid { s with refused := true } ∨
    ∃ fp f, f.anon = View.root ∧ tfFnopen filename mode n s =
      (loop (walkRound fp) fileRounds (filename.take n) >>=
        afterWalk mode (filename.take n) fp) (s.setFile fp f) := by
  unfold tfFnopen
  rcases tfGetFreeHandle_cases s with ⟨_, hrun⟩ | ⟨fp, _, _, hrun⟩
  · rw [bind_ok hrun]
    exact Or.inl rfl
  · refine Or.inr ⟨fp, rootFile { s.handles fp with flags := tfFlagOpen }, rfl, ?_⟩
    rw [bind_ok hrun]
    simp only
    rw [if_neg (by omega), bind_ok (modifyFile_run _ fp rootFile), Fat32.setFile_self]
    have htwice : (s.setFile fp { s.handles fp with flags := tfFlagOpen }).setFile fp
        (rootFile { s.handles fp with flags := tfFlagOpen }) =
        s.setFile fp (rootFile { s.handles fp with flags := tfFlagOpen }) := by
      rw [Fat32.setFile, Fat32.setFile, Fat32.setFile]
      simp only [Function.update_idem]
    rw [htwice]
    rfl

theorem tfFnopen_long (filename : CStr) (mode : Mode) {n : Nat} (hn : 256 ≤ n) (s : Fat32) :
    tfFnopen filename mode n s = .ok .invalid { s with refused := true } ∨
    ∃ fp f, tfFnopen filename mode n s = .fault (.undefined "myfile") (s.setFile fp f) := by
  unfold tfFnopen
  rcases tfGetFreeHandle_cases s with ⟨_, hrun⟩ | ⟨fp, _, _, hrun⟩
  · rw [bind_ok hrun]
    exact Or.inl rfl
  · refine Or.inr ⟨fp, { s.handles fp with flags := tfFlagOpen }, ?_⟩
    rw [bind_ok hrun]
    simp only
    rw [if_pos hn]
    rfl

/-- Nothing but files has changed. -/
structure Untouched (s t : Fat32) : Prop where
  info : t.info = s.info
  disk : t.disk = s.disk
  stale : t.stale = s.stale

theorem untouched_setFile (s : Fat32) (fp : Nat) (f : TFFile) : Untouched s (s.setFile fp f) :=
  ⟨rfl, rfl, rfl⟩

theorem Untouched.trans (h : Untouched s t) (h' : Untouched t u) : Untouched s u :=
  ⟨h'.info.trans h.info, h'.disk.trans h.disk, h'.stale.trans h.stale⟩

section
variable (h : Untouched s t)
include h

theorem Untouched.volume : t.volume = s.volume := by
  rw [Fat32.volume, Fat32.volume, h.info, h.disk]

theorem Untouched.coherent (hs : s.Coherent) : t.Coherent := by
  intro hd
  rw [h.info] at hd
  rw [h.volume, h.disk]
  exact hs hd

theorem Untouched.on (hs : V.On s) : V.On t := by
  refine ⟨h.coherent hs.1, ?_⟩
  rw [← hs.2, Fat32.view, Fat32.view, h.volume, h.info, h.stale]

theorem Untouched.good (hs : (V.setting fp).Good s) : (V.setting fp).Good t := by
  refine ⟨h.coherent hs.1, ?_, h.stale.trans hs.2.2⟩
  rw [h.info]
  exact hs.2.1

theorem Untouched.links : V.Links s t := by
  intro _ c _ _
  rw [h.volume]

theorem Untouched.stopped {c : TFFile} (hs : V.Stopped c s) : V.Stopped c t :=
  (V.setting 0).stopped_mono hs (h.good ((V.setting 0).stopped_good hs)) h.links

end

/-- The end of `tf_fnopen` for reading. -/
theorem afterWalk_run (myfile : CStr) (fp : Nat) (found : Bool) (s : Fat32) :
    ∃ f, afterWalk .r myfile fp found s =
        .ok (if found = false then .null else .handle fp) (s.setFile fp f) ∧
      (found = true → f.anon = (s.handles fp).anon) := by
  cases found with
  | false => exact ⟨_, rfl, fun h => by cases h⟩
  | true => exact ⟨_, rfl, fun _ => rfl⟩

/-- The loop of `tf_fnopen`. -/
theorem walk_loop_sees (V : View) (fp n : Nat) (path : CStr) :
    V.Sees fp (loop (walkRound fp) n path) (loop V.walkRound n path) :=
  Setting.sim_loop sees_walkRound n path

theorem tfFnopen_looked {path : CStr} (hn : path.length < 256) (hs : V.On s) :
    V.Looked (loop V.walkRound fileRounds path View.root) (tfFnopen path .r path.length s) := by
  rcases tfFnopen_start path .r hn s with hrun | ⟨fp, f, hroot, hrun⟩
  · rw [hrun]
    exact Or.inl ⟨rfl, (⟨rfl, rfl, rfl⟩ : Untouched s _).on hs⟩
  · rw [hrun, List.take_length]
    have hstart := (untouched_setFile s fp f).on hs
    have hloop := (walk_loop_sees V fp fileRounds path).run (s.setFile fp f)
      View.root ⟨hstart.1, hstart.2, by rw [s.setFile_self, hroot]⟩
    cases hx : loop (walkRound fp) fileRounds path (s.setFile fp f) with
    | fault e t =>
      rw [hx] at hloop
      rw [bind_fault hx]
      exact hloop.imp id fun ⟨c, hc⟩ => ⟨hc.1, hc.2.1⟩
    | ok found t =>
      rw [hx] at hloop
      obtain ⟨g, hafter, hg⟩ := afterWalk_run path fp found t
      have huntouched := untouched_setFile t fp g
      rw [bind_ok hx, hafter]
      cases hy : loop V.walkRound fileRounds path View.root with
      | fault e c =>
        rw [hy] at hloop
        exact Or.inr ⟨hloop.1, huntouched.stopped hloop.2⟩
      | ok b c =>
        rw [hy] at hloop
        obtain ⟨rfl, hrel⟩ := hloop
        have hon := huntouched.on ⟨hrel.1, hrel.2.1⟩
        cases found with
        | false => exact Or.inr ⟨rfl, hon⟩
        | true =>
          refine Or.inr ⟨fp, rfl, hon.1, hon.2, ?_⟩
          rw [t.setFile_self, hg rfl]
          exact hrel.2.2

theorem tfFnopen_keeps {path : CStr} {p : FilePtr} (hn : path.length < 256)
    (hs : (V.setting 0).Good s) (hrun : tfFnopen path .r path.length s = .ok p t) :
    (V.setting 0).Good t ∧ V.Links s t := by
  rcases tfFnopen_start path .r hn s with hinvalid | ⟨fp, f, _, hstart⟩
  · rw [hinvalid] at hrun
    cases hrun
    have h : Untouched s { s with refused := true } := ⟨rfl, rfl, rfl⟩
    exact ⟨h.good hs, h.links⟩
  · rw [hstart, List.take_length] at hrun
    obtain ⟨found, u, hloop, hafter⟩ := bind_eq_ok.mp hrun
    have h1 := untouched_setFile s fp f
    have h2 := (walk_loop_sees V fp fileRounds path).keeps _ _ _ (h1.good hs) hloop
    obtain ⟨g, hafter', _⟩ := afterWalk_run path fp found u
    rw [hafter'] at hafter
    cases hafter
    have h3 := untouched_setFile u fp g
    exact ⟨h3.good h2.1, (V.setting 0).trans h1.links ((V.setting 0).trans h2.2 h3.links)⟩

/-- A lookup for reading. -/
theorem tfFopen_looked (path : CStr) (hs : V.On s) : V.Looked (V.lookup path) (tfFopen path .r s) := by
  unfold tfFopen View.lookup
  by_cases hparent : isParentPath path = true
  · rw [if_pos hparent, if_pos hparent]
    exact Or.inr ⟨rfl, hs⟩
  · rw [if_neg hparent, if_neg hparent]
    generalize stripDot path = name
    by_cases hn : 256 ≤ name.length
    · rw [if_pos hn]
      rcases tfFnopen_long name .r hn s with hrun | ⟨fp, f, hrun⟩
      · rw [bind_ok hrun]
        exact Or.inl ⟨rfl, (⟨rfl, rfl, rfl⟩ : Untouched s _).on hs⟩
      · rw [bind_fault hrun]
        exact Or.inr ((untouched_setFile s fp f).on hs)
    · rw [if_neg hn]
      have hlooked := tfFnopen_looked (Nat.lt_of_not_le hn) hs
      cases hx : tfFnopen name .r name.length s with
      | fault e t =>
        rw [hx] at hlooked
        rw [bind_fault hx]
        exact hlooked
      | ok p t =>
        rw [hx] at hlooked
        rw [bind_ok hx]
        by_cases hp : p = .null
        · -- the second attempt
          rw [if_pos hp]
          show V.Looked _ (tfFnopen name .r name.length t)
          rcases hlooked with ⟨hinvalid, _⟩ | hlooked
          · rw [hinvalid] at hp
            cases hp
          · cases hy : loop V.walkRound fileRounds name View.root with
            | ok found c =>
              rw [hy] at hlooked
              cases found with
              | true =>
                obtain ⟨fp, hfp, _⟩ := hlooked
                rw [hfp] at hp
                cases hp
              | false =>
                rw [← hy]
                exact tfFnopen_looked (Nat.lt_of_not_le hn) hlooked.2
            | fault e c =>
              rw [hy] at hlooked
              obtain ⟨hstop, hstopped⟩ := hlooked
              cases hx' : tfFnopen name .r name.length t with
              | ok q u =>
                have hkeep := tfFnopen_keeps (Nat.lt_of_not_le hn)
                  ((V.setting 0).stopped_good hstopped) hx'
                exact Or.inr ⟨hstop, (V.setting 0).stopped_mono hstopped hkeep.1 hkeep.2⟩
              | fault e' u => exact Or.inl ⟨c, by rw [hstop]⟩
        · rw [if_neg hp]
          exact hlooked

/-! ## Reading a file and closing it -/

/-- What `x` leaves, code that only changes files leaves too. -/
theorem after_untouched {stop : Option TFFile} {x : FsComp β} {k : β → FsComp γ}
    (hx : V.After stop (x s)) (hk : ∀ b u, x s = .ok b u →
      (k b u).Holds (fun _ w => Untouched u w) fun _ w => Untouched u w) :
    V.After stop ((x >>= k) s) := by
  cases hrun : x s with
  | fault e u =>
    rw [hrun] at hx
    rw [bind_fault hrun]
    exact hx
  | ok b u =>
    rw [hrun] at hx
    rw [bind_ok hrun]
    have hafter := hk b u hrun
    cases hrun' : k b u with
    | ok a w =>
      rw [hrun'] at hafter
      cases stop with
      | none => exact hafter.volume.trans hx
      | some c => exact hafter.stopped hx
    | fault e w =>
      rw [hrun'] at hafter
      intro hnone
      rw [hnone] at hx
      exact hafter.volume.trans hx

theorem after_stopped {c : TFFile} {x : FsComp α} {y : Comp TFFile α} (hx : V.Sees fp x y)
    (hs : V.Stopped c s) : V.After (some c) (x s) := by
  cases hrun : x s with
  | ok a t =>
    have hkeep := hx.keeps s a t ((V.setting fp).stopped_good hs) hrun
    exact (V.setting fp).stopped_mono hs hkeep.1 hkeep.2
  | fault e t => exact fun hnone => by cases hnone

/-- A clean file. -/
def Clean (s : Fat32) (fp : Nat) : Prop := fp < tfFileHandles ∧ ¬ (s.handles fp).IsDirty

theorem Clean.reading {x : FsComp α} {a : α} (h : Clean s fp) (hx : Reading x)
    (hrun : x s = .ok a t) : Clean t fp := by
  have hsettled := hx s
  rw [hrun] at hsettled
  exact ⟨h.1, fun hd => h.2 ((hsettled.dirty fp h.1).mp hd)⟩

theorem tfFopen_clean {path : CStr} {mode : Mode} (hrun : tfFopen path mode s = .ok (.handle fp) t) :
    Clean t fp := by
  have h : Within False s _ _ := tfFopen_within path mode s (fun hf => hf.elim) fun hf _ => hf.elim
  rw [hrun] at h
  obtain ⟨⟨name, htook, hclean⟩, _⟩ := h
  exact ⟨htook.lt, hclean⟩

theorem tfFclose_untouched (h : Clean s fp) :
    ∃ f, tfFclose fp s = .ok 0 (s.setFile fp f) := by
  have hflush : tfFflush flushDepth fp s = .ok 0 s := by
    unfold flushDepth tfFflush
    rw [bind_ok (getFile_run s fp), if_pos (not_not.mp h.2)]
    rfl
  unfold tfFclose
  rw [bind_ok hflush]
  exact ⟨_, rfl⟩

/-- A lookup, the reading `x` of the file, and what is done when it has been read. -/
theorem visit_after (path : CStr) (x : Nat → FsComp β) {y : Comp TFFile β}
    (tail : Nat → β → FsComp γ) (missing : γ) (hs : V.On s) (hx : ∀ fp, V.Sees fp (x fp) y)
    (hreading : ∀ fp, Reading (x fp)) (htail : ∀ fp b u, Clean u fp →
      (tail fp b u).Holds (fun _ w => Untouched u w) fun _ w => Untouched u w) :
    V.After (V.visit path y) ((tfFopen path .r >>= fun p =>
      if p = .null then pure missing else p.deref >>= fun fp => x fp >>= tail fp) s) := by
  have hlooked := tfFopen_looked path hs
  unfold View.visit
  cases hrun : tfFopen path .r s with
  | fault e t =>
    rw [hrun] at hlooked
    rw [bind_fault hrun]
    intro hnone
    rcases hlooked with ⟨c, hc⟩ | hon
    · rw [hc] at hnone
      simp only [if_true] at hnone
      cases hnone
    · exact hon.volume
  | ok p t =>
    rw [hrun] at hlooked
    rw [bind_ok hrun]
    have hclean : ∀ fp, p = .handle fp → ∀ stop, V.After stop (x fp t) →
        V.After stop ((x fp >>= tail fp) t) := by
      intro fp hfp stop hafter
      rw [hfp] at hrun
      exact after_untouched hafter fun b u hu =>
        htail fp b u ((tfFopen_clean hrun).reading (hreading fp) hu)
    rcases hlooked with ⟨hinvalid, hon⟩ | hlooked
    · rw [hinvalid]
      exact fun _ => hon.volume
    · cases hy : V.lookup path with
      | ok found c =>
        rw [hy] at hlooked
        cases found with
        | true =>
          obtain ⟨fp, hfp, hrel⟩ := hlooked
          have hafter := hclean fp hfp _ (after_of_agrees ((hx fp).run t c hrel))
          rw [hfp]
          exact hafter
        | false =>
          rw [hlooked.1]
          exact hlooked.2.volume
      | fault e c =>
        rw [hy] at hlooked
        obtain ⟨hstop, hstopped⟩ := hlooked
        simp only [hstop, if_true]
        cases p with
        | null => exact hstopped
        | invalid => exact fun hnone => by cases hnone
        | handle fp => exact hclean fp rfl _ (after_stopped (hx fp) hstopped)

/-! ## Truncating -/

instance : Std.Refl Untouched := ⟨fun _ => ⟨rfl, rfl, rfl⟩⟩

instance : IsTrans Fat32 Untouched := ⟨fun _ _ _ h h' => h.trans h'⟩

/-- Code that only changes files. -/
abbrev FilesOnly (x : FsComp α) : Prop := Res.Follows Untouched (fun _ => True) x

theorem filesOnly_modifyFile (fp : Nat) (g : TFFile → TFFile) : FilesOnly (modifyFile fp g) :=
  Res.follows_modify fun s => untouched_setFile s fp _

theorem filesOnly_getFile (fp : Nat) : FilesOnly (getFile fp) :=
  Res.follows_bind Res.follows_read fun _ => Res.follows_pure _

/-- The first cluster is found without a look at the FAT. -/
theorem filesOnly_seekCluster_zero (fp : Nat) : FilesOnly (seekCluster fp 0) := by
  have hloop : ∀ f : TFFile, FilesOnly (loop (seekRound fp) fileRounds (0 - f.currentClusterIdx)) := by
    intro f s
    rw [Nat.zero_sub]
    exact (⟨rfl, rfl, rfl⟩ : Untouched s s)
  refine Res.follows_bind (filesOnly_getFile fp) fun f => Res.follows_ite (Res.follows_pure _)
    (Res.follows_ite (Res.follows_bind (filesOnly_modifyFile _ _) fun _ => hloop f)
      (Res.follows_bind (filesOnly_modifyFile _ _) fun _ => ?_))
  have hzero := hloop { f with currentClusterIdx := 0 }
  exact hzero

theorem filesOnly_tfUnsafeFseek_zero (fp : Nat) : FilesOnly (tfUnsafeFseek fp 0 0) := by
  refine Res.follows_bind (filesOnly_getFile fp) fun _ => Res.follows_ite (Res.follows_pure _)
    (Res.follows_bind (Res.follows_bind (filesOnly_getFile fp) fun _ =>
      Res.follows_ite (filesOnly_modifyFile _ _) (Res.follows_pure _)) fun _ =>
        Res.follows_bind Res.follows_read fun s => Res.follows_bind ?_ fun _ =>
          Res.follows_ite (Res.follows_pure _)
            (Res.follows_bind (filesOnly_modifyFile _ _) fun _ => Res.follows_pure _))
  rw [Int.add_zero, toLong_zero, Int.zero_tdiv]
  exact filesOnly_seekCluster_zero fp

/-- The cache stays coherent, and the volume has its shape. -/
def Sane (s t : Fat32) : Prop := s.Coherent → t.Coherent ∧ t.info.shape = s.info.shape

instance : Std.Refl Sane := ⟨fun _ h => ⟨h, rfl⟩⟩

instance : IsTrans Fat32 Sane := ⟨fun _ _ _ h h' hs =>
  ⟨(h' (h hs).1).1, (h' (h hs).1).2.trans (h hs).2⟩⟩

theorem sane_tfGetFatEntry {c n : Nat} (hrun : tfGetFatEntry c s = .ok n t) : Sane s t := by
  intro hs
  obtain ⟨u, hget, hsame, _⟩ := tfGetFatEntry_run hs c
  rw [hget] at hrun
  cases hrun
  exact ⟨hsame.coherent, hsame.shape⟩

theorem sane_tfSetFatEntry {c n : Nat} (hrun : tfSetFatEntry c n s = .ok () t) : Sane s t := by
  intro hs
  obtain ⟨u, hset, hwritten⟩ := tfSetFatEntry_run hs c n
  rw [hset] at hrun
  cases hrun
  exact ⟨hwritten.coherent, hwritten.shape⟩

theorem sane_freeChain {n : Nat} {p : Nat × Nat} (hrun : loop freeChainRound n p s = .ok () t) :
    Sane s t := by
  induction n generalizing p s with
  | zero => cases hrun
  | succ n ih =>
    obtain ⟨cluster, entry⟩ := p
    rw [loop_succ] at hrun
    obtain ⟨r, u, hround, hrest⟩ := bind_eq_ok.mp hrun
    unfold freeChainRound at hround
    simp only at hround
    split at hround
    · cases hround
      cases hrest
      exact refl_of Sane _
    · split at hround
      · cases hround
        cases hrest
        exact refl_of Sane _
      · obtain ⟨_, v, hset, hround⟩ := bind_eq_ok.mp hround
        obtain ⟨next, w, hget, hround⟩ := bind_eq_ok.mp hround
        cases hround
        exact trans_of Sane (sane_tfSetFatEntry hset)
          (trans_of Sane (sane_tfGetFatEntry hget) (ih hrest))

/-- `tf_fnopen` truncates the file: it is not a directory, and has more than one cluster. -/
def Shortened (V : View) (c : TFFile) : Prop :=
  c.attributes &&& tfAttrDirectory = 0 ∧ V.entry c.startCluster ≠ tfMarkEoc32

/-- What truncating leaves of the volume. -/
theorem truncate_after {c : TFFile} (hs : (V.setting fp).R s c) :
    (¬ Shortened V c → (truncate fp s).Holds (fun _ t => t.volume = V.volume)
      fun _ t => t.volume = V.volume) ∧
    ∀ t, Shortened V c → truncate fp s = .ok () t →
      fatEntry V.shape t.volume c.startCluster = tfMarkEoc32 := by
  obtain ⟨hco, rfl, rfl⟩ := hs
  unfold Shortened truncate
  rw [bind_ok (getFile_run s fp)]
  by_cases hdir : (s.handles fp).attributes &&& tfAttrDirectory = 0
  · rw [if_pos hdir, bind_ok (modifyFile_run s fp _)]
    have h1 := untouched_setFile s fp { s.handles fp with size := 0 }
    have h2 := filesOnly_tfUnsafeFseek_zero fp (s.setFile fp { s.handles fp with size := 0 })
    cases hseek : tfUnsafeFseek fp 0 0 (s.setFile fp { s.handles fp with size := 0 }) with
    | fault e u =>
      rw [hseek] at h2
      rw [bind_fault hseek]
      exact ⟨fun _ => (h1.trans h2.2).volume, fun t _ hrun => by cases hrun⟩
    | ok r u =>
      rw [hseek] at h2
      rw [bind_ok hseek]
      have hto : Untouched s u := h1.trans h2
      obtain ⟨w, hget, hsame, _⟩ := tfGetFatEntry_run (hto.coherent hco) (s.handles fp).startCluster
      rw [hto.info, hto.volume] at hget
      rw [bind_ok hget]
      by_cases hlast : fatEntry s.info.shape s.volume (s.handles fp).startCluster = tfMarkEoc32
      · rw [if_neg (not_not_intro hlast)]
        exact ⟨fun _ => hsame.volume.trans hto.volume, fun t h _ => absurd hlast h.2⟩
      · rw [if_pos hlast]
        refine ⟨fun h => absurd ⟨hdir, hlast⟩ h, fun t _ hrun => ?_⟩
        obtain ⟨_, x, hfree, hset⟩ := bind_eq_ok.mp hrun
        obtain ⟨entry, y, hget', hloop⟩ := bind_eq_ok.mp hfree
        have hsane := trans_of Sane (sane_tfGetFatEntry hget') (sane_freeChain hloop)
          hsame.coherent
        obtain ⟨z, hset', hwritten⟩ :=
          tfSetFatEntry_run hsane.1 (s.handles fp).startCluster tfMarkEoc32
        rw [hset'] at hset
        cases hset
        have hshape : x.info.shape = s.info.shape := by
          rw [hsane.2, hsame.shape, hto.info]
        rw [hwritten.volume, hshape]
        exact fatEntry_setEntry_same _ _ rfl
  · rw [if_neg hdir]
    exact ⟨fun _ => rfl, fun t h _ => absurd h.1 hdir⟩

/-! ## Opening -/

/-- `open` for writing, where the lookup does not stop: the file is found on the view, and then
truncated. -/
theorem tfFopen_write {path : CStr} (hs : V.On s) (hpresent : ∀ c, V.lookup path ≠ .ok false c)
    (hstop : View.stopAt (V.lookup path) = none) :
    (tfFopen path .w s).Holds
      (fun p t => p = .invalid ∧ V.On t ∨ ∃ fp c u w, V.lookup path = .ok true c ∧
        p = .handle fp ∧ (V.setting fp).R u c ∧ truncate fp u = .ok () w ∧ Untouched w t)
      (fun _ t => V.On t ∨ ∃ fp c u e, V.lookup path = .ok true c ∧ (V.setting fp).R u c ∧
        truncate fp u = .fault e t) := by
  unfold View.lookup at hpresent hstop
  unfold tfFopen View.lookup
  by_cases hparent : isParentPath path = true
  · rw [if_pos hparent] at hpresent
    exact absurd rfl (hpresent View.root)
  · rw [if_neg hparent] at hpresent hstop ⊢
    rw [if_neg hparent]
    generalize stripDot path = name at hpresent hstop ⊢
    by_cases hn : 256 ≤ name.length
    · rcases tfFnopen_long name .w hn s with hrun | ⟨fp, f, hrun⟩
      · rw [bind_ok hrun]
        exact Or.inl ⟨rfl, (⟨rfl, rfl, rfl⟩ : Untouched s _).on hs⟩
      · rw [bind_fault hrun]
        exact Or.inl ((untouched_setFile s fp f).on hs)
    · rw [if_neg hn] at hpresent hstop
      rw [if_neg hn]
      rcases tfFnopen_start name .w (Nat.lt_of_not_le hn) s with hrun | ⟨fp, f, hroot, hrun⟩
      · rw [bind_ok hrun]
        exact Or.inl ⟨rfl, (⟨rfl, rfl, rfl⟩ : Untouched s _).on hs⟩
      · rw [List.take_length] at hrun
        have hstart := (untouched_setFile s fp f).on hs
        have hloop := (walk_loop_sees V fp fileRounds name).run (s.setFile fp f)
          View.root ⟨hstart.1, hstart.2, by rw [s.setFile_self, hroot]⟩
        cases hx : loop (walkRound fp) fileRounds name (s.setFile fp f) with
        | fault e t =>
          rw [hx] at hloop
          rw [bind_fault (hrun.trans (bind_fault hx _))]
          rcases hloop with ⟨c, hc⟩ | ⟨c, hc⟩
          · rw [hc] at hstop
            cases hstop
          · exact Or.inl ⟨hc.1, hc.2.1⟩
        | ok found t =>
          rw [hx] at hloop
          cases hy : loop V.walkRound fileRounds name View.root with
          | fault e c =>
            rw [hy] at hloop hstop
            have hend : e = View.chainEnd := hloop.1
            rw [View.stopAt, if_pos hend] at hstop
            cases hstop
          | ok b c =>
            rw [hy] at hloop hpresent
            obtain ⟨rfl, hrel⟩ := hloop
            cases found with
            | false => exact absurd rfl (hpresent c)
            | true =>
              rw [bind_ok hx] at hrun
              have hafter : afterWalk .w name fp true t = (truncate fp >>= fun _ =>
                  modifyFile fp (fun f => { f with filename := name }) >>= fun _ =>
                    pure (.handle fp)) t := rfl
              rw [hafter] at hrun
              cases htrunc : truncate fp t with
              | fault e u =>
                rw [bind_fault htrunc] at hrun
                rw [bind_fault hrun]
                exact Or.inr ⟨fp, c, t, e, rfl, hrel, htrunc⟩
              | ok a u =>
                rw [bind_ok htrunc] at hrun
                rw [bind_ok hrun]
                exact Or.inr ⟨fp, c, t, u, rfl, rfl, hrel, htrunc, untouched_setFile u fp _⟩

theorem openFound_untouched (flags : Nat) {p : FilePtr}
    (hclean : ∀ fp, p = .handle fp → Clean s fp) :
    (openFound flags p s).Holds (fun _ t => p ≠ .invalid ∧ Untouched s t)
      fun _ t => Untouched s t := by
  have hrefl : Untouched s s := ⟨rfl, rfl, rfl⟩
  unfold openFound
  cases p with
  | null => exact ⟨fun h => (by cases h), hrefl⟩
  | invalid => exact hrefl
  | handle fp =>
    rw [if_neg (fun h => by cases h)]
    rw [bind_ok (show (FilePtr.handle fp).deref s = .ok fp s from rfl), bind_ok (getFile_run s fp)]
    split
    · exact ⟨fun h => (by cases h), hrefl⟩
    · obtain ⟨f, hclose⟩ := tfFclose_untouched (hclean fp rfl)
      rw [bind_ok hclose]
      exact ⟨fun h => (by cases h), untouched_setFile s fp f⟩

/-- The file that `open` finds is truncated. -/
def Truncates (V : View) (path : CStr) (flags : Nat) : Prop :=
  flags &&& oCreate ≠ 0 ∧ ∃ c, V.lookup path = .ok true c ∧ Shortened V c

/-- The first lookup of `open` finds something. -/
theorem open_found {path : CStr} {flags : Nat} {p : FilePtr} (hp : p ≠ .null)
    (hrun : tfFopen path (if flags &&& oCreate ≠ 0 then .w else .r) s = .ok p t) :
    Fat32.open path flags s = openFound flags p t := by
  unfold Fat32.open
  rw [bind_ok hrun, if_neg fun h => hp h.1]

theorem open_after {path : CStr} {flags : Nat} (hs : V.On s)
    (hpresent : ∀ c, V.lookup path ≠ .ok false c)
    (hstop : View.stopAt (V.lookup path) = none) :
    (¬ Truncates V path flags → (Fat32.open path flags s).Holds
      (fun _ t => t.volume = V.volume) fun _ t => t.volume = V.volume) ∧
    ∀ r t c, Truncates V path flags → V.lookup path = .ok true c →
      Fat32.open path flags s = .ok r t →
        fatEntry V.shape t.volume c.startCluster = tfMarkEoc32 := by
  by_cases hcreate : flags &&& oCreate ≠ 0
  · have hmode : (if flags &&& oCreate ≠ 0 then Mode.w else .r) = .w := if_pos hcreate
    have hopened := tfFopen_write hs hpresent hstop
    cases hrun : tfFopen path (if flags &&& oCreate ≠ 0 then .w else .r) s with
    | fault e t =>
      have hfault : Fat32.open path flags s = .fault e t := bind_fault hrun _
      rw [hmode] at hrun
      rw [hrun] at hopened
      rw [hfault]
      refine ⟨fun hnot => ?_, fun r u c _ _ hok => by cases hok⟩
      rcases hopened with hon | ⟨fp, c, u, e', hfound, hrel, htrunc⟩
      · exact hon.volume
      · have h := (truncate_after hrel).1 fun hc => hnot ⟨hcreate, c, hfound, hc⟩
        rw [htrunc] at h
        exact h
    | ok p t =>
      have hclean : ∀ fp, p = .handle fp → Clean t fp := fun fp hfp =>
        tfFopen_clean (hfp ▸ hrun)
      have hrest := openFound_untouched flags hclean
      have hrun' := hrun
      rw [hmode] at hrun'
      rw [hrun'] at hopened
      rcases hopened with ⟨rfl, hon⟩ | ⟨fp, c, u, w, hfound, rfl, hrel, htrunc, huntouched⟩
      · rw [open_found (fun h => by cases h) hrun]
        refine ⟨fun _ => hrest.mono (fun _ v hv => hv.2.volume.trans hon.volume)
          fun _ v hv => hv.volume.trans hon.volume, fun r v c _ _ hok => ?_⟩
        rw [hok] at hrest
        exact absurd rfl hrest.1
      · rw [open_found (fun h => by cases h) hrun]
        have hafter := truncate_after hrel
        constructor
        · intro hnot
          have h := hafter.1 fun hc => hnot ⟨hcreate, c, hfound, hc⟩
          rw [htrunc] at h
          have hvolume : t.volume = V.volume := huntouched.volume.trans h
          exact hrest.mono (fun _ v hv => hv.2.volume.trans hvolume)
            fun _ v hv => hv.volume.trans hvolume
        · rintro r v d ⟨_, c', hfound', hshort⟩ hd hok
          rw [hfound] at hfound' hd
          cases hfound'
          cases hd
          rw [hok] at hrest
          rw [hrest.2.volume, huntouched.volume]
          exact hafter.2 w hshort htrunc
  · have hmode : (if flags &&& oCreate ≠ 0 then Mode.w else .r) = .r := if_neg hcreate
    refine ⟨fun _ => ?_, fun _ _ _ h => absurd h.1 hcreate⟩
    have hlooked := tfFopen_looked path hs
    cases hrun : tfFopen path (if flags &&& oCreate ≠ 0 then .w else .r) s with
    | fault e t =>
      have hfault : Fat32.open path flags s = .fault e t := bind_fault hrun _
      rw [hmode] at hrun
      rw [hrun] at hlooked
      rw [hfault]
      rcases hlooked with ⟨c, hc⟩ | hon
      · rw [hc] at hstop
        cases hstop
      · exact hon.volume
    | ok p t =>
      have hclean : ∀ fp, p = .handle fp → Clean t fp := fun fp hfp =>
        tfFopen_clean (hfp ▸ hrun)
      have hrest := openFound_untouched flags hclean
      have hrun' := hrun
      rw [hmode] at hrun'
      rw [hrun'] at hlooked
      have hfound : p ≠ .null ∧ V.On t := by
        rcases hlooked with ⟨hinvalid, hon⟩ | hlooked
        · exact ⟨(fun h => by rw [hinvalid] at h; cases h), hon⟩
        · cases hy : V.lookup path with
          | fault e c =>
            rw [hy] at hlooked hstop
            have hend : e = View.chainEnd := hlooked.1
            rw [View.stopAt, if_pos hend] at hstop
            cases hstop
          | ok found c =>
            rw [hy] at hlooked
            cases found with
            | false => exact absurd hy (hpresent c)
            | true =>
              obtain ⟨fp, hfp, hrel⟩ := hlooked
              exact ⟨(fun h => by rw [hfp] at h; cases h), hrel.1, hrel.2.1⟩
      rw [open_found hfound.1 hrun]
      exact hrest.mono (fun _ v hv => hv.2.volume.trans hfound.2.volume)
        fun _ v hv => hv.volume.trans hfound.2.volume

/-! ## The operations that do not write -/

inductive ReadCall where
  | tfFindFile (fp : Nat) (name : CStr)
  | getFile (path : CStr)
  | read (path : CStr) (user : Bool) (buf : Nat) (offset n : Int)
  | ls (path : CStr) (contents : Nat) (len : Int) (user : Bool)
  | open (path : CStr) (flags : Nat)

def ReadCall.run : ReadCall → FsComp Unit
  | .tfFindFile fp name => do
    let _ ← PageFaultOS.tfFindFile fp name
    pure ()
  | .getFile path => FsCall.run (.getFile path)
  | .read path user buf offset n => FsCall.run (.read path user buf offset n)
  | .ls path contents len user => FsCall.run (.ls path contents len user)
  | .open path flags => FsCall.run (.open path flags)

/-- `open` is for paths that exist. -/
def ReadCall.Present (V : View) : ReadCall → Prop
  | .open path _ => ∀ c, V.lookup path ≠ .ok false c
  | _ => True

theorem ReadCall.present {call : ReadCall} (h : ∀ path flags, call ≠ .open path flags) :
    call.Present V := by
  cases call with
  | «open» path flags => exact absurd rfl (h path flags)
  | _ => trivial

/-- The file for which a cluster behind the end of its chain is wanted. -/
def ReadCall.pastEnd (s : Fat32) : ReadCall → Option TFFile
  | .tfFindFile fp name => View.stopAt (s.view.tfFindFile name (s.handles fp).anon)
  | .getFile path => View.stopAt (s.view.lookup path)
  | .read path true buf offset n => s.view.visit path (s.view.tfFseek 0 offset >>= fun _ =>
      loop s.view.freadUserRound fileRounds (buf, n.toNat, 0))
  | .read path false _ offset n => s.view.visit path (s.view.tfFseek 0 offset >>= fun _ =>
      s.view.tfFread n.toNat)
  | .ls path contents len _ => s.view.visit path (s.view.ls contents len)
  | .open path _ => View.stopAt (s.view.lookup path)

/-- `open` truncates the file. -/
def ReadCall.Truncates (V : View) : ReadCall → Prop
  | .open path flags => PageFaultOS.Truncates V path flags
  | _ => False

/-- A call that comes neither to the end of a chain nor to a file that it truncates. -/
def ReadCall.Spares (s : Fat32) (call : ReadCall) : Prop :=
  call.pastEnd s = none ∧ ¬ call.Truncates s.view

theorem visit_pure (path : CStr) (b : β) :
    V.visit path (pure b) = View.stopAt (V.lookup path) := by
  unfold View.visit
  cases V.lookup path with
  | ok found c => cases found <;> rfl
  | fault e c => rfl

theorem after_discard {stop : Option TFFile} {x : FsComp α} (h : V.After stop (x s)) :
    V.After stop ((x >>= fun _ => pure ()) s) :=
  after_untouched h fun _ _ _ => ⟨rfl, rfl, rfl⟩

theorem getFile_after (path : CStr) (hs : V.On s) :
    V.After (View.stopAt (V.lookup path)) (Fat32.getFile path s) := by
  have h := visit_after path (fun _ => pure ())
    (fun fp _ => getFile fp >>= fun f => tfFclose fp >>= fun _ => pure (some f.size)) none hs
    (fun _ => Setting.sim_pure ()) (fun _ => Res.follows_pure ()) fun fp _ u hu => by
      obtain ⟨f, hclose⟩ := tfFclose_untouched hu
      rw [bind_ok (getFile_run u fp), bind_ok hclose]
      exact untouched_setFile u fp f
  rw [visit_pure] at h
  exact h

/-- Closing a file that has been read. -/
theorem close_untouched (r : γ) (h : Clean u fp) :
    ((tfFclose fp >>= fun _ => pure r) u).Holds (fun _ w => Untouched u w)
      fun _ w => Untouched u w := by
  obtain ⟨f, hclose⟩ := tfFclose_untouched h
  rw [bind_ok hclose]
  exact untouched_setFile u fp f

/-- `visit_after` for a call that first seeks, then reads. -/
theorem read_after (path : CStr) (offset : Int) {x : Nat → FsComp β} {y : Comp TFFile β}
    (hs : V.On s) (hx : ∀ fp, V.Sees fp (x fp) y) (hreading : ∀ fp, Reading (x fp)) :
    V.After (V.visit path (V.tfFseek 0 offset >>= fun _ => y)) ((tfFopen path .r >>= fun p =>
      if p = .null then pure none else p.deref >>= fun fp => tfFseek fp 0 offset >>= fun _ =>
        x fp >>= fun b => tfFclose fp >>= fun _ => pure (some b)) s) := by
  have h := visit_after path (fun fp => tfFseek fp 0 offset >>= fun _ => x fp)
    (fun fp b => tfFclose fp >>= fun _ => pure (some b)) none hs
    (fun fp => Setting.sim_bind (sees_tfFseek 0 offset) fun _ => hx fp)
    (fun fp => Res.follows_bind (reading_tfFseek fp 0 offset) fun _ => hreading fp)
    fun fp b u hu => close_untouched _ hu
  have hassoc : ∀ fp, ((tfFseek fp 0 offset >>= fun _ => x fp) >>= fun b =>
      tfFclose fp >>= fun _ => pure (some b)) = tfFseek fp 0 offset >>= fun _ =>
        x fp >>= fun b => tfFclose fp >>= fun _ => pure (some b) :=
    fun fp => funext fun s => bind_assoc_apply _ _ _ s
  simp only [hassoc] at h
  exact h

theorem ls_after (path : CStr) (contents : Nat) (len : Int) (user : Bool) (hs : V.On s) :
    V.After (V.visit path (V.ls contents len)) (Fat32.ls path contents len user s) := by
  have hsees : ∀ fp, V.Sees fp (getFile fp >>= fun f =>
      if f.attributes &&& tfAttrDirectory = 0 then pure (-1)
      else loop (lsRound fp len user) fileRounds (contents, 0)) (V.ls contents len) := fun fp =>
    sees_getFile fun _ => Setting.sim_ite (Setting.sim_pure _)
      (Setting.sim_loop (sees_lsRound len user) _ _)
  have hreading : ∀ fp, Reading (getFile fp >>= fun f =>
      if f.attributes &&& tfAttrDirectory = 0 then pure (-1)
      else loop (lsRound fp len user) fileRounds (contents, 0)) := fun fp =>
    Res.follows_bind (reading_getFile fp) fun _ => Res.follows_ite (Res.follows_pure _)
      (Res.follows_loop diverge_ne_badFile (reading_lsRound fp len user) _ _)
  have h := visit_after path _ (fun _ => pure) (-1) hs hsees hreading fun fp b u _ =>
    (⟨rfl, rfl, rfl⟩ : Untouched u u)
  have hpure : ∀ x : FsComp Int, (x >>= pure) = x := by
    intro x
    funext s
    rw [bind_apply]
    cases x s <;> rfl
  simp only [hpure] at h
  exact h

/-- A call other than `open`. -/
theorem readCall_after (call : ReadCall) (hs : V.On s)
    (hopen : ∀ path flags, call ≠ .open path flags) :
    V.After (call.pastEnd s) (call.run s) := by
  have hV := hs.2
  cases call with
  | tfFindFile fp name =>
    have hsees : V.Sees fp (tfFindFile fp name) (V.tfFindFile name) := sees_tfFindFile name
    have h := hsees.run s _ ⟨hs.1, hs.2, rfl⟩
    rw [ReadCall.pastEnd, hV]
    exact after_discard (after_of_agrees h)
  | getFile path =>
    rw [ReadCall.pastEnd, hV]
    exact after_discard (getFile_after path hs)
  | read path user buf offset n =>
    cases user with
    | true =>
      rw [ReadCall.pastEnd, hV]
      exact after_discard (read_after path offset hs
        (fun fp => Setting.sim_loop sees_freadUserRound _ _) fun fp =>
          Res.follows_loop diverge_ne_badFile (reading_freadUserRound fp) _ _)
    | false =>
      rw [ReadCall.pastEnd, hV]
      exact after_discard (read_after path offset hs (fun fp => sees_tfFread _) fun fp =>
        reading_tfFread _ fp)
  | ls path contents len user =>
    rw [ReadCall.pastEnd, hV]
    exact after_discard (ls_after path contents len user hs)
  | «open» path flags => exact absurd rfl (hopen path flags)

/-- `open` for reading that stops. -/
theorem open_stopped {path : CStr} {flags : Nat} {c : TFFile} {r : Option OpenFile} (hs : V.On s)
    (hcreate : flags &&& oCreate = 0) (hflags : flags ≠ oDirectory)
    (hstop : V.lookup path = .fault View.chainEnd c) (hrun : Fat32.open path flags s = .ok r t) :
    V.Stopped c t := by
  have hmode : (if flags &&& oCreate ≠ 0 then Mode.w else .r) = .r :=
    if_neg (not_not_intro hcreate)
  have hlooked := tfFopen_looked path hs
  unfold Fat32.open at hrun
  rw [hmode] at hrun
  obtain ⟨p, u, hopen, hrest⟩ := bind_eq_ok.mp hrun
  rw [if_neg fun h => hflags h.2] at hrest
  have hfound := openFound_untouched flags (p := p) (s := u) fun fp hfp =>
    tfFopen_clean (hfp ▸ hopen)
  rw [hrest] at hfound
  rw [hopen, hstop] at hlooked
  rcases hlooked with ⟨hinvalid, _⟩ | ⟨_, hstopped⟩
  · exact absurd hinvalid hfound.1
  · exact hfound.2.stopped hstopped

/-- Where the call comes to the end of a chain, that is one of the volume's clusters, and it is
not `open` with flags that write. -/
def ReadCall.EndsInside (s : Fat32) (call : ReadCall) : Prop :=
  ∀ c, call.pastEnd s = some c → c.currentCluster < totalClusters s.info.shape ∧
    ∀ path flags, call = .open path flags → flags &&& oCreate = 0 ∧ flags ≠ oDirectory

theorem not_stopped {c : TFFile} (hsound : V.Sound) (hc : c.currentCluster < totalClusters V.shape)
    (h : V.Stopped c t) : t.volume ≠ V.volume := by
  intro heq
  have hlinked := h.linked hsound hc
  rw [heq] at hlinked
  exact hlinked.2 h.last

/-- The end of a chain has grown. -/
theorem volume_ne_of_pastEnd {call : ReadCall} {c : TFFile} (hs : s.Coherent)
    (hopen : ∀ path flags, call ≠ .open path flags) (hsound : s.view.Sound)
    (hc : call.pastEnd s = some c) (hlt : c.currentCluster < totalClusters s.info.shape)
    (hrun : call.run s = .ok () t) : t.volume ≠ s.volume := by
  have hafter := readCall_after (V := s.view) call ⟨hs, rfl⟩ hopen
  rw [hc, hrun] at hafter
  exact not_stopped hsound hlt hafter

theorem stopAt_lookup {path : CStr} {c : TFFile} (h : View.stopAt (V.lookup path) = some c) :
    V.lookup path = .fault View.chainEnd c := by
  cases hy : V.lookup path with
  | ok found d =>
    rw [hy] at h
    cases h
  | fault e d =>
    rw [hy, View.stopAt] at h
    split at h
    · rename_i he
      cases h
      rw [he]
    · cases h

/-- What a lookup finds can be computed. -/
theorem View.lookup_of_decide (V : View) (path : CStr) (p : TFFile → Prop) [DecidablePred p]
    (hfound : (V.lookup path).value = some true)
    (hp : (match V.lookup path with | .ok _ c => decide (p c) | .fault _ _ => true) = true) :
    ∃ c, V.lookup path = .ok true c ∧ p c := by
  obtain ⟨c, hc⟩ := Res.eq_ok_of_value hfound
  rw [hc] at hp
  exact ⟨c, hc, of_decide_eq_true hp⟩

/-- A call that does not write leaves the volume as it is where it comes neither to the end of
a chain nor to a file that it truncates; and on a sound volume only there. -/
theorem reads_spare_volume (call : ReadCall) (s : Fat32) (hs : s.Coherent)
    (hpresent : call.Present s.view) :
    (call.Spares s → (call.run s).Holds (fun _ t => t.volume = s.volume)
      fun _ t => t.volume = s.volume) ∧
    (s.view.Sound → call.EndsInside s → ∀ t, call.run s = .ok () t →
      (t.volume = s.volume ↔ call.Spares s)) := by
  have hon : s.view.On s := ⟨hs, rfl⟩
  have hspares : call.Spares s → (call.run s).Holds (fun _ t => t.volume = s.volume)
      fun _ t => t.volume = s.volume := by
    rintro ⟨hstop, hnot⟩
    by_cases hopen : ∃ path flags, call = .open path flags
    · obtain ⟨path, flags, rfl⟩ := hopen
      exact Res.holds_bind ((open_after hon hpresent hstop).1 hnot) fun _ _ ht => ht
    · have hafter := readCall_after call hon fun path flags h => hopen ⟨path, flags, h⟩
      rw [hstop] at hafter
      cases hrun : call.run s with
      | ok a t =>
        rw [hrun] at hafter
        exact hafter
      | fault e t =>
        rw [hrun] at hafter
        exact hafter rfl
  refine ⟨hspares, fun hsound hinside t hrun => ⟨fun hsame => ?_, fun h => ?_⟩⟩
  · have hstop : call.pastEnd s = none := by
      by_contra hsome
      obtain ⟨c, hc⟩ := Option.ne_none_iff_exists'.mp hsome
      have hend := hinside c hc
      by_cases hopen : ∃ path flags, call = .open path flags
      · obtain ⟨path, flags, rfl⟩ := hopen
        obtain ⟨hcreate, hflags⟩ := hend.2 path flags rfl
        obtain ⟨r, u, hopen, hrest⟩ := bind_eq_ok.mp hrun
        cases hrest
        exact not_stopped hsound hend.1
          (open_stopped hon hcreate hflags (stopAt_lookup hc) hopen) hsame
      · exact volume_ne_of_pastEnd hs (fun path flags h => hopen ⟨path, flags, h⟩) hsound hc
          hend.1 hrun hsame
    refine ⟨hstop, fun htruncates => ?_⟩
    cases call with
    | «open» path flags =>
      obtain ⟨c, hfound, hshort⟩ := htruncates.2
      obtain ⟨r, u, hopen, hrest⟩ := bind_eq_ok.mp hrun
      cases hrest
      have hmark := (open_after hon hpresent hstop).2 r _ c htruncates hfound hopen
      apply hshort.2
      rw [hsame] at hmark
      exact hmark
    | tfFindFile fp name => exact htruncates
    | getFile path => exact htruncates
    | read path user buf offset n => exact htruncates
    | ls path contents len user => exact htruncates
  · have hafter := hspares h
    rw [hrun] at hafter
    exact hafter

/-- The file that is looked for is not there, but its directory ends before its clusters do. -/
theorem reads_spare_volume_blank :
    ((ReadCall.getFile [slash, 0x62]).run blankVolume).Holds
      (fun _ t => t.volume = blankVolume.volume) fun _ t => t.volume = blankVolume.volume :=
  (reads_spare_volume (.getFile [slash, 0x62]) blankVolume blankVolume_coherent trivial).1
    ⟨by decide +kernel, id⟩

/-! ## A full directory -/

/-- The bytes of the entry of a small file with a name of one character. -/
def shortEntryByte (name cluster size i : Nat) : UInt8 :=
  if i = 0 then UInt8.ofNat name
  else if i ≤ 11 then space
  else if i = 26 then UInt8.ofNat cluster
  else if i = 28 then UInt8.ofNat size
  else 0

/-- A root directory of one cluster that is full of files; the other clusters are free. -/
def fullDirectory : Fat32 :=
  { blankVolume with disk := fun a =>
      if a / 512 = 34 then 0x41
      else if a = 2 * 512 ∨ a = 2 * 512 + 1 ∨ a = 2 * 512 + 2 ∨ a = 2 * 512 + 8 ∨
        a = 2 * 512 + 9 ∨ a = 2 * 512 + 10 then 0xff
      else if a = 2 * 512 + 3 ∨ a = 2 * 512 + 11 then 0x0f
      else 0 }

theorem fullDirectory_first {a : Nat} (ha : a < 512) : fullDirectory.disk a = 0 := by
  show (if a / 512 = 34 then (0x41 : UInt8) else _) = 0
  rw [if_neg (by omega), if_neg (by omega), if_neg (by omega)]

theorem fullDirectory_coherent : fullDirectory.Coherent :=
  coherent_of_first_sector fun _ => fullDirectory_first

theorem fullDirectory_sound : fullDirectory.view.Sound := by
  refine ⟨by decide, ?_⟩
  rw [FreeCluster]
  decide

/-- A call of which the run and the view are known. -/
theorem not_all_spared {call : ReadCall} {n : Nat} (hs : s.Coherent)
    (hopen : ∀ path flags, call ≠ .open path flags) (hsound : s.view.Sound)
    (hend : (call.pastEnd s).map (·.currentCluster) = some n)
    (hn : n < totalClusters s.info.shape) (hvalue : (call.run s).value = some ()) :
    ¬ ∀ (call : ReadCall) (s : Fat32), s.Coherent → call.Present s.view →
      (call.run s).Holds (fun _ t => t.volume = s.volume) fun _ t => t.volume = s.volume := by
  intro hall
  have hsame := hall call s hs (ReadCall.present hopen)
  obtain ⟨c, hc, rfl⟩ := Option.map_eq_some_iff.mp hend
  obtain ⟨t, ht⟩ := Res.eq_ok_of_value hvalue
  rw [ht] at hsame
  exact volume_ne_of_pastEnd hs hopen hsound hc hn ht hsame

/-- Looking for a file that is not there makes the full directory longer. -/
theorem lookup_appends : ¬ ∀ (call : ReadCall) (s : Fat32), s.Coherent → call.Present s.view →
    (call.run s).Holds (fun _ t => t.volume = s.volume) fun _ t => t.volume = s.volume := by
  have hend : ((ReadCall.getFile [slash, 0x62]).pastEnd fullDirectory).map
      (·.currentCluster) = some 2 := by decide +kernel
  have hvalue : ((ReadCall.getFile [slash, 0x62]).run fullDirectory).value = some () := by
    decide +kernel
  have htotal : 2 < totalClusters fullDirectory.info.shape := by decide
  have hopen : ∀ path flags, ReadCall.getFile [slash, 0x62] ≠ .open path flags :=
    fun _ _ h => by cases h
  exact not_all_spared fullDirectory_coherent hopen fullDirectory_sound hend htotal hvalue

end PageFaultOS
