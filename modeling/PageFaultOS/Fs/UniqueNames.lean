import Mathlib.Tactic
import PageFaultOS.Fs.Listing
import PageFaultOS.Fs.Creating

/-! No directory has two files with the same name, whatever `touch`, `open` and `mkdir` do, as
long as no lookup appends a cluster to a directory. An appended cluster is not cleared, so that
a directory goes on with the entries that have been left in it. -/

namespace PageFaultOS
open Exec Exec.Comp ByteMem

variable {V : View} {s t u : Fat32} {fp : Nat}

/-! ## Truncating -/

/-- The chain from the cluster `c` stays in the FAT. -/
def View.Enclosed (V : View) (c : Nat) : Prop :=
  Layout V.shape ∧ ∃ K : Set Nat, c ∈ K ∧
    ∀ d ∈ K, d < totalClusters V.shape ∧ (V.entry d ∈ K ∨ V.entry d = tfMarkEoc32)

/-- While the clusters `K` are freed: chains have got shorter, and those in `K` stay there. -/
structure Freeing (V : View) (K : Set Nat) (s : Fat32) : Prop where
  coherent : s.Coherent
  cut : Cut V s.view
  links : ∀ d ∈ K, s.view.entry d ∈ K ∨ s.view.entry d = tfMarkEoc32 ∨ s.view.entry d = 0

section
variable {K : Set Nat} (hlayout : Layout V.shape) (hK : ∀ d ∈ K, d < totalClusters V.shape)

theorem freeing_get {d n : Nat} (h : Freeing V K s) (hd : d ∈ K)
    (hrun : tfGetFatEntry d s = .ok n t) :
    Freeing V K t ∧ (n ∈ K ∨ n = tfMarkEoc32 ∨ n = 0) := by
  obtain ⟨u, hget, hsame, _⟩ := tfGetFatEntry_run h.coherent d
  rw [hget] at hrun
  cases hrun
  have hview := view_of_same hsame
  refine ⟨⟨hsame.coherent, ?_, ?_⟩, h.links d hd⟩
  · rw [hview]
    exact h.cut
  · rw [hview]
    exact h.links

include hlayout hK

theorem freeing_set {d n : Nat} (h : Freeing V K s) (hd : d ∈ K) (hn : n = 0 ∨ n = tfMarkEoc32)
    (hrun : tfSetFatEntry d n s = .ok () t) : Freeing V K t := by
  obtain ⟨u, hset, hwritten⟩ := tfSetFatEntry_run h.coherent d n
  rw [hset] at hrun
  cases hrun
  have hshape : s.info.shape = V.shape := h.cut.shape
  have hmod : n % 2 ^ 32 = n := by
    rcases hn with rfl | rfl <;> rfl
  have hend : ¬ DataCluster V.shape (n % 2 ^ 32) := by
    have hclusters := hlayout.clusters
    rw [hmod, DataCluster]
    rcases hn with rfl | rfl <;> omega
  have hcut : Cut s.view t.view :=
    cut_setEntry hlayout hshape (hwritten.shape.trans hshape)
      (by rw [← hshape]; exact hwritten.volume) (hK d hd) hend
  refine ⟨hwritten.coherent, h.cut.trans hcut, fun e he => ?_⟩
  have hentry : t.view.entry e = fatEntry s.info.shape
      (setEntry s.info.shape s.volume d n) e := by
    rw [← hwritten.volume, ← hwritten.shape]
    rfl
  by_cases heq : fatAddr s.info.shape e = fatAddr s.info.shape d
  · rw [hentry, fatEntry_setEntry_same _ _ heq, hmod]
    exact Or.inr (hn.symm)
  · rw [hentry, fatEntry_setEntry_other _ _ heq]
    exact h.links e he

/-- The loop of `tf_free_clusterchain`. -/
theorem freeing_loop {n : Nat} {p : Nat × Nat} (h : Freeing V K s)
    (hp : p.1 ∈ K ∨ p.2 = tfMarkEoc32 ∨ p.2 = 0) (hnext : p.2 ∈ K ∨ p.2 = tfMarkEoc32 ∨ p.2 = 0)
    (hrun : loop freeChainRound n p s = .ok () t) : Freeing V K t := by
  induction n generalizing p s with
  | zero => cases hrun
  | succ n ih =>
    obtain ⟨cluster, entry⟩ := p
    rw [loop_succ] at hrun
    obtain ⟨r, u, hround, hrest⟩ := bind_eq_ok.mp hrun
    unfold freeChainRound at hround
    simp only at hround hp hnext
    split at hround
    · cases hround
      cases hrest
      exact h
    · rename_i hmark
      split at hround
      · cases hround
        cases hrest
        exact h
      · rename_i hsmall
        have hcluster : cluster ∈ K := hp.resolve_right (by omega)
        have hentry : entry ∈ K := hnext.resolve_right (by omega)
        obtain ⟨_, v, hset, hround⟩ := bind_eq_ok.mp hround
        obtain ⟨next, w, hget, hround⟩ := bind_eq_ok.mp hround
        cases hround
        have hv := freeing_set hlayout hK h hcluster (Or.inl rfl) hset
        obtain ⟨hw, hin⟩ := freeing_get hv hentry hget
        exact ih hw hin hin hrest

end

/-- What `tf_fnopen` does to a file with one cluster, and to one with more. -/
theorem truncate_cases {c : TFFile} (hs : (V.setting fp).R s c)
    (hrun : truncate fp s = .ok () t) : ¬ Shortened V c ∧ V.On t ∨
    Shortened V c ∧ ∃ w, V.On w ∧ (tfFreeClusterchain (V.entry c.startCluster) >>= fun _ =>
      tfSetFatEntry c.startCluster tfMarkEoc32) w = .ok () t := by
  obtain ⟨hco, rfl, rfl⟩ := hs
  unfold truncate at hrun
  rw [bind_ok (getFile_run s fp)] at hrun
  by_cases hdir : (s.handles fp).attributes &&& tfAttrDirectory = 0
  · rw [if_pos hdir, bind_ok (modifyFile_run s fp _)] at hrun
    obtain ⟨r, u, hseek, hrun⟩ := bind_eq_ok.mp hrun
    have hfiles := filesOnly_tfUnsafeFseek_zero fp (s.setFile fp { s.handles fp with size := 0 })
    rw [hseek] at hfiles
    have hto : Untouched s u := (untouched_setFile s fp _).trans hfiles
    obtain ⟨hu, hview⟩ := hto.on (V := s.view) ⟨hco, rfl⟩
    obtain ⟨cluster, w, hget, hrun⟩ := bind_eq_ok.mp hrun
    obtain ⟨w', hget', hsame, _⟩ := tfGetFatEntry_run hu (s.handles fp).startCluster
    rw [hget'] at hget
    cases hget
    have hw : s.view.On w := ⟨hsame.coherent, (view_of_same hsame).trans hview⟩
    have hentry : fatEntry u.info.shape u.volume (s.handles fp).startCluster =
        s.view.entry (s.handles fp).anon.startCluster := by
      rw [← hview]
      rfl
    rw [hentry] at hrun
    split at hrun
    · rename_i hlink
      exact Or.inr ⟨⟨hdir, hlink⟩, w, hw, hrun⟩
    · rename_i hlast
      cases hrun
      exact Or.inl ⟨fun hshort => hlast hshort.2, hw⟩
  · rw [if_neg hdir] at hrun
    cases hrun
    exact Or.inl ⟨fun hshort => hdir hshort.1, hco, rfl⟩

/-- Truncating a file whose chain stays in the FAT makes chains shorter. -/
theorem truncate_cut {c : TFFile} (hs : (V.setting fp).R s c)
    (henclosed : Shortened V c → V.Enclosed c.startCluster)
    (hrun : truncate fp s = .ok () t) : t.Coherent ∧ Cut V t.view := by
  rcases truncate_cases hs hrun with ⟨_, hon⟩ | ⟨hshort, w, hon, hrest⟩
  · refine ⟨hon.1, ?_⟩
    rw [hon.2]
    exact Cut.refl V
  · obtain ⟨hlayout, K, hstart, hK⟩ := henclosed hshort
    have hfree : Freeing V K w := by
      refine ⟨hon.1, ?_, fun d hd => ?_⟩
      · rw [hon.2]
        exact Cut.refl _
      · rw [hon.2]
        exact (hK d hd).2.imp id Or.inl
    have hfirst : V.entry c.startCluster ∈ K := (hK _ hstart).2.resolve_right hshort.2
    obtain ⟨_, x, hchain, hset⟩ := bind_eq_ok.mp hrest
    obtain ⟨entry, y, hget, hloop⟩ := bind_eq_ok.mp hchain
    obtain ⟨hy, hentry⟩ := freeing_get hfree hfirst hget
    have hx := freeing_loop hlayout (fun d hd => (hK d hd).1) hy (Or.inl hfirst) hentry hloop
    have ht := freeing_set hlayout (fun d hd => (hK d hd).1) hx hstart (Or.inr rfl) hset
    exact ⟨ht.coherent, ht.cut⟩

/-! ## Looking up, and not making anything -/

namespace View

/-- The file at the path, without the rules for its beginning. -/
def walk (V : View) (path : CStr) : Res TFFile Bool := loop V.walkRound fileRounds path root

/-- What `tf_parent` finds. -/
def parent (V : View) (path : CStr) : Res TFFile Bool :=
  match strrchr path slash with
  | none => .fault (.undefined "tf_parent") root
  | some n => if 256 ≤ n then .fault (.undefined "myfile") root else V.walk (path.take n)

/-- Chains have got shorter. -/
def Cuts (V : View) (s : Fat32) : Prop := s.Coherent ∧ Cut V s.view

theorem On.cuts (h : V.On s) : V.Cuts s := by
  refine ⟨h.1, ?_⟩
  rw [h.2]
  exact Cut.refl V

theorem Cuts.untouched (h : V.Cuts s) (hto : Untouched s t) : V.Cuts t := by
  refine ⟨hto.coherent h.1, h.2.trans (Cut.of_volume ?_ ?_)⟩
  · exact congrArg TFInfo.shape hto.info
  · exact hto.volume

end View

/-- What `tf_fnopen` does where the lookup does not come to the end of a chain. -/
def OpenedAs (V : View) (mode : Mode) (y : Res TFFile Bool) (p : FilePtr) (t : Fat32) : Prop :=
  p = .invalid ∧ V.On t ∨ (∃ c, y = .ok false c) ∧ p = .null ∧ V.On t ∨
  ∃ fp c u w, y = .ok true c ∧ p = .handle fp ∧ (V.setting fp).R u c ∧
    (if mode.write then truncate fp else pure () : FsComp Unit) u = .ok () w ∧ Untouched w t

theorem tfFnopen_openedAs {path : CStr} {mode : Mode} {n : Nat} {p : FilePtr} (hn : n < 256)
    (hs : V.On s) (hstop : View.stopAt (V.walk (path.take n)) = none)
    (hrun : tfFnopen path mode n s = .ok p t) : OpenedAs V mode (V.walk (path.take n)) p t := by
  rcases tfFnopen_start path mode hn s with hstart | ⟨fp, f, hroot, hstart⟩
  · rw [hstart] at hrun
    cases hrun
    exact Or.inl ⟨rfl, (⟨rfl, rfl, rfl⟩ : Untouched s _).on hs⟩
  · rw [hstart] at hrun
    obtain ⟨found, u, hloop, hafter⟩ := bind_eq_ok.mp hrun
    have hon := (untouched_setFile s fp f).on hs
    have hsees := (walk_loop_sees V fp fileRounds (path.take n)).run (s.setFile fp f)
      View.root ⟨hon.1, hon.2, by rw [s.setFile_self, hroot]⟩
    rw [hloop] at hsees
    unfold View.walk at hstop ⊢
    cases hy : loop V.walkRound fileRounds (path.take n) View.root with
    | fault e c =>
      rw [hy] at hsees hstop
      have hend : e = View.chainEnd := hsees.1
      rw [View.stopAt, if_pos hend] at hstop
      cases hstop
    | ok b c =>
      rw [hy] at hsees
      obtain ⟨rfl, hrel⟩ := hsees
      unfold afterWalk at hafter
      cases found with
      | false =>
        rw [if_pos rfl] at hafter
        cases hafter
        exact Or.inr (Or.inl ⟨⟨c, rfl⟩, rfl, (untouched_setFile u fp _).on ⟨hrel.1, hrel.2.1⟩⟩)
      | true =>
        rw [if_neg (by decide)] at hafter
        obtain ⟨_, w, htruncate, hrest⟩ := bind_eq_ok.mp hafter
        cases hrest
        exact Or.inr (Or.inr ⟨fp, c, u, w, rfl, rfl, hrel, htruncate, untouched_setFile w fp _⟩)

/-- There is no parent, so that nothing can be made. -/
theorem tfParent_null {path : CStr} (hs : V.On s) (hstop : View.stopAt (V.parent path) = none)
    (hrun : tfParent path s = .ok .null t) : V.On t := by
  unfold tfParent at hrun
  unfold View.parent at hstop
  cases hn : strrchr path slash with
  | none =>
    rw [hn] at hrun
    cases hrun
  | some n =>
    rw [hn] at hrun hstop
    simp only at hrun hstop
    by_cases hlong : 256 ≤ n
    · rcases tfFnopen_long path .rw hlong s with hrun' | ⟨fp, f, hrun'⟩
      · rw [hrun'] at hrun
        cases hrun
      · rw [hrun'] at hrun
        cases hrun
    · rw [if_neg hlong] at hstop
      rcases tfFnopen_openedAs (Nat.lt_of_not_le hlong) hs hstop hrun with
        ⟨hinvalid, _⟩ | ⟨_, _, hon⟩ | ⟨fp, c, u, w, _, hp, _⟩
      · cases hinvalid
      · exact hon
      · cases hp

/-- Where `tf_create` returns, there is no parent. -/
theorem tfCreate_parent {path : CStr} {r : Int} (hrun : tfCreate path s = .ok r t) :
    tfParent path s = .ok .null t := by
  obtain ⟨dir, u, hparent, hrun⟩ := bind_eq_ok.mp hrun
  split at hrun
  · rename_i hnull
    cases hrun
    rw [hparent, hnull]
  · obtain ⟨fp, v, _, hrun⟩ := bind_eq_ok.mp hrun
    obtain ⟨_, w, _, hrun⟩ := bind_eq_ok.mp hrun
    obtain ⟨dir', x, hagain, hrun⟩ := bind_eq_ok.mp hrun
    obtain ⟨fp', y, hderef, hrun⟩ := bind_eq_ok.mp hrun
    obtain ⟨_, z, hplace, _⟩ := bind_eq_ok.mp hrun
    cases dir' with
    | null => cases hderef
    | invalid => cases hderef
    | handle fp'' =>
      cases hderef
      have hparent' := tfParent_parentFile hagain
      exact absurd hplace (placeEntry_never hparent'.1 hparent'.2 path)

theorem tfCreate_on {path : CStr} {r : Int} (hs : V.On s)
    (hstop : View.stopAt (V.parent path) = none) (hrun : tfCreate path s = .ok r t) : V.On t :=
  tfParent_null hs hstop (tfCreate_parent hrun)

/-! ## The calls -/

/-- `touch`, `open` with `O_CREATE` and `mkdir`. -/
def FsCall.Makes : FsCall → Prop
  | .touch _ => True
  | .open _ flags => flags &&& oCreate ≠ 0
  | .mkdir _ => True
  | _ => False

/-- The name with which `tf_mkdir` works. -/
def mkdirName (path : CStr) : CStr := if path.take 3 = [slash, dot, slash] then path.drop 2 else path

/-- The file for which a lookup of `path`, and if there is no such file of the parent of `name`,
wants a cluster behind the end of its chain. -/
def View.beyond (V : View) (path name : CStr) : Option TFFile :=
  match V.lookup path with
  | .ok false _ => stopAt (V.parent name)
  | y => stopAt y

/-- No lookup of the call comes to the end of a chain, and the chain of the file that it
truncates stays in the FAT. -/
def FsCall.Inside (V : View) : FsCall → Prop
  | .touch path => View.stopAt (V.parent path) = none
  | .open path flags => V.beyond path (stripDot path) = none ∧ ∀ c, V.lookup path = .ok true c →
      Truncates V path flags → V.Enclosed c.startCluster
  | .mkdir path => V.beyond (mkdirName path) (mkdirName path) = none
  | _ => True

theorem View.stopAt_lookup_of_beyond {path name : CStr} (h : V.beyond path name = none) :
    View.stopAt (V.lookup path) = none ∧
      ∀ c, V.lookup path = .ok false c → View.stopAt (V.parent name) = none := by
  unfold View.beyond at h
  cases hy : V.lookup path with
  | fault e c =>
    rw [hy] at h
    exact ⟨h, fun _ hc => by cases hc⟩
  | ok found c =>
    rw [hy] at h
    exact ⟨rfl, fun _ hc => by cases hc; exact h⟩

theorem touch_cuts {path : CStr} {r : Int} (hs : V.On s) (hin : (FsCall.touch path).Inside V)
    (hrun : Fat32.touch path s = .ok r t) : V.Cuts t := by
  obtain ⟨_, u, hcreate, hrest⟩ := bind_eq_ok.mp hrun
  cases hrest
  exact (tfCreate_on hs hin hcreate).cuts

/-- `tf_fopen` in any mode: what is not there is not made. -/
theorem tfFopen_openedAs {path : CStr} {mode : Mode} {p : FilePtr} (hs : V.On s)
    (hstop : View.stopAt (V.lookup path) = none)
    (hparent : mode.plus ∨ mode.write → ∀ c, V.lookup path = .ok false c →
      View.stopAt (V.parent (stripDot path)) = none)
    (hrun : tfFopen path mode s = .ok p t) : OpenedAs V mode (V.lookup path) p t := by
  unfold tfFopen at hrun
  by_cases hdots : isParentPath path = true
  · rw [if_pos hdots] at hrun
    cases hrun
    refine Or.inr (Or.inl ⟨⟨View.root, ?_⟩, rfl, hs⟩)
    unfold View.lookup
    rw [if_pos hdots]
  · rw [if_neg hdots] at hrun
    by_cases hn : 256 ≤ (stripDot path).length
    · -- there is no room for the path
      rcases tfFnopen_long (stripDot path) mode hn s with hlong | ⟨fp, f, hlong⟩
      · rw [bind_ok hlong] at hrun
        cases hrun
        exact Or.inl ⟨rfl, (⟨rfl, rfl, rfl⟩ : Untouched s _).on hs⟩
      · rw [bind_fault hlong] at hrun
        cases hrun
    · have hn' := Nat.lt_of_not_le hn
      have hlookup : V.lookup path = V.walk ((stripDot path).take (stripDot path).length) := by
        unfold View.lookup
        rw [if_neg hdots, if_neg hn, List.take_length]
        rfl
      rw [hlookup] at hstop hparent ⊢
      obtain ⟨q, u, hfirst, hrun⟩ := bind_eq_ok.mp hrun
      have hopened := tfFnopen_openedAs hn' hs hstop hfirst
      split at hrun
      · rename_i hnull
        subst hnull
        rcases hopened with ⟨hinvalid, _⟩ | ⟨⟨c, hc⟩, _, hu⟩ | ⟨fp, c, u, w, _, hhandle, _⟩
        · cases hinvalid
        · obtain ⟨r, v, hmake, hsecond⟩ := bind_eq_ok.mp hrun
          have hv : V.On v := by
            split at hmake
            · rename_i hmode
              exact tfCreate_on hu (hparent hmode c hc) hmake
            · cases hmake
              exact hu
          exact tfFnopen_openedAs hn' hv hstop hsecond
        · cases hhandle
      · cases hrun
        exact hopened

/-- Opening for writing: the file is truncated where it is there, and else nothing is made. -/
theorem tfFopen_cuts {path : CStr} {flags : Nat} {p : FilePtr} (hs : V.On s)
    (hcreate : flags &&& oCreate ≠ 0) (hin : (FsCall.open path flags).Inside V)
    (hrun : tfFopen path .w s = .ok p t) : V.Cuts t := by
  obtain ⟨hbeyond, henclosed⟩ := hin
  obtain ⟨hstop, hparent⟩ := View.stopAt_lookup_of_beyond hbeyond
  rcases tfFopen_openedAs hs hstop (fun _ => hparent) hrun with
    ⟨_, hon⟩ | ⟨_, _, hon⟩ | ⟨fp, c, u, w, hfound, _, hrel, htruncate, hto⟩
  · exact hon.cuts
  · exact hon.cuts
  · have hw : V.Cuts w := truncate_cut hrel (fun hshort =>
      henclosed c hfound ⟨hcreate, c, hfound, hshort⟩) htruncate
    exact hw.untouched hto

theorem open_cuts {path : CStr} {flags : Nat} {r : Option OpenFile} (hs : V.On s)
    (hcreate : flags &&& oCreate ≠ 0) (hin : (FsCall.open path flags).Inside V)
    (hrun : Fat32.open path flags s = .ok r t) : V.Cuts t := by
  unfold Fat32.open at hrun
  rw [if_pos hcreate] at hrun
  obtain ⟨p, u, hopen, hrest⟩ := bind_eq_ok.mp hrun
  have hflags : ¬ (p = .null ∧ flags = oDirectory) := by
    rintro ⟨_, rfl⟩
    exact hcreate (by decide)
  rw [if_neg hflags] at hrest
  have hfound := openFound_untouched flags (p := p) (s := u) fun fp hfp => tfFopen_clean (hfp ▸ hopen)
  rw [hrest] at hfound
  exact (tfFopen_cuts hs hcreate hin hopen).untouched hfound.2

/-- `tf_mkdir` returns where there is such a file already, or no parent. -/
theorem tfMkdir_on {path : CStr} {r : Int} (hs : V.On s)
    (hin : V.beyond (mkdirName path) (mkdirName path) = none)
    (hrun : tfMkdir path s = .ok r t) : V.On t := by
  unfold tfMkdir at hrun
  change (if isParentPath (mkdirName path) then pure 0 else _ : FsComp Int) s = .ok r t at hrun
  obtain ⟨hstop, hparent⟩ := View.stopAt_lookup_of_beyond hin
  split at hrun
  · cases hrun
    exact hs
  · obtain ⟨p, u, hopen, hrest⟩ := bind_eq_ok.mp hrun
    have hopen' : tfFopen (mkdirName path) .r s = .ok p u := hopen
    have hopened := tfFopen_openedAs hs hstop (fun hmode => by simp [Mode.r] at hmode) hopen'
    split at hrest
    · -- the file is there
      obtain ⟨fp, v, hderef, hrest⟩ := bind_eq_ok.mp hrest
      cases p with
      | null => cases hderef
      | invalid => cases hderef
      | handle fp' =>
        cases hderef
        obtain ⟨f, hclose⟩ := tfFclose_untouched (tfFopen_clean hopen')
        rw [bind_ok hclose] at hrest
        cases hrest
        rcases hopened with ⟨hinvalid, _⟩ | ⟨_, hnull, _⟩ | ⟨fp, c, v, w, _, _, hrel, hread, hto⟩
        · cases hinvalid
        · cases hnull
        · cases hread
          have hu := hto.on ⟨hrel.1, hrel.2.1⟩
          exact (untouched_setFile _ _ _).on ((untouched_setFile u _ f).on hu)
    · rename_i hnull
      rw [not_not.mp hnull] at hopened
      rcases hopened with ⟨hinvalid, _⟩ | ⟨⟨c, hc⟩, _, hu⟩ | ⟨fp, c, v, w, _, hhandle, _⟩
      · cases hinvalid
      · obtain ⟨dir, v, hdir, hrest⟩ := bind_eq_ok.mp hrest
        have hdir' : tfParent (mkdirName path) u = .ok dir v := hdir
        cases dir with
        | null =>
          rw [if_pos rfl] at hrest
          cases hrest
          exact tfParent_null hu (hparent c hc) hdir'
        | invalid =>
          rw [if_neg (fun h => by cases h)] at hrest
          cases hrest
        | handle fp =>
          rw [if_neg (fun h => by cases h)] at hrest
          obtain ⟨fp', w, hderef, hrest⟩ := bind_eq_ok.mp hrest
          cases hderef
          obtain ⟨_, x, hplace, _⟩ := bind_eq_ok.mp hrest
          have hfile := tfParent_parentFile hdir'
          exact absurd hplace (placeEntry_never hfile.1 hfile.2 _)
      · cases hhandle

theorem mkdir_cuts {path : CStr} {r : Int} (hs : V.On s) (hin : (FsCall.mkdir path).Inside V)
    (hrun : Fat32.mkdir path s = .ok r t) : V.Cuts t := (tfMkdir_on hs hin hrun).cuts

/-- A call that stays inside only makes chains shorter. -/
theorem fsCall_cuts {call : FsCall} (hs : s.Coherent) (hmakes : call.Makes)
    (hin : call.Inside s.view) (hrun : call.run s = .ok () t) : s.view.Cuts t := by
  have hon : s.view.On s := ⟨hs, rfl⟩
  cases call with
  | touch path =>
    obtain ⟨r, u, hcall, hrest⟩ := bind_eq_ok.mp hrun
    cases hrest
    exact touch_cuts hon hin hcall
  | «open» path flags =>
    obtain ⟨r, u, hcall, hrest⟩ := bind_eq_ok.mp hrun
    cases hrest
    exact open_cuts hon hmakes hin hcall
  | mkdir path =>
    obtain ⟨r, u, hcall, hrest⟩ := bind_eq_ok.mp hrun
    cases hrest
    exact mkdir_cuts hon hin hcall
  | read path user buf offset n => exact hmakes.elim
  | write path buf offset n => exact hmakes.elim
  | rm path => exact hmakes.elim
  | getFile path => exact hmakes.elim
  | ls path contents len user => exact hmakes.elim

/-! ## Runs -/

/-- A run of `touch`, `open` with `O_CREATE` and `mkdir` on a volume where no directory has two
files with the same name. -/
def MakingReach (ok : Fat32 → FsCall → Prop) : Fat32 → Prop :=
  Run.Reach (fun s => s.Coherent ∧ s.view.UniqueNames)
    (fun s (call : FsCall) t => call.Makes ∧ call.run s = .ok () t) ok

/-- While no lookup comes to the end of a chain, and the chains of the files that are truncated
stay in the FAT, no directory gets two files with the same name. -/
theorem names_stay_unique (s : Fat32)
    (h : MakingReach (fun s call => call.Inside s.view) s) : s.view.UniqueNames := by
  have hinv : s.Coherent ∧ s.view.UniqueNames := by
    refine Run.Reach.invariant (I := fun s : Fat32 => s.Coherent ∧ s.view.UniqueNames)
      (fun _ h => h) (fun s call t hs hin hstep => ?_) h
    obtain ⟨hco, hcut⟩ := fsCall_cuts hs.1 hstep.1 hin hstep.2
    exact ⟨hco, hcut.uniqueNames hs.2⟩
  exact hinv.2

/-- A root directory with the file `A`, whose clusters are `3` and `4`. -/
def oneFile : Fat32 :=
  { fullDirectory with disk := fun a =>
      if a / 512 = 34 then if a % 512 < 32 then shortEntryByte 0x41 3 0 (a % 512) else 0
      else if a = 2 * 512 + 12 then 4
      else if a = 2 * 512 + 16 ∨ a = 2 * 512 + 17 ∨ a = 2 * 512 + 18 then 0xff
      else if a = 2 * 512 + 19 then 0x0f
      else fullDirectory.disk a }

theorem oneFile_start : oneFile.Coherent ∧ oneFile.view.UniqueNames := by
  constructor
  · apply coherent_of_first_sector
    intro a ha
    rw [if_neg (by omega), if_neg (by omega), if_neg (by omega), if_neg (by omega),
      fullDirectory_first ha]
  · apply View.uniqueNames_of_root
    · decide
    · decide

theorem oneFile_enclosed : oneFile.view.Enclosed 3 := by
  have hthree : oneFile.view.entry 3 = 4 := by decide
  have hfour : oneFile.view.entry 4 = tfMarkEoc32 := by decide
  refine ⟨⟨by decide, by decide, by decide⟩, {3, 4}, Or.inl rfl, ?_⟩
  rintro d (rfl | rfl)
  · exact ⟨by decide, Or.inl (Or.inr hthree)⟩
  · exact ⟨by decide, Or.inr hfour⟩

/-- Opening the file truncates it. -/
theorem names_stay_unique_open : ∃ t,
    FsCall.run (.open [slash, 0x41] oCreate) oneFile = .ok () t ∧ t.view.UniqueNames := by
  have hvalue : (FsCall.run (.open [slash, 0x41] oCreate) oneFile).value = some () := by
    decide +kernel
  obtain ⟨t, ht⟩ := Res.eq_ok_of_value hvalue
  have hnone : (oneFile.view.beyond [slash, 0x41] [slash, 0x41]).isNone = true := by decide +kernel
  obtain ⟨c, hc, hstart⟩ := View.lookup_of_decide oneFile.view [slash, 0x41]
    (fun c => c.startCluster = 3) (by decide +kernel) (by decide +kernel)
  have hin : (FsCall.open [slash, 0x41] oCreate).Inside oneFile.view := by
    refine ⟨Option.isNone_iff_eq_none.mp hnone, fun d hd _ => ?_⟩
    rw [hc] at hd
    cases hd
    rw [hstart]
    exact oneFile_enclosed
  have hmakes : (FsCall.open [slash, 0x41] oCreate).Makes := by
    show oCreate &&& oCreate ≠ 0
    decide
  exact ⟨t, ht, names_stay_unique t (.next (.start oneFile_start) hin ⟨hmakes, ht⟩)⟩

/-! ## Entries that have been left -/

/-- The path is absolute, and its parent exists. -/
def FsCall.InParent (V : View) : FsCall → Prop
  | .touch path => path.head? = some slash ∧ ∃ c, V.parent path = .ok true c
  | .open path _ => path.head? = some slash ∧ ∃ c, V.parent path = .ok true c
  | .mkdir path => path.head? = some slash ∧ ∃ c, V.parent path = .ok true c
  | _ => True

/-- A root directory of one cluster with sixteen files, `A` to `P`. In the next cluster, which is
free, entries of `A` and `Q` have been left. -/
def leftEntries : Fat32 :=
  { fullDirectory with disk := fun a =>
      if a / 512 = 34 then shortEntryByte (0x41 + a % 512 / 32) 0 0 (a % 32)
      else if a / 512 = 35 then
        if a % 512 / 32 = 0 then shortEntryByte 0x41 0 0 (a % 32)
        else if a % 512 / 32 = 1 then shortEntryByte 0x51 0 0 (a % 32)
        else 0
      else fullDirectory.disk a }

theorem leftEntries_start : leftEntries.Coherent ∧ leftEntries.view.UniqueNames := by
  constructor
  · apply coherent_of_first_sector
    intro a ha
    rw [if_neg (by omega), if_neg (by omega), fullDirectory_first ha]
  · apply View.uniqueNames_of_root
    · decide
    · decide

/-- `mkdir` of a name that is not there appends a cluster, in which it finds the name; and with
that, another `A`. -/
theorem leftEntries_clash : ¬ ∀ s, MakingReach (fun s call => call.InParent s.view) s →
    s.view.UniqueNames := by
  intro hall
  have hvalue : ((FsCall.run (.mkdir [slash, 0x51]) >>= fun _ => read >>= fun t =>
      pure (decide (DistinctNames (t.view.files 2))) : FsComp Bool) leftEntries).value =
        some false := by decide +kernel
  obtain ⟨u, hu⟩ := Res.eq_ok_of_value hvalue
  obtain ⟨_, t, hrun, hrest⟩ := bind_eq_ok.mp hu
  have hclash : ¬ DistinctNames (t.view.files 2) := by
    rw [read_bind] at hrest
    exact of_decide_eq_false (Option.some.inj (congrArg Res.value hrest))
  have hparent : (FsCall.mkdir [slash, 0x51]).InParent leftEntries.view := ⟨rfl, _, rfl⟩
  have hreach : MakingReach (fun s call => call.InParent s.view) t :=
    .next (.start leftEntries_start) hparent ⟨trivial, hrun⟩
  exact hclash (hall t hreach 2 .root)

end PageFaultOS
