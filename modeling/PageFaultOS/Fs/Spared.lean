import Mathlib.Tactic
import PageFaultOS.Fs.Removing

/-! The calls of `Fat32FileSystem` that leave the volume as it is: those that come to the end of
no chain, and neither truncate a file of more than one cluster nor remove one. That `write` stores
nothing and that nothing is ever made has to do with `tf_fwrite`, which does not return. -/

namespace PageFaultOS
open Exec Exec.Comp ByteMem

variable {V : View} {s t u : Fat32} {fp : Nat} {path : CStr} {c : TFFile} {p : FilePtr}
  {α β γ : Type}

/-! ## Writing to a file -/

namespace View

def growTo (x : Nat) : Comp TFFile Unit := do
  let f ← read
  if f.size < f.pos + x then
    modify fun f => { f with flags := f.flags ||| tfFlagSizechanged, size := u32 (x + f.pos) }
  else
    pure ()

variable (V : View)

def fwriteRound : Nat × Nat × Nat → Comp TFFile ((Nat × Nat × Nat) ⊕ Int) := fun (src, sz, n) => do
  if ¬ 0 < sz then
    pure (.inr n)
  else do
    let f ← read
    if f.currentByte < 0 then
      fault (.undefined "tf_info.buffer")
    else do
      growTo (chunk f sz)
      let r ← V.tfUnsafeFseek 0 (f.pos + chunk f sz : Nat)
      if r ≠ 0 then
        pure (.inr (-1))
      else
        pure (.inl (src + chunk f sz, sz - chunk f sz, n + chunk f sz))

def tfFwrite (src sz : Nat) : Comp TFFile Int := do
  modify fun f => { f with flags := f.flags ||| tfFlagDirty }
  loop V.fwriteRound fileRounds (src, sz, 0)

end View

theorem sees_fetched (sector : Nat) {k : Unit → FsComp β} {y : Comp TFFile β}
    (hk : ∀ a, V.Sees fp (k a) y) : V.Sees fp (tfFetch sector >>= k) y :=
  Setting.sim_bind (l := fun _ => y) (sees_tfFetch sector) hk

theorem sees_copyToFlag {byte : UInt8} {src x : Nat} {k : Unit → FsComp β} {y : Comp TFFile β}
    (hk : V.Sees fp (k ()) y) : V.Sees fp (copyToFlag byte src x >>= k) y := by
  refine sees_memory (fun s => ?_) fun _ => hk
  unfold copyToFlag
  rw [read_bind]
  refine Res.holds_bind (P := fun _ t => ∃ m, t = { s with mm := m }) ?_ fun _ t ht => ?_
  · split
    · exact onMemory_cases _ s
    · exact ⟨s.mm, rfl⟩
  · split
    · exact ht
    · exact ht

/-- The sector in memory is marked as it is. -/
theorem sees_mark {k : Unit → FsComp β} {y : Comp TFFile β} (hk : V.Sees fp (k ()) y) :
    V.Sees fp (modify (fun s => { s with info := { s.info with dirty := true } }) >>= k) y := by
  refine Setting.sim_skip (fun s hs => ?_) fun _ => hk
  exact ⟨⟨fun hclean => (by cases hclean), hs.2⟩, fun _ _ _ _ => rfl,
    fun c hc => ⟨fun hclean => (by cases hclean), hc.2⟩⟩

theorem sees_growTo (x : Nat) : V.Sees fp (growTo fp x) (View.growTo x) :=
  sees_getFile fun _ => Setting.sim_ite (sees_modifyFile fun _ => rfl) (Setting.sim_pure _)

theorem sees_fwriteRound (i : Nat × Nat × Nat) :
    V.Sees fp (fwriteRound fp i) (V.fwriteRound i) := by
  obtain ⟨src, sz, n⟩ := i
  refine Setting.sim_ite (Setting.sim_pure _) (sees_getFile fun f =>
    Setting.sim_read fun s hs => ?_)
  by_cases hbyte : f.currentByte < 0
  · have hbyte' : f.anon.currentByte < 0 := hbyte
    simp only [if_pos hbyte, if_pos hbyte']
    exact Setting.sim_bind (sees_tfFetch _) fun _ => Setting.sim_fault _ (fault _)
  · have hbyte' : ¬ f.anon.currentByte < 0 := hbyte
    simp only [if_neg hbyte, if_neg hbyte']
    refine sees_fetched _ fun _ => Setting.sim_read fun s hs => sees_copyToFlag (sees_mark ?_)
    exact Setting.sim_bind (sees_growTo _) fun _ => Setting.sim_bind (sees_tfUnsafeFseek _ _)
      fun _ => Setting.sim_ite (Setting.sim_pure _) (Setting.sim_pure _)

theorem sees_tfFwrite (src sz : Nat) : V.Sees fp (tfFwrite src sz fp) (V.tfFwrite src sz) :=
  Setting.sim_bind (sees_modifyFile fun _ => rfl) fun _ =>
    Setting.sim_loop sees_fwriteRound fileRounds _

/-! ## Opening and closing -/

theorem View.lookup_of_visit {y : Comp TFFile β} (h : V.visit path y = none) :
    View.stopAt (V.lookup path) = none ∧
      ∀ c, V.lookup path = .ok true c → View.stopAt (y c) = none := by
  unfold View.visit at h
  cases hy : V.lookup path with
  | fault e c =>
    rw [hy] at h
    exact ⟨h, fun _ hc => by cases hc⟩
  | ok found c =>
    rw [hy] at h
    refine ⟨rfl, fun _ hc => ?_⟩
    cases hc
    exact h

/-- Code that the view sees to its end leaves the volume as it is. -/
theorem on_of_sees {x : FsComp α} {y : Comp TFFile α} {a : α} (hx : V.Sees fp x y)
    (hrel : (V.setting fp).R s c) (hstop : View.stopAt (y c) = none) (hrun : x s = .ok a t) :
    V.On t := by
  have hsees := hx.run s c hrel
  rw [hrun] at hsees
  cases hy : y c with
  | ok b d =>
    rw [hy] at hsees
    exact ⟨hsees.2.1, hsees.2.2.1⟩
  | fault e d =>
    rw [hy] at hsees hstop
    have hend : e = View.chainEnd := hsees.1
    rw [View.stopAt, if_pos hend] at hstop
    cases hstop

/-- What is opened for reading. -/
theorem tfFopen_reads (hs : V.On s) (hstop : View.stopAt (V.lookup path) = none)
    (hrun : tfFopen path .r s = .ok p t) :
    V.On t ∧ ∀ fp, p = .handle fp → ∃ c, V.lookup path = .ok true c ∧ (V.setting fp).R t c := by
  have hlooked := tfFopen_looked path hs
  rw [hrun] at hlooked
  rcases hlooked with ⟨hinvalid, hon⟩ | hlooked
  · exact ⟨hon, fun fp hfp => by rw [hinvalid] at hfp; cases hfp⟩
  · cases hy : V.lookup path with
    | fault e c =>
      rw [hy] at hlooked hstop
      rw [View.stopAt, if_pos hlooked.1] at hstop
      cases hstop
    | ok found c =>
      rw [hy] at hlooked
      cases found with
      | true =>
        obtain ⟨fp, hfp, hrel⟩ := hlooked
        refine ⟨⟨hrel.1, hrel.2.1⟩, fun fp' hfp' => ⟨c, rfl, ?_⟩⟩
        cases hfp.symm.trans hfp'
        exact hrel
      | false => exact ⟨hlooked.2, fun fp hfp => by rw [hlooked.1] at hfp; cases hfp⟩

/-- A mode that does not truncate. -/
theorem tfFnopen_mode (filename : CStr) {mode : Mode} (h : mode.write = false) (n : Nat) :
    tfFnopen filename mode n = tfFnopen filename .r n := by
  obtain ⟨plus, write⟩ := mode
  have hwrite : write = false := h
  subst hwrite
  rfl

/-- What `write` opens is what there is for reading. -/
theorem tfFopen_plus (hs : V.On s) (hbeyond : V.beyond path (stripDot path) = none)
    (hrun : tfFopen path .p s = .ok (.handle fp) t) :
    ∃ c, V.lookup path = .ok true c ∧ (V.setting fp).R t c := by
  obtain ⟨hstop, hparent⟩ := View.stopAt_lookup_of_beyond hbeyond
  rcases tfFopen_openedAs hs hstop (fun _ => hparent) hrun with
    ⟨hinvalid, _⟩ | ⟨_, hnull, _⟩ | ⟨_, c, _, _, hfound, _⟩
  · cases hinvalid
  · cases hnull
  · refine ⟨c, hfound, ?_⟩
    have hread : tfFopen path .r s = .ok (.handle fp) t := by
      unfold tfFopen at hrun ⊢
      split at hrun
      · cases hrun
      · rename_i hdots
        rw [if_neg hdots]
        obtain ⟨q, u, hfirst, hrest⟩ := bind_eq_ok.mp hrun
        rw [tfFnopen_mode _ (rfl : Mode.p.write = false)] at hfirst
        rw [bind_ok hfirst]
        split at hrest
        · -- the file is there, so that the first attempt finds it
          rename_i hnull
          subst hnull
          unfold View.lookup at hfound
          rw [if_neg hdots] at hfound
          split at hfound
          · cases hfound
          · rename_i hn
            have hlooked := tfFnopen_looked (Nat.lt_of_not_le hn) hs
            rw [hfirst, hfound] at hlooked
            rcases hlooked with ⟨hinvalid, _⟩ | ⟨_, hhandle, _⟩
            · cases hinvalid
            · cases hhandle
        · rename_i hthere
          rw [if_neg hthere]
          exact hrest
    obtain ⟨d, hfound', hrel⟩ := (tfFopen_reads hs hstop hread).2 fp rfl
    cases hfound.symm.trans hfound'
    exact hrel

theorem tfParent_invalid (hrun : tfParent path s = .ok .invalid t) : Untouched s t := by
  unfold tfParent at hrun
  cases hn : strrchr path slash with
  | none =>
    rw [hn] at hrun
    cases hrun
  | some n =>
    rw [hn] at hrun
    simp only at hrun
    by_cases hlong : 256 ≤ n
    · rcases tfFnopen_long path .rw hlong s with hrun' | ⟨fp, f, hrun'⟩
      · cases hrun'.symm.trans hrun
        exact ⟨rfl, rfl, rfl⟩
      · cases hrun'.symm.trans hrun
    · rcases tfFnopen_start path .rw (Nat.lt_of_not_le hlong) s with hrun' | ⟨fp, f, _, hrun'⟩
      · cases hrun'.symm.trans hrun
        exact ⟨rfl, rfl, rfl⟩
      · rw [hrun'] at hrun
        obtain ⟨found, u, _, hafter⟩ := bind_eq_ok.mp hrun
        unfold afterWalk at hafter
        split at hafter
        · cases hafter
        · obtain ⟨_, _, _, hrest⟩ := bind_eq_ok.mp hafter
          cases hrest

/-- Closing does not return where an entry would have to be written. -/
theorem tfFclose_on {r : Int} (hs : V.On s) (hrun : tfFclose fp s = .ok r t) : V.On t := by
  obtain ⟨rc, u, hflush, hrest⟩ := bind_eq_ok.mp hrun
  cases hrest
  refine (untouched_setFile u fp _).on ?_
  unfold flushDepth tfFflush at hflush
  rw [bind_ok (getFile_run s fp)] at hflush
  split at hflush
  · cases hflush
    exact hs
  · obtain ⟨w, hstore, hsame, _⟩ := storeDirty_run hs.1
    have hw : V.On w := ⟨hsame.coherent, (view_of_same hsame).trans hs.2⟩
    rw [bind_ok hstore] at hflush
    split at hflush
    · cases hflush
      exact (untouched_setFile w fp _).on hw
    · obtain ⟨dir, x, hparent, hflush⟩ := bind_eq_ok.mp hflush
      cases dir with
      | null => cases hflush
      | invalid =>
        cases hflush
        exact (tfParent_invalid hparent).on hw
      | handle d =>
        obtain ⟨_, y, hderef, hflush⟩ := bind_eq_ok.mp hflush
        cases hderef
        obtain ⟨_, z, hentry, _⟩ := bind_eq_ok.mp hflush
        exact absurd hentry (flushEntry_never (tfParent_parentFile hparent).2 _)

/-- `tf_fopen` of a file that is not truncated. -/
theorem OpenedAs.on {mode : Mode} {y : Res TFFile Bool} (h : OpenedAs V mode y p t)
    (hshort : mode.write → ∀ c, y = .ok true c → ¬ Shortened V c) : V.On t := by
  rcases h with ⟨_, hon⟩ | ⟨_, _, hon⟩ | ⟨fp, c, u, w, hc, _, hrel, hmode, hto⟩
  · exact hon
  · exact hon
  · refine hto.on ?_
    split at hmode
    · rename_i hwrite
      rcases truncate_cases hrel hmode with ⟨_, hon⟩ | ⟨hlong, _⟩
      · exact hon
      · exact absurd hlong (hshort hwrite c hc)
    · cases hmode
      exact ⟨hrel.1, hrel.2.1⟩

/-! ## The calls -/

/-- The call comes to the end of no chain, truncates no file of more than one cluster, and removes
no file; with a file that is in a directory as it should be, `rm` does not return. -/
def FsCall.Spares (s : Fat32) : FsCall → Prop
  | .open path flags => View.stopAt (s.view.lookup path) = none ∧ ¬ Truncates s.view path flags ∧
      ∀ c, s.view.lookup path = .ok false c →
        (flags &&& oCreate ≠ 0 → View.stopAt (s.view.parent (stripDot path)) = none) ∧
        (flags = oDirectory → s.view.beyond (mkdirName path) (mkdirName path) = none)
  | .read path user buf offset n => (ReadCall.read path user buf offset n).pastEnd s = none
  | .write path buf offset n => s.view.beyond path (stripDot path) = none ∧
      s.view.visit path (s.view.tfFseek 0 offset >>= fun _ => s.view.tfFwrite buf n.toNat) = none
  | .mkdir path => s.view.beyond (mkdirName path) (mkdirName path) = none
  | .touch path => View.stopAt (s.view.parent path) = none
  | .rm path => View.stopAt (s.view.lookup path) = none ∧
      ((∀ c, s.view.lookup path ≠ .ok true c) ∨ ∃ c d cs j, FileInDir s path c d cs j)
  | .getFile path => (ReadCall.getFile path).pastEnd s = none
  | .ls path contents len user => (ReadCall.ls path contents len user).pastEnd s = none

/-- Opening for reading, reading `x`, and what is done when that has been read. -/
theorem visit_on (x : Nat → FsComp β) {y : Comp TFFile β} (tail : Nat → β → FsComp γ)
    {missing a : γ} (hs : V.On s) (hx : ∀ fp, V.Sees fp (x fp) y)
    (htail : ∀ fp b u a w, V.On u → tail fp b u = .ok a w → V.On w)
    (hstop : V.visit path y = none)
    (hrun : (tfFopen path .r >>= fun p => if p = .null then pure missing else
      p.deref >>= fun fp => x fp >>= tail fp) s = .ok a t) : V.On t := by
  obtain ⟨hlookup, hread⟩ := View.lookup_of_visit hstop
  obtain ⟨p, u, hopen, hrest⟩ := bind_eq_ok.mp hrun
  obtain ⟨hu, hhandle⟩ := tfFopen_reads hs hlookup hopen
  cases p with
  | null =>
    rw [if_pos rfl] at hrest
    cases hrest
    exact hu
  | invalid =>
    rw [if_neg fun h => by cases h] at hrest
    cases hrest
  | handle fp =>
    obtain ⟨c, hc, hrel⟩ := hhandle fp rfl
    rw [if_neg fun h => by cases h] at hrest
    obtain ⟨fp', v, hderef, hrest⟩ := bind_eq_ok.mp hrest
    cases hderef
    obtain ⟨b, w, hxu, hrest⟩ := bind_eq_ok.mp hrest
    exact htail fp b w a t (on_of_sees (hx fp) hrel (hread c hc) hxu) hrest

theorem close_on {r : γ} (hs : V.On s)
    (hrun : (tfFclose fp >>= fun _ => pure r) s = .ok a t) : V.On t := by
  obtain ⟨_, u, hclose, hrest⟩ := bind_eq_ok.mp hrun
  cases hrest
  exact tfFclose_on hs hclose

/-- `visit_on` for a call that first seeks, then reads. -/
theorem read_on {x : Nat → FsComp β} {y : Comp TFFile β} {offset : Int} {a : Option β}
    (hs : V.On s) (hx : ∀ fp, V.Sees fp (x fp) y)
    (hstop : V.visit path (V.tfFseek 0 offset >>= fun _ => y) = none)
    (hrun : (tfFopen path .r >>= fun p => if p = .null then pure none else
      p.deref >>= fun fp => tfFseek fp 0 offset >>= fun _ => x fp >>= fun b =>
        tfFclose fp >>= fun _ => pure (some b)) s = .ok a t) : V.On t := by
  have hassoc : ∀ fp, (tfFseek fp 0 offset >>= fun _ => x fp >>= fun b =>
      tfFclose fp >>= fun _ => pure (some b)) = (tfFseek fp 0 offset >>= fun _ => x fp) >>=
        fun b => tfFclose fp >>= fun _ => pure (some b) :=
    fun fp => funext fun s => (bind_assoc_apply _ _ _ s).symm
  simp only [hassoc] at hrun
  exact visit_on _ _ hs (fun fp => Setting.sim_bind (sees_tfFseek 0 offset) fun _ => hx fp)
    (fun fp b u a w hu hclose => close_on hu hclose) hstop hrun

theorem open_spared {flags : Nat} {r : Option OpenFile} (hs : V.On s)
    (hspares : (FsCall.open path flags).Spares s) (hrun : Fat32.open path flags s = .ok r t) :
    V.On t := by
  obtain ⟨hco, rfl⟩ := hs
  obtain ⟨hstop, hnot, hmissing⟩ := hspares
  have hfirst : ∀ p u, tfFopen path (if flags &&& oCreate ≠ 0 then .w else .r) s = .ok p u →
      s.view.On u ∧ (p = .null → ∃ c, s.view.lookup path = .ok false c) := by
    intro p u hopen
    by_cases hcreate : flags &&& oCreate ≠ 0
    · rw [if_pos hcreate] at hopen
      have hopened := tfFopen_openedAs ⟨hco, rfl⟩ hstop
        (fun _ c hc => (hmissing c hc).1 hcreate) hopen
      refine ⟨hopened.on fun _ c hc hshort => hnot ⟨hcreate, c, hc, hshort⟩, fun hnull => ?_⟩
      subst hnull
      rcases hopened with ⟨hinvalid, _⟩ | ⟨hc, _⟩ | ⟨_, _, _, _, _, hhandle, _⟩
      · cases hinvalid
      · exact hc
      · cases hhandle
    · rw [if_neg hcreate] at hopen
      have hopened := tfFopen_openedAs ⟨hco, rfl⟩ hstop
        (fun hmode => by simp [Mode.r] at hmode) hopen
      refine ⟨hopened.on fun hwrite => (by cases hwrite), fun hnull => ?_⟩
      subst hnull
      rcases hopened with ⟨hinvalid, _⟩ | ⟨hc, _⟩ | ⟨_, _, _, _, _, hhandle, _⟩
      · cases hinvalid
      · exact hc
      · cases hhandle
  have hlast : ∀ {mode : Mode} {p : FilePtr} {u v : Fat32}, tfFopen path mode u = .ok p v →
      s.view.On v → openFound flags p v = .ok r t → s.view.On t := by
    intro mode p u v hopen hv hfound
    have huntouched := openFound_untouched flags (p := p) (s := v) fun fp hfp =>
      tfFopen_clean (hfp ▸ hopen)
    rw [hfound] at huntouched
    exact huntouched.2.on hv
  unfold Fat32.open at hrun
  obtain ⟨p, u, hopen, hrest⟩ := bind_eq_ok.mp hrun
  obtain ⟨hu, hnull⟩ := hfirst p u hopen
  split at hrest
  · rename_i hmake
    obtain ⟨c, hc⟩ := hnull hmake.1
    obtain ⟨_, v, hmkdir, hrest⟩ := bind_eq_ok.mp hrest
    have hv := tfMkdir_on hu ((hmissing c hc).2 hmake.2) hmkdir
    obtain ⟨q, w, hagain, hfound⟩ := bind_eq_ok.mp hrest
    exact hlast hagain (tfFopen_reads hv hstop hagain).1 hfound
  · exact hlast hopen hu hrest

theorem write_spared {buf : Nat} {offset n r : Int} (hs : V.On s)
    (hspares : (FsCall.write path buf offset n).Spares s)
    (hrun : Fat32.write path buf offset n s = .ok r t) : V.On t := by
  obtain ⟨hco, rfl⟩ := hs
  obtain ⟨hbeyond, hvisit⟩ := hspares
  obtain ⟨p, u, hopen, hrest⟩ := bind_eq_ok.mp hrun
  obtain ⟨fp, v, hderef, hrest⟩ := bind_eq_ok.mp hrest
  cases p with
  | null => cases hderef
  | invalid => cases hderef
  | handle fp' =>
    cases hderef
    obtain ⟨c, hc, hrel⟩ := tfFopen_plus ⟨hco, rfl⟩ hbeyond hopen
    obtain ⟨_, w, hseek, hrest⟩ := bind_eq_ok.mp hrest
    obtain ⟨x, w', hwrite, hrest⟩ := bind_eq_ok.mp hrest
    have hboth : (tfFseek fp 0 offset >>= fun _ => tfFwrite buf n.toNat fp) u = .ok x w' := by
      rw [bind_ok hseek]
      exact hwrite
    have hw' : s.view.On w' := on_of_sees
      (Setting.sim_bind (sees_tfFseek 0 offset) fun _ => sees_tfFwrite buf n.toNat) hrel
      ((View.lookup_of_visit hvisit).2 c hc) hboth
    exact close_on hw' hrest

/-- `rm` of a path that is not there. -/
theorem rm_spared {r : Int} (hs : V.On s) (hspares : (FsCall.rm path).Spares s)
    (hrun : tfRemove path s = .ok r t) : V.On t := by
  obtain ⟨hco, rfl⟩ := hs
  obtain ⟨hstop, hmissing | ⟨c, d, cs, j, hfile⟩⟩ := hspares
  · obtain ⟨p, u, hopen, hrest⟩ := bind_eq_ok.mp hrun
    obtain ⟨hu, hhandle⟩ := tfFopen_reads ⟨hco, rfl⟩ hstop hopen
    cases p with
    | null =>
      cases hrest
      exact hu
    | invalid => cases hrest
    | handle fp =>
      obtain ⟨c, hc, _⟩ := hhandle fp rfl
      exact absurd hc (hmissing c)
  · exact absurd hrun (hfile.never r t)

theorem ls_spared {contents : Nat} {len r : Int} {user : Bool} (hs : V.On s)
    (hstop : V.visit path (V.ls contents len) = none)
    (hrun : Fat32.ls path contents len user s = .ok r t) : V.On t := by
  have hpure : ∀ x : FsComp Int, (x >>= fun r => pure r) = x := fun x => funext fun s => by
    rw [bind_apply]
    cases x s <;> rfl
  have hrun' : (tfFopen path .r >>= fun p => if p = .null then pure (-1) else
      p.deref >>= fun fp => (getFile fp >>= fun f =>
        if f.attributes &&& tfAttrDirectory = 0 then pure (-1)
        else loop (lsRound fp len user) fileRounds (contents, 0)) >>= fun r => pure r) s =
          .ok r t := by
    simp only [hpure]
    exact hrun
  refine visit_on _ (fun _ r => pure r) hs (fun fp => sees_getFile fun _ =>
    Setting.sim_ite (Setting.sim_pure _) (Setting.sim_loop (sees_lsRound len user) _ _))
      (fun fp b u a w hu htail => ?_) hstop hrun'
  cases htail
  exact hu

/-- A call that spares the volume leaves it as it is. -/
theorem fsCall_spared {call : FsCall} (hs : s.Coherent) (hspares : call.Spares s)
    (hrun : call.run s = .ok () t) : s.view.On t := by
  have hon : s.view.On s := ⟨hs, rfl⟩
  cases call with
  | «open» path flags =>
    obtain ⟨r, u, hcall, hrest⟩ := bind_eq_ok.mp hrun
    cases hrest
    exact open_spared hon hspares hcall
  | read path user buf offset n =>
    cases user with
    | true =>
      obtain ⟨r, u, hcall, hrest⟩ := bind_eq_ok.mp hrun
      cases hrest
      exact read_on hon (fun fp => Setting.sim_loop sees_freadUserRound _ _) hspares hcall
    | false =>
      obtain ⟨r, u, hcall, hrest⟩ := bind_eq_ok.mp hrun
      cases hrest
      exact read_on hon (fun fp => sees_tfFread _) hspares hcall
  | write path buf offset n =>
    obtain ⟨r, u, hcall, hrest⟩ := bind_eq_ok.mp hrun
    cases hrest
    exact write_spared hon hspares hcall
  | mkdir path =>
    obtain ⟨r, u, hcall, hrest⟩ := bind_eq_ok.mp hrun
    cases hrest
    exact tfMkdir_on hon hspares hcall
  | touch path =>
    obtain ⟨r, u, hcall, hrest⟩ := bind_eq_ok.mp hrun
    cases hrest
    obtain ⟨_, v, hcreate, hrest⟩ := bind_eq_ok.mp hcall
    cases hrest
    exact tfCreate_on hon hspares hcreate
  | rm path =>
    obtain ⟨r, u, hcall, hrest⟩ := bind_eq_ok.mp hrun
    cases hrest
    obtain ⟨_, v, hremove, hrest⟩ := bind_eq_ok.mp hcall
    cases hrest
    exact rm_spared hon hspares hremove
  | getFile path =>
    obtain ⟨r, u, hcall, hrest⟩ := bind_eq_ok.mp hrun
    cases hrest
    have hvisit : s.view.visit path (pure ()) = none := (visit_pure path ()).trans hspares
    refine visit_on (fun _ => pure ()) (fun fp _ => PageFaultOS.getFile fp >>= fun f =>
      tfFclose fp >>= fun _ => pure (some f.size)) hon (fun _ => Setting.sim_pure ())
        (fun fp b u a w hu htail => ?_) hvisit hcall
    rw [bind_ok (getFile_run u fp)] at htail
    exact close_on hu htail
  | ls path contents len user =>
    obtain ⟨r, u, hcall, hrest⟩ := bind_eq_ok.mp hrun
    cases hrest
    exact ls_spared hon hspares hcall

end PageFaultOS
