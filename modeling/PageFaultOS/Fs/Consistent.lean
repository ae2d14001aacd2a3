import Mathlib.Tactic
import PageFaultOS.Fs.Spared
import PageFaultOS.Fs.FreeChain
import PageFaultOS.Fs.Endless

/-! When a volume is consistent. The calls that come back keep it so only because they leave it as
it is: where a file of more than one cluster is truncated, a cluster is lost. -/

namespace PageFaultOS
open Exec Exec.Comp ByteMem

variable {V W : View} {s t : Fat32} {fp : Nat} {path : CStr}

/-- `.` and `..`, which have no clusters of their own. -/
def DirFile.Dots (f : DirFile) : Prop := entryByte f.entry 0 = dot

instance (f : DirFile) : Decidable f.Dots := inferInstanceAs (Decidable (_ = _))

namespace View
variable (V)

/-- The clusters of the chain from `c`. -/
def clusters (c : Nat) : List Nat := V.chain (totalClusters V.shape) c

/-- The file at a place begins at the cluster: the root directory is at no place, any other file
at its number in the directory where it is listed. -/
inductive Begins : Option (Nat × Nat) → Nat → Prop where
  | root : Begins none 2
  | file {d i : Nat} {f : DirFile} (hd : V.Directory d) (hf : (V.files d)[i]? = some f)
      (hdots : ¬ f.Dots) : Begins (some (d, i)) f.entry.startCluster

/-- The chain from `c` never comes back, and its last cluster is marked as the end. A file without
clusters begins at `0`. -/
def Ends (c : Nat) : Prop :=
  c = 0 ∨ (V.clusters c).Nodup ∧
    ∃ e ∈ (V.clusters c).getLast?, LastOfChain V.shape V.volume e

instance (c : Nat) : Decidable (V.Ends c) := inferInstanceAs (Decidable (_ ∨ _))

/-- The chains of the files end, no two of them meet, none has a free cluster, each has room for
its file, and there is no other cluster in use. -/
structure Consistent : Prop where
  ends : ∀ p c, V.Begins p c → V.Ends c
  used : ∀ p c, V.Begins p c → ∀ e ∈ V.clusters c, ¬ FreeCluster V.shape V.volume e
  disjoint : ∀ p q c d, V.Begins p c → V.Begins q d → p ≠ q →
    ∀ e ∈ V.clusters c, e ∉ V.clusters d
  size : ∀ d f, V.Directory d → f ∈ V.files d → ¬ f.Dots →
    f.entry.fileSize ≤ (V.clusters f.entry.startCluster).length * clusterBytes V.shape
  owned : ∀ e, DataCluster V.shape e → ¬ FreeCluster V.shape V.volume e →
    ∃ p c, V.Begins p c ∧ e ∈ V.clusters c

variable {V}

/-- A place has one file. -/
theorem Begins.unique {p : Option (Nat × Nat)} {c d : Nat} (h : V.Begins p c)
    (h' : V.Begins p d) : c = d := by
  cases h with
  | root =>
    cases h'
    rfl
  | file hd hf hdots =>
    cases h' with
    | file hd' hf' hdots' =>
      rw [hf] at hf'
      cases hf'
      rfl

end View

/-! ## Truncating -/

/-- What is at a place where chains have got shorter was there before. -/
theorem Cut.begins (h : Cut V W) {p : Option (Nat × Nat)} {c : Nat} (hc : W.Begins p c) :
    V.Begins p c := by
  cases hc with
  | root => exact .root
  | file hd hf hdots =>
    refine .file (h.directory hd) ?_ hdots
    obtain ⟨rest, hrest⟩ := h.files (V := V) _
    rw [← hrest, List.getElem?_append_left (List.getElem?_eq_some_iff.mp hf).1]
    exact hf

namespace View

theorem chain_zero (n : Nat) : V.chain n 0 = [] := by
  cases n with
  | zero => rfl
  | succ n => exact if_neg fun h => absurd h.1 (by decide)

theorem chain_head {n c d : Nat} (h : (V.chain n c)[0]? = some d) : d = c := by
  cases n with
  | zero => cases h
  | succ n =>
    rw [chain] at h
    split at h
    · cases h
      rfl
    · cases h

/-- The clusters of a chain are linked. -/
theorem chain_next {n c i d e : Nat} (hd : (V.chain n c)[i]? = some d)
    (he : (V.chain n c)[i + 1]? = some e) : e = V.entry d := by
  induction n generalizing c i with
  | zero => cases hd
  | succ n ih =>
    rw [chain] at hd he
    by_cases hc : DataCluster V.shape c
    · rw [if_pos hc] at hd he
      cases i with
      | zero =>
        cases hd
        exact chain_head he
      | succ i => exact ih hd he
    · rw [if_neg hc] at hd
      cases hd

/-- A chain that ends goes on behind a cluster that is not its last one. -/
theorem Ends.next {c i d : Nat} (h : V.Ends c) (hd : (V.clusters c)[i]? = some d)
    (hlast : ¬ LastOfChain V.shape V.volume d) : (V.clusters c)[i + 1]? = some (V.entry d) := by
  have hmem := List.mem_of_getElem? hd
  rcases h with rfl | ⟨_, e, he, hend⟩
  · rw [clusters, chain_zero] at hmem
    cases hmem
  · obtain ⟨hi, _⟩ := List.getElem?_eq_some_iff.mp hd
    have hmore : i + 1 < (V.clusters c).length := by
      by_contra hno
      have hlength : (V.clusters c).length - 1 = i := by omega
      rw [Option.mem_def, List.getLast?_eq_getElem?, hlength, hd] at he
      cases he
      exact hlast hend
    have hnext := List.getElem?_eq_getElem hmore
    rw [hnext, chain_next hd hnext]

end View

/-! ## What truncating loses -/

namespace View
variable (V)

/-- The volume with an entry of the FAT set. -/
def withEntry (c value : Nat) : View := { V with volume := setEntry V.shape V.volume c value }

/-- The volume after `tf_free_clusterchain(c)`. -/
def freed (c : Nat) : View := { V with volume := freedFrom V.shape V.volume c }

/-- The volume after the file that begins at the cluster `c` has been truncated. -/
def truncated (c : Nat) : View := (V.freed (V.entry c)).withEntry c tfMarkEoc32

variable {V} {c d i : Nat}

theorem lt_mark (hlayout : Layout V.shape) (hc : DataCluster V.shape c) : c < tfMarkEoc32 :=
  Nat.lt_of_lt_of_le hc.2 hlayout.clusters

theorem lt_bound (hlayout : Layout V.shape) (hc : DataCluster V.shape c) : c < 2 ^ 30 :=
  Nat.lt_trans (lt_mark hlayout hc) (by decide)

theorem withEntry_same (c value : Nat) : (V.withEntry c value).entry c = value % 2 ^ 32 :=
  fatEntry_setEntry_same _ _ rfl

theorem withEntry_other (value : Nat) (hc : c < 2 ^ 30) (hd : d < 2 ^ 30) (hne : d ≠ c) :
    (V.withEntry c value).entry d = V.entry d :=
  fatEntry_setEntry_other _ _ fun h => hne (fatAddr_inj hd hc h)

/-- An entry that is not a link any more. -/
theorem cut_withEntry {value : Nat} (hlayout : Layout V.shape) (hc : c < totalClusters V.shape)
    (hvalue : value = 0 ∨ value = tfMarkEoc32) : Cut V (V.withEntry c value) := by
  have hclusters := hlayout.clusters
  refine cut_setEntry hlayout rfl rfl rfl hc ?_
  rw [DataCluster]
  rcases hvalue with rfl | rfl
  · omega
  · unfold tfMarkEoc32 at hclusters ⊢
    omega

/-- The chain goes on with another cluster. -/
theorem Ends.link (h : V.Ends c) (hd : (V.clusters c)[i]? = some d)
    (hnext : V.entry d < tfMarkEoc32) (hlarge : 2 ≤ V.entry d) :
    (V.clusters c)[i + 1]? = some (V.entry d) :=
  h.next hd (linked_of_entry rfl hlarge hnext).2

theorem Ends.ne {j e : Nat} (h : V.Ends c) (hd : (V.clusters c)[i]? = some d)
    (he : (V.clusters c)[j]? = some e) (hij : i ≠ j) : d ≠ e := by
  rintro rfl
  rcases h with rfl | ⟨hnodup, _⟩
  · rw [clusters, chain_zero] at hd
    cases hd
  · exact hij ((List.getElem?_inj (List.getElem?_eq_some_iff.mp hd).1 hnodup).mp (hd.trans he.symm))

theorem freed_last (h : ¬ Followed (V.entry c)) : V.freed c = V := by
  have hvolume : freedFrom V.shape V.volume c = V.volume := if_neg h
  rw [freed, hvolume]

theorem freed_first (h : Followed (V.entry c))
    (hnext : ¬ Followed ((V.withEntry c 0).entry (V.entry c))) :
    V.freed c = V.withEntry c 0 := by
  have hvolume : freedFrom V.shape V.volume c = setEntry V.shape V.volume c 0 :=
    (if_pos h).trans (if_neg hnext)
  rw [freed, hvolume]
  rfl

theorem freed_third (h : Followed (V.entry c))
    (hnext : Followed ((V.withEntry c 0).entry (V.entry c))) :
    V.freed c = (V.withEntry c 0).withEntry ((V.withEntry c 0).entry (V.entry c)) 0 := by
  have hvolume : freedFrom V.shape V.volume c = setEntry V.shape
      (setEntry V.shape V.volume c 0) ((V.withEntry c 0).entry (V.entry c)) 0 :=
    (if_pos h).trans (if_pos hnext)
  rw [freed, hvolume]
  rfl

/-- Of a chain that goes on behind the cluster `a`, one of the clusters behind `a` is not freed. -/
theorem Ends.kept {a : Nat} (hlayout : Layout V.shape) (h : V.Ends c)
    (ha : (V.clusters c)[i]? = some a) (hb : DataCluster V.shape (V.entry a)) :
    Cut V (V.freed (V.entry a)) ∧ ∃ j l, i < j ∧ (V.clusters c)[j]? = some l ∧
      (V.freed (V.entry a)).entry l = V.entry l := by
  have hdata : ∀ {j e : Nat}, (V.clusters c)[j]? = some e → DataCluster V.shape e :=
    fun he => mem_chain (List.mem_of_getElem? he)
  have hbound : ∀ {e : Nat}, DataCluster V.shape e → e < 2 ^ 30 := lt_bound hlayout
  have hfirst := h.link ha (lt_mark hlayout hb) hb.1
  generalize V.entry a = b at hfirst hb ⊢
  by_cases hfollowed : Followed (V.entry b)
  · have hsecond := h.link hfirst hfollowed.2 (Nat.le_of_lt hfollowed.1)
    have he := hdata hsecond
    have hne := h.ne hsecond hfirst (by omega)
    have hentry := withEntry_other (V := V) 0 (hbound hb) (hbound he) hne
    have hcut := cut_withEntry hlayout hb.2 (Or.inl rfl)
    by_cases hthird : Followed (V.entry (V.entry b))
    · have hnext := h.link hsecond hthird.2 (Nat.le_of_lt hthird.1)
      have hx := hdata hnext
      have hne' := h.ne hsecond hnext (by omega)
      rw [freed_third hfollowed (by rwa [hentry]), hentry]
      refine ⟨hcut.trans (cut_withEntry (V := V.withEntry b 0) hlayout hx.2 (Or.inl rfl)),
        i + 2, V.entry b, by omega, hsecond, ?_⟩
      rw [withEntry_other 0 (hbound hx) (hbound he) hne', hentry]
    · rw [freed_first hfollowed (by rwa [hentry])]
      exact ⟨hcut, i + 2, V.entry b, by omega, hsecond, hentry⟩
  · rw [freed_last hfollowed]
    exact ⟨Cut.refl V, i + 1, b, by omega, hfirst, rfl⟩

theorem cut_cluster {k e : Nat} (h : Cut V W) (hk : (W.clusters c)[k]? = some e) :
    (V.clusters c)[k]? = some e := by
  obtain ⟨rest, hrest⟩ := h.chain (totalClusters V.shape) c
  unfold clusters at hk ⊢
  rw [h.shape] at hk
  rw [← hrest, List.getElem?_append_left (List.getElem?_eq_some_iff.mp hk).1]
  exact hk

/-- A chain is cut off behind a cluster that has no link any more. -/
theorem cut_off {a k e : Nat} (h : Cut V W) (ha : (V.clusters c)[i]? = some a)
    (hmark : ¬ DataCluster W.shape (W.entry a)) (hk : (W.clusters c)[k]? = some e) : k ≤ i := by
  by_contra hlate
  have hk' := (List.getElem?_eq_some_iff.mp hk).1
  have hhere := List.getElem?_eq_getElem (show i < (W.clusters c).length by omega)
  have hnext := List.getElem?_eq_getElem (show i + 1 < (W.clusters c).length by omega)
  have hsame := cut_cluster h hhere
  rw [ha] at hsame
  rw [← Option.some.inj hsame] at hhere
  refine hmark ?_
  rw [← chain_next hhere hnext]
  exact mem_chain (List.mem_of_getElem? hnext)

/-- So it is lost: it is not free, and belongs to no file any more. -/
theorem Consistent.truncated {a : Nat} (hlayout : Layout V.shape) (h : V.Consistent)
    (ha : DataCluster V.shape a) (hb : DataCluster V.shape (V.entry a)) :
    ¬ (V.truncated a).Consistent := by
  intro hafter
  have hused : ¬ FreeCluster V.shape V.volume a :=
    (linked_of_entry rfl hb.1 (lt_mark hlayout hb)).1
  obtain ⟨p, c, hp, hmem⟩ := h.owned a ha hused
  obtain ⟨i, hi⟩ := List.mem_iff_getElem?.mp hmem
  obtain ⟨hfreed, j, l, hij, hl, hkept⟩ := (h.ends p c hp).kept hlayout hi hb
  have hcut : Cut V (V.truncated a) :=
    hfreed.trans (cut_withEntry (V := V.freed (V.entry a)) hlayout ha.2 (Or.inr rfl))
  have hdata : DataCluster V.shape l := mem_chain (List.mem_of_getElem? hl)
  have hla : l ≠ a := (h.ends p c hp).ne hl hi (by omega)
  have hentry : (V.truncated a).entry l = V.entry l := by
    rw [View.truncated, withEntry_other _ (lt_bound hlayout ha) (lt_bound hlayout hdata) hla, hkept]
  have hused' : ¬ FreeCluster V.shape (V.truncated a).volume l := by
    intro hfree
    refine h.used p c hp l (List.mem_of_getElem? hl) ?_
    rw [FreeCluster] at hfree ⊢
    rw [← hfree]
    exact congrArg (· &&& 0x0fffffff) hentry.symm
  obtain ⟨q, d, hq, hin⟩ := hafter.owned l hdata hused'
  obtain ⟨k, hk⟩ := List.mem_iff_getElem?.mp hin
  have hk' := cut_cluster hcut hk
  have hpq : p = q := by
    by_contra hne
    exact h.disjoint p q c d hp (hcut.begins hq) hne l (List.mem_of_getElem? hl)
      (List.mem_of_getElem? hk')
  subst hpq
  have hcd := hp.unique (hcut.begins hq)
  subst hcd
  have hkj : k = j := by
    by_contra hne
    exact (h.ends p c hp).ne hk' hl hne rfl
  have hmark : ¬ DataCluster (V.truncated a).shape ((V.truncated a).entry a) := by
    intro hmark
    have hvalue : (V.truncated a).entry a = tfMarkEoc32 := withEntry_same a _
    rw [hvalue] at hmark
    exact absurd hmark.2 (Nat.not_lt.mpr hlayout.clusters)
  have hle := cut_off hcut hi hmark hk
  omega

end View

/-- The code does so. -/
theorem truncate_truncates {c : TFFile} (hs : (V.setting fp).R s c) (hshort : Shortened V c)
    (hrun : truncate fp s = .ok () t) : (V.truncated c.startCluster).On t := by
  rcases truncate_cases hs hrun with ⟨hnot, _⟩ | ⟨_, u, hu, hrest⟩
  · exact absurd hshort hnot
  · obtain ⟨hco, rfl⟩ := hu
    obtain ⟨v, hfree, hv⟩ := tfFreeClusterchain_run hco (u.view.entry c.startCluster)
    obtain ⟨w, hset, hw⟩ := tfSetFatEntry_run hv.coherent c.startCluster tfMarkEoc32
    rw [bind_ok hfree, hset] at hrest
    cases hrest
    refine ⟨hw.coherent, ?_⟩
    rw [Fat32.view, hw.shape, hv.shape, hw.volume, hv.shape, hv.volume, hw.stale, hv.stale]
    rfl

/-- `open` with `O_CREATE` of a file with more than one cluster leaves the volume inconsistent. -/
theorem open_inconsistent {c : TFFile} {flags : Nat} {r : Option OpenFile} (hs : s.Coherent)
    (hlayout : Layout s.info.shape) (h : s.view.Consistent) (hcreate : flags &&& oCreate ≠ 0)
    (hfound : s.view.lookup path = .ok true c) (hregular : c.attributes &&& tfAttrDirectory = 0)
    (ha : DataCluster s.info.shape c.startCluster)
    (hb : DataCluster s.info.shape (s.view.entry c.startCluster))
    (hrun : Fat32.open path flags s = .ok r t) : ¬ t.view.Consistent := by
  have hon : s.view.On s := ⟨hs, rfl⟩
  have hlink := View.lt_mark (V := s.view) hlayout hb
  have hshort : Shortened s.view c := ⟨hregular, by omega⟩
  have hstop : View.stopAt (s.view.lookup path) = none := by
    rw [hfound]
    rfl
  unfold Fat32.open at hrun
  rw [if_pos hcreate] at hrun
  obtain ⟨p, u, hopen, hrest⟩ := bind_eq_ok.mp hrun
  have hopened := tfFopen_openedAs hon hstop
    (fun _ d hd => by rw [hfound] at hd; cases hd) hopen
  have huntouched := openFound_untouched flags (p := p) (s := u) fun fp hfp =>
    tfFopen_clean (hfp ▸ hopen)
  rcases hopened with ⟨rfl, _⟩ | ⟨⟨d, hd⟩, _⟩ | ⟨fp, d, v, w, hd, rfl, hrel, htruncate, hto⟩
  · rw [if_neg fun h => by cases h.1] at hrest
    cases hrest
  · rw [hfound] at hd
    cases hd
  · rw [hfound] at hd
    cases hd
    rw [if_neg fun h => by cases h.1] at hrest
    rw [hrest] at huntouched
    have hw := truncate_truncates hrel hshort htruncate
    obtain ⟨_, hview⟩ := (hto.trans huntouched.2).on hw
    rw [hview]
    exact h.truncated hlayout ha hb

/-! ## Runs -/

/-- A run of the operations on a consistent volume. -/
def VolumeReach (ok : Fat32 → FsCall → Prop) : Fat32 → Prop :=
  Run.Reach (fun s => s.Coherent ∧ s.view.Consistent)
    (fun s (call : FsCall) t => call.run s = .ok () t) ok

/-- The volume stays consistent as long as each call spares it. -/
theorem volume_stays_consistent (s : Fat32) (h : VolumeReach (fun s call => call.Spares s) s) :
    s.view.Consistent := by
  have hinv : s.Coherent ∧ s.view.Consistent := by
    refine Run.Reach.invariant (I := fun s : Fat32 => s.Coherent ∧ s.view.Consistent)
      (fun _ h => h) (fun s call t hs hspares hstep => ?_) h
    obtain ⟨hco, hview⟩ := fsCall_spared hs.1 hspares hstep
    refine ⟨hco, ?_⟩
    rw [hview]
    exact hs.2
  exact hinv.2

/-! ## A volume with one directory -/

namespace View
variable (V)

/-- Where the files of the root directory begin, and the root directory itself. -/
def starts : List Nat := 2 :: (V.files 2).map fun f => f.entry.startCluster

variable {V}

/-- The files of a volume whose only directory is the root directory. -/
theorem Begins.of_root {p : Option (Nat × Nat)} {c : Nat} (h : V.Begins p c)
    (hfiles : ∀ f ∈ V.files 2, f.entry.attributes &&& tfAttrDirectory = 0) :
    ∃ i, V.starts[i]? = some c ∧ p = if i = 0 then none else some (2, i - 1) := by
  cases h with
  | root => exact ⟨0, rfl, rfl⟩
  | file hd hf hdots =>
    rename_i d i f
    have hroot := hd.eq_root hfiles
    subst hroot
    refine ⟨i + 1, ?_, by simp⟩
    rw [starts, List.getElem?_cons_succ, List.getElem?_map, hf]
    rfl

theorem begins_of_mem {c : Nat} (hdots : ∀ f ∈ V.files 2, ¬ f.Dots) (hc : c ∈ V.starts) :
    ∃ p, V.Begins p c := by
  rcases List.mem_cons.mp hc with rfl | hfile
  · exact ⟨none, .root⟩
  · obtain ⟨f, hf, rfl⟩ := List.mem_map.mp hfile
    obtain ⟨i, hi⟩ := List.mem_iff_getElem?.mp hf
    exact ⟨some (2, i), .file .root hi (hdots f hf)⟩

theorem consistent_of_root
    (hfiles : ∀ f ∈ V.files 2, f.entry.attributes &&& tfAttrDirectory = 0 ∧ ¬ f.Dots ∧
      f.entry.fileSize ≤ (V.clusters f.entry.startCluster).length * clusterBytes V.shape)
    (hends : ∀ c ∈ V.starts, V.Ends c ∧ ∀ e ∈ V.clusters c, ¬ FreeCluster V.shape V.volume e)
    (hdisjoint : V.starts.Pairwise fun c d => ∀ e ∈ V.clusters c, e ∉ V.clusters d)
    (howned : ∀ e < totalClusters V.shape, 2 ≤ e → ¬ FreeCluster V.shape V.volume e →
      ∃ c ∈ V.starts, e ∈ V.clusters c) : V.Consistent := by
  have hregular : ∀ f ∈ V.files 2, f.entry.attributes &&& tfAttrDirectory = 0 :=
    fun f hf => (hfiles f hf).1
  have hmem : ∀ {p c}, V.Begins p c → c ∈ V.starts := fun h => by
    obtain ⟨i, hi, _⟩ := h.of_root hregular
    exact List.mem_of_getElem? hi
  refine ⟨fun p c h => (hends c (hmem h)).1, fun p c h => (hends c (hmem h)).2,
    fun p q c d hp hq hne e he hd => ?_, fun d f hd hf _ => ?_, fun e he hused => ?_⟩
  · obtain ⟨i, hi, rfl⟩ := hp.of_root hregular
    obtain ⟨j, hj, rfl⟩ := hq.of_root hregular
    obtain ⟨hi', rfl⟩ := List.getElem?_eq_some_iff.mp hi
    obtain ⟨hj', rfl⟩ := List.getElem?_eq_some_iff.mp hj
    rcases Nat.lt_trichotomy i j with hij | hij | hij
    · exact List.pairwise_iff_getElem.mp hdisjoint i j hi' hj' hij e he hd
    · exact hne (by rw [hij])
    · exact List.pairwise_iff_getElem.mp hdisjoint j i hj' hi' hij e hd he
  · rw [hd.eq_root hregular] at hf
    exact (hfiles f hf).2.2
  · obtain ⟨c, hc, hin⟩ := howned e he.2 he.1 hused
    obtain ⟨p, hp⟩ := begins_of_mem (fun f hf => (hfiles f hf).2.1) hc
    exact ⟨p, c, hp, hin⟩

end View

theorem oneFile_consistent : oneFile.view.Consistent := by
  apply View.consistent_of_root
  · decide +kernel
  · decide +kernel
  · decide +kernel
  · decide +kernel

/-- Its file is read. -/
theorem volume_stays_consistent_read : ∃ t,
    FsCall.run (.read [slash, 0x41] false 0 0 1) oneFile = .ok () t ∧ t.view.Consistent := by
  have hvalue : (FsCall.run (.read [slash, 0x41] false 0 0 1) oneFile).value = some () := by
    decide +kernel
  obtain ⟨t, ht⟩ := Res.eq_ok_of_value hvalue
  have hnone : ((ReadCall.read [slash, 0x41] false 0 0 1).pastEnd oneFile).isNone = true := by
    decide +kernel
  have hspares : (FsCall.read [slash, 0x41] false 0 0 1).Spares oneFile :=
    Option.isNone_iff_eq_none.mp hnone
  exact ⟨t, ht, volume_stays_consistent t
    (.next (.start ⟨oneFile_start.1, oneFile_consistent⟩) hspares ht)⟩

/-- With `O_CREATE` it is opened, and its second cluster is lost. -/
theorem oneFile_leaks : ¬ ∀ s, VolumeReach (fun _ _ => True) s → s.view.Consistent := by
  intro hall
  have hvalue : (Fat32.open [slash, 0x41] oCreate oneFile).value.isSome = true := by
    decide +kernel
  obtain ⟨r, hr⟩ := Option.isSome_iff_exists.mp hvalue
  obtain ⟨t, ht⟩ := Res.eq_ok_of_value hr
  have hrun : FsCall.run (.open [slash, 0x41] oCreate) oneFile = .ok () t := bind_ok ht _
  obtain ⟨c, hc, hregular, hstart⟩ := View.lookup_of_decide oneFile.view [slash, 0x41]
    (fun c => c.attributes &&& tfAttrDirectory = 0 ∧ c.startCluster = 3)
    (by decide +kernel) (by decide +kernel)
  have hthree : oneFile.view.entry 3 = 4 := by decide +kernel
  have hlayout : Layout oneFile.info.shape := ⟨by decide, by decide, by decide⟩
  have hreach : VolumeReach (fun _ _ => True) t :=
    .next (.start ⟨oneFile_start.1, oneFile_consistent⟩) trivial hrun
  refine open_inconsistent oneFile_start.1 hlayout oneFile_consistent (by decide) hc hregular ?_ ?_
    ht (hall t hreach)
  · rw [hstart]
    decide
  · rw [hstart, hthree]
    decide

end PageFaultOS
