import Mathlib.Tactic
import PageFaultOS.Fs.Truncated
import PageFaultOS.Fs.ReadOnly

/-! Making an entry does not come to an end. `tf_create` and `tf_mkdir` seek to an entry of the
directory; the 32 bytes that they write there are copied over the one byte of a `bool`. Where
the parent is no directory but a file, they write in front of it. -/

namespace PageFaultOS
open Exec Exec.Comp ByteMem

variable {s t : Fat32} {fp : Nat}

/-! ## What seeking leaves as it is -/

/-- The place in a file, and its size. -/
def TFFile.place (f : TFFile) : Nat × Nat × Int := (f.size, f.pos, f.currentByte)

theorem keeps_place (fp n : Nat) : Keeps (fun s => (s.handles fp).place) (seekCluster fp n) :=
  keeps_seekCluster n (fun _ _ _ => rfl) fun s c i => by
    rw [s.setFile_self]
    rfl

/-- `tf_choose_sfn` works on a copy of the handle. -/
theorem keeps_tfChooseSfn (hfp : fp < tfFileHandles) (dest : List UInt8) (src : CStr) (p : Nat) :
    Keeps (fun s => s.handles fp) (tfChooseSfn dest src p) := by
  have hother : Blind (fun s => s.handles fp) xfile := blind_other (Nat.ne_of_lt hfp)
  refine keeps_bind (keeps_getFile _ _) fun _ => keeps_bind (hother.modifyFile _) fun _ =>
    keeps_loop (fun x => ?_) _ _
  obtain ⟨num, dest⟩ := x
  exact keeps_bind (hother.tfFindFile _) fun _ => keeps_ite (keeps_pure _ _) (keeps_pure _ _)

/-! ## At an entry of a directory -/

/-- A directory, at one of its entries. -/
structure Aligned (f : TFFile) : Prop where
  size : f.size = 0xffffffff
  pos : f.pos % 32 = 0
  lt : f.pos < 2 ^ 32
  byte : f.currentByte % 32 = 0

theorem Aligned.place {f g : TFFile} (h : Aligned f) (hg : g.place = f.place) : Aligned g := by
  obtain ⟨hsize, hrest⟩ := Prod.ext_iff.mp hg
  obtain ⟨hpos, hbyte⟩ := Prod.ext_iff.mp hrest
  have hsize' : g.size = f.size := hsize
  have hpos' : g.pos = f.pos := hpos
  have hbyte' : g.currentByte = f.currentByte := hbyte
  refine ⟨?_, ?_, ?_, ?_⟩
  · rw [hsize', h.size]
  · rw [hpos', h.pos]
  · rw [hpos']
    exact h.lt
  · rw [hbyte', h.byte]

/-- What is read or written at once: the entry, or at the very end of the directory one byte
less. -/
theorem Aligned.chunk {f : TFFile} (h : Aligned f) (hbyte : ¬ f.currentByte < 0) :
    PageFaultOS.chunk f 32 = 32 ∨ PageFaultOS.chunk f 32 = 31 ∧ f.size = f.pos + 31 := by
  obtain ⟨hsize, hpos, hlt, halign⟩ := h
  have hmod : f.currentByte.tmod 512 = f.currentByte % 512 :=
    Int.tmod_eq_emod_of_nonneg (by omega)
  rw [PageFaultOS.chunk, hmod, u32, hsize]
  omega

theorem tmod_dvd (pos : Int) (shape : TFShape) (h : pos % 32 = 0) :
    pos.tmod (clusterBytes shape) % 32 = 0 := by
  have hsum := Int.tmod_add_mul_tdiv pos (clusterBytes shape)
  have hcluster : ((clusterBytes shape : Nat) : Int) = 32 * (16 * shape.sectorsPerCluster) := by
    rw [clusterBytes]
    push_cast
    ring
  rw [hcluster, Int.mul_assoc] at hsum
  rw [hcluster]
  omega

theorem tfUnsafeFseek_aligned {base offset r : Int} (h : Aligned (s.handles fp))
    (hpos : (base + offset) % 32 = 0) (hrun : tfUnsafeFseek fp base offset s = .ok r t) :
    Aligned (t.handles fp) := by
  replace hpos : toLong (base + offset) % 32 = 0 := by
    rw [toLong, Int.bmod]
    omega
  unfold tfUnsafeFseek at hrun
  generalize toLong (base + offset) = pos at hpos hrun
  rw [bind_ok (getFile_run s fp)] at hrun
  split at hrun
  · cases hrun
    exact h
  · have hgrow : growAtEnd fp pos s = .ok () s := by
      unfold growAtEnd
      rw [bind_ok (getFile_run s fp), if_neg (by rw [h.size]; omega)]
      rfl
    rw [bind_ok hgrow, read_bind] at hrun
    obtain ⟨r', u, hseek, hrun⟩ := bind_eq_ok.mp hrun
    have hu : Aligned (u.handles fp) := h.place (keeps_place fp _ _ _ _ hseek)
    split at hrun
    · cases hrun
      exact hu
    · cases hrun
      have hmod := tmod_dvd pos s.info.shape hpos
      rw [u.setFile_self]
      refine ⟨hu.size, ?_, ?_, ?_⟩
      · show u32OfInt pos % 32 = 0
        rw [u32OfInt]
        omega
      · show u32OfInt pos < 2 ^ 32
        rw [u32OfInt]
        omega
      · show toShort (pos.tmod (clusterBytes s.info.shape)) % 32 = 0
        rw [toShort, Int.bmod]
        omega

theorem tfFseek_aligned {base offset r : Int} (h : Aligned (s.handles fp))
    (hpos : (toInt base + offset) % 32 = 0) (hrun : tfFseek fp base offset s = .ok r t) :
    Aligned (t.handles fp) := by
  unfold tfFseek at hrun
  rw [bind_ok (getFile_run s fp)] at hrun
  split at hrun
  · cases hrun
    exact h
  · exact tfUnsafeFseek_aligned h hpos hrun

/-- After a round there is nothing more to read. -/
theorem freadRound_aligned {dest : List UInt8} {x : (Nat × List UInt8) ⊕ List UInt8}
    (h : Aligned (s.handles fp)) (hrun : freadRound fp (32, dest) s = .ok x t) :
    Aligned (t.handles fp) ∧ ∀ p, x = .inl p → p.1 = 0 := by
  obtain ⟨u, hfetch, hhandles⟩ := tfFetch_handles (fileSector s.info.shape (s.handles fp)) s
  unfold freadRound at hrun
  simp only at hrun
  rw [if_neg (by decide), bind_ok (getFile_run s fp), read_bind, bind_ok hfetch] at hrun
  split at hrun
  · cases hrun
  · rename_i hbyte
    rw [read_bind] at hrun
    have hu : Aligned (u.handles fp) := hhandles ▸ h
    rcases h.chunk hbyte with hchunk | ⟨hchunk, hend⟩
    · rw [hchunk] at hrun
      obtain ⟨r, v, hseek, hrun⟩ := bind_eq_ok.mp hrun
      have hpos := h.pos
      have hzero : toInt 0 = 0 := rfl
      have hv := tfFseek_aligned hu (by rw [hzero]; omega) hseek
      split at hrun
      · cases hrun
        exact ⟨hv, fun p hp => by cases hp⟩
      · cases hrun
        refine ⟨hv, fun p hp => ?_⟩
        cases hp
        rfl
    · have hlt := h.lt
      have hseek : tfFseek fp 0 ((s.handles fp).pos + 31 : Nat) u = .ok tfErrInvalidSeek u := by
        apply tfFseek_behind
        · rw [hhandles, hend]
        · omega
      rw [hchunk, bind_ok hseek, if_pos (by decide)] at hrun
      cases hrun
      exact ⟨hu, fun p hp => by cases hp⟩

theorem freadEntry_aligned {entry e : FatFileEntry} (h : Aligned (s.handles fp))
    (hrun : freadEntry entry fp s = .ok e t) : Aligned (t.handles fp) := by
  obtain ⟨bytes, u, hread, hrest⟩ := bind_eq_ok.mp hrun
  cases hrest
  unfold tfFread at hread
  rw [show fileRounds = (2 ^ 33 - 2) + 1 + 1 from rfl, loop_succ] at hread
  obtain ⟨x, v, hround, hread⟩ := bind_eq_ok.mp hread
  obtain ⟨hv, hdone⟩ := freadRound_aligned h hround
  cases x with
  | inr dest =>
    cases hread
    exact hv
  | inl p =>
    obtain ⟨size, dest⟩ := p
    have hsize : size = 0 := hdone _ rfl
    have hstop : freadRound fp (0, dest) v = .ok (.inr dest) v := rfl
    rw [hsize] at hread
    simp only at hread
    rw [loop_done hstop] at hread
    cases hread
    exact hv

theorem toInt_aligned {base : Int} (h : base % 32 = 0) : toInt base % 32 = 0 := by
  rw [toInt, Int.bmod]
  split
  · omega
  · omega

theorem seekBy_aligned {base r : Int} (h : Aligned (s.handles fp)) (hbase : base % 32 = 0)
    (hrun : seekBy fp base s = .ok r t) : Aligned (t.handles fp) := by
  unfold seekBy at hrun
  rw [bind_ok (getFile_run s fp)] at hrun
  have hpos := h.pos
  have hbase' := toInt_aligned hbase
  exact tfFseek_aligned h (by omega) hrun

/-! ## Searching a directory -/

theorem compareLfn_aligned {n m : Nat} {p : Nat × CStr × FatFileEntry} {r : Int}
    (h : Aligned (s.handles fp)) (hrun : loop (compareLfnRound fp m) n p s = .ok r t) :
    Aligned (t.handles fp) := by
  induction n generalizing p s with
  | zero => cases hrun
  | succ n ih =>
    rw [loop_succ] at hrun
    obtain ⟨x, u, hround, hrest⟩ := bind_eq_ok.mp hrun
    obtain ⟨i, name, entry⟩ := p
    simp only [compareLfnRound] at hround
    split at hround
    · -- all entries of the name are the same
      obtain ⟨_, v, hseek, hround⟩ := bind_eq_ok.mp hround
      cases hround
      cases hrest
      exact seekBy_aligned h (by omega) hseek
    · obtain ⟨_, v, hback, hround⟩ := bind_eq_ok.mp hround
      obtain ⟨e, w, hread, hround⟩ := bind_eq_ok.mp hround
      have hw := freadEntry_aligned (seekBy_aligned h (by omega) hback) hread
      split at hround
      · obtain ⟨_, y, hseek, hround⟩ := bind_eq_ok.mp hround
        cases hround
        cases hrest
        exact seekBy_aligned hw (by omega) hseek
      · obtain ⟨_, y, hseek, hround⟩ := bind_eq_ok.mp hround
        cases hround
        exact ih (seekBy_aligned hw (by omega) hseek) hrest

theorem tfCompareFilename_aligned {name : CStr} {r : Int} (h : Aligned (s.handles fp))
    (hrun : tfCompareFilename fp name s = .ok r t) : Aligned (t.handles fp) := by
  unfold tfCompareFilename at hrun
  rw [read_bind] at hrun
  obtain ⟨e, u, hread, hrun⟩ := bind_eq_ok.mp hrun
  have hu := freadEntry_aligned h hread
  split at hrun
  · cases hrun
    exact hu
  · split at hrun
    · split at hrun
      · obtain ⟨_, v, hseek, hrun⟩ := bind_eq_ok.mp hrun
        cases hrun
        exact seekBy_aligned hu (by omega) hseek
      · cases hrun
        exact hu
    · split at hrun
      · obtain ⟨_, v, hseek, hrun⟩ := bind_eq_ok.mp hrun
        have hv := seekBy_aligned hu (by rw [u32]; omega) hseek
        split at hrun
        · cases hrun
          exact hv
        · exact compareLfn_aligned hv hrun
      · cases hrun
        exact hu

theorem tfFindFile_aligned {name : CStr} {r : Int} (h : Aligned (s.handles fp))
    (hrun : tfFindFile fp name s = .ok r t) : Aligned (t.handles fp) := by
  obtain ⟨_, u, hseek, hrun⟩ := bind_eq_ok.mp hrun
  have hu := tfFseek_aligned h (by decide) hseek
  generalize fileRounds = n at hrun
  clear hseek
  induction n generalizing u with
  | zero => cases hrun
  | succ n ih =>
    rw [loop_succ] at hrun
    obtain ⟨x, v, hround, hrest⟩ := bind_eq_ok.mp hrun
    obtain ⟨rc, w, hcompare, hround⟩ := bind_eq_ok.mp hround
    have hw := tfCompareFilename_aligned hu hcompare
    split at hround
    · cases hround
      cases hrest
      exact hw
    · split at hround
      · cases hround
        cases hrest
        exact hw
      · cases hround
        exact ih _ hw hrest

/-! ## Writing -/

/-- Here `tf_fwrite` of an entry does not return. -/
def Unwritable (f : TFFile) : Prop := Aligned f ∨ f.currentByte < 0

theorem copyToFlag_many {byte : UInt8} {src x : Nat} (hx : 1 < x) :
    copyToFlag byte src x s ≠ .ok () t := by
  intro hrun
  unfold copyToFlag at hrun
  rw [read_bind] at hrun
  obtain ⟨_, u, _, hrun⟩ := bind_eq_ok.mp hrun
  rw [if_pos hx] at hrun
  cases hrun

theorem tfFwrite_aligned (h : Aligned (s.handles fp)) (src : Nat) {r : Int} :
    tfFwrite src 32 fp s ≠ .ok r t := by
  intro hrun
  by_cases hbefore : (s.handles fp).currentByte < 0
  · exact tfFwrite_before hbefore src hrun
  · unfold tfFwrite at hrun
    rw [bind_ok (modifyFile_run s fp _)] at hrun
    generalize hs : s.setFile fp { s.handles fp with
      flags := (s.handles fp).flags ||| tfFlagDirty } = u at hrun
    have hplace : (u.handles fp).place = (s.handles fp).place := by
      rw [← hs, s.setFile_self]
      rfl
    have hu : Aligned (u.handles fp) := h.place hplace
    have hbyte : ¬ (u.handles fp).currentByte < 0 := by
      rw [← hs, s.setFile_self]
      exact hbefore
    obtain ⟨v, hfetch, _⟩ := tfFetch_handles (fileSector u.info.shape (u.handles fp)) u
    rw [show fileRounds = (2 ^ 33 - 1) + 1 from rfl, loop_succ] at hrun
    obtain ⟨x, w, hround, _⟩ := bind_eq_ok.mp hrun
    unfold fwriteRound at hround
    simp only at hround
    rw [if_neg (by decide), bind_ok (getFile_run u fp), read_bind, bind_ok hfetch, if_neg hbyte,
      read_bind] at hround
    obtain ⟨_, y, hcopy, _⟩ := bind_eq_ok.mp hround
    have hmany : 1 < chunk (u.handles fp) 32 := by
      rcases hu.chunk hbyte with hchunk | ⟨hchunk, _⟩
      · omega
      · omega
    exact copyToFlag_many hmany hcopy

theorem fwriteEntry_never (h : Unwritable (s.handles fp)) : fwriteEntry fp s ≠ .ok () t := by
  intro hrun
  unfold fwriteEntry at hrun
  rw [read_bind] at hrun
  obtain ⟨r, u, hwrite, _⟩ := bind_eq_ok.mp hrun
  rcases h with h | h
  · exact tfFwrite_aligned h _ hwrite
  · exact tfFwrite_before h _ hwrite

/-- There is an entry for each part of a long name, and at least one. -/
theorem tfPlaceLfnChain_never (h : Unwritable (s.handles fp)) (filename : CStr) :
    tfPlaceLfnChain fp filename s ≠ .ok () t := by
  intro hrun
  obtain ⟨n, hn⟩ : ∃ n, max 1 ((filename.length + 12) / 13) = n + 1 :=
    ⟨max 1 ((filename.length + 12) / 13) - 1, by omega⟩
  unfold tfPlaceLfnChain at hrun
  rw [hn, List.range_succ_eq_map] at hrun
  obtain ⟨_, u, hwrite, _⟩ := bind_eq_ok.mp hrun
  exact fwriteEntry_never h hwrite

/-! ## Placing an entry -/

/-- What `tf_parent` opens: a directory at an entry, or a file that it has truncated. -/
def ParentFile (f : TFFile) : Prop := Aligned f ∨ Truncated f

theorem skipEntries_parent {n : Nat} {entry e : FatFileEntry} (h : ParentFile (s.handles fp))
    (hrun : loop (skipEntriesRound fp) n entry s = .ok e t) : ParentFile (t.handles fp) := by
  induction n generalizing entry s with
  | zero => cases hrun
  | succ n ih =>
    rw [loop_succ] at hrun
    obtain ⟨x, u, hround, hrest⟩ := bind_eq_ok.mp hrun
    obtain ⟨e', v, hread, hround⟩ := bind_eq_ok.mp hround
    have hv : ParentFile (v.handles fp) := by
      rcases h with h | h
      · exact Or.inl (freadEntry_aligned h hread)
      · obtain ⟨e'', v', hread', hhandles⟩ := freadEntry_truncated h entry
        rw [hread'] at hread
        cases hread
        exact Or.inr (hhandles ▸ h)
    split at hround
    · cases hround
      exact ih hv hrest
    · cases hround
      cases hrest
      exact hv

theorem seekBy_unwritable {r : Int} (h : ParentFile (s.handles fp))
    (hrun : seekBy fp (-32) s = .ok r t) : Unwritable (t.handles fp) := by
  rcases h with h | h
  · exact Or.inl (seekBy_aligned h (by decide) hrun)
  · obtain ⟨u, hback, hbefore⟩ := seekBy_before h
    rw [hback] at hrun
    cases hrun
    exact Or.inr hbefore

theorem placeEntry_never (hfp : fp < tfFileHandles) (h : ParentFile (s.handles fp))
    (filename : CStr) : placeEntry fp filename s ≠ .ok () t := by
  intro hrun
  unfold placeEntry at hrun
  rw [read_bind] at hrun
  obtain ⟨entry, u, hskip, hrun⟩ := bind_eq_ok.mp hrun
  obtain ⟨r, v, hseek, hrun⟩ := bind_eq_ok.mp hrun
  obtain ⟨cluster, w, hfree, hrun⟩ := bind_eq_ok.mp hrun
  obtain ⟨_, x, hset, hrun⟩ := bind_eq_ok.mp hrun
  have hx : Unwritable (x.handles fp) := by
    rw [uncached_handles.tfSetFatEntry _ _ _ _ _ hset, uncached_handles.findFree 0 _ _ _ hfree]
    exact seekBy_unwritable (skipEntries_parent h hskip) hseek
  cases hn : strrchr filename slash with
  | none =>
    rw [hn] at hrun
    cases hrun
  | some n =>
    rw [hn] at hrun
    obtain ⟨sfn, y, hchoose, hrun⟩ := bind_eq_ok.mp hrun
    obtain ⟨_, z, hplace, _⟩ := bind_eq_ok.mp hrun
    have hy : Unwritable (y.handles fp) := by
      have hkeep : y.handles fp = x.handles fp := keeps_tfChooseSfn hfp _ _ _ _ _ _ hchoose
      rw [hkeep]
      exact hx
    exact tfPlaceLfnChain_never hy _ hplace

/-- `tf_fflush` never gets past the parent. -/
theorem flushEntry_never (h : ParentFile (s.handles fp)) (filename : CStr) :
    flushEntry filename fp s ≠ .ok () t := by
  rcases h with h | h
  · intro hrun
    unfold flushEntry at hrun
    cases hn : strrchr filename slash with
    | none =>
      rw [hn] at hrun
      cases hrun
    | some n =>
      rw [hn] at hrun
      obtain ⟨_, u, hfind, hrun⟩ := bind_eq_ok.mp hrun
      rw [read_bind] at hrun
      obtain ⟨e, v, hread, hrun⟩ := bind_eq_ok.mp hrun
      obtain ⟨_, w, hback, hrun⟩ := bind_eq_ok.mp hrun
      rw [read_bind] at hrun
      obtain ⟨_, x, hwrite, _⟩ := bind_eq_ok.mp hrun
      have hv := freadEntry_aligned (tfFindFile_aligned h hfind) hread
      exact tfFwrite_aligned (seekBy_aligned hv (by decide) hback) _ hwrite
  · exact flushEntry_truncated h filename

/-! ## Opening the parent -/

/-- A file at its beginning, which is at an entry if the file is a directory. -/
structure Begun (f : TFFile) : Prop where
  pos : f.pos = 0
  byte : f.currentByte = 0
  size : f.attributes &&& tfAttrDirectory ≠ 0 → f.size = 0xffffffff

theorem begun_enter (e : FatFileEntry) (f : TFFile) : Begun (enter e f) :=
  ⟨rfl, rfl, fun hdir => if_pos hdir⟩

theorem Begun.aligned {f : TFFile} (h : Begun f) (hdir : f.attributes &&& tfAttrDirectory ≠ 0) :
    Aligned f := by
  obtain ⟨hpos, hbyte, hsize⟩ := h
  exact ⟨hsize hdir, by rw [hpos], by rw [hpos]; decide, by rw [hbyte]; decide⟩

section
variable {P : TFFile → Prop} (hP : ∀ e f, P (enter e f))
include hP

/-- What holds of a file that is entered holds behind each level of the path that exists. -/
theorem walkRound_entered {path : CStr} {x : CStr ⊕ Bool} (h : P (s.handles fp))
    (hrun : walkRound fp path s = .ok x t) (hx : x ≠ .inr false) : P (t.handles fp) := by
  obtain ⟨rest, u, hwalk, hrun⟩ := bind_eq_ok.mp hrun
  rw [bind_ok (getFile_run u fp)] at hrun
  split at hrun
  · cases hrun
    exact absurd rfl hx
  · rename_i hflags
    have ht : t = u := by
      cases rest with
      | none =>
        cases hrun
        rfl
      | some rest =>
        cases hrun
        rfl
    rw [ht]
    unfold tfWalk at hwalk
    simp only at hwalk
    split at hwalk
    · cases hwalk
      exact h
    · obtain ⟨rc, v, _, hwalk⟩ := bind_eq_ok.mp hwalk
      split at hwalk
      · -- the path does not exist
        cases hwalk
        rw [v.setFile_self] at hflags
        exact absurd rfl hflags
      · rw [read_bind] at hwalk
        obtain ⟨e, w, _, hwalk⟩ := bind_eq_ok.mp hwalk
        cases hwalk
        rw [w.setFile_self]
        exact hP e _

theorem walk_loop_entered {n : Nat} {path : CStr} (h : P (s.handles fp))
    (hrun : loop (walkRound fp) n path s = .ok true t) : P (t.handles fp) := by
  induction n generalizing path s with
  | zero => cases hrun
  | succ n ih =>
    rw [loop_succ] at hrun
    obtain ⟨x, u, hround, hrest⟩ := bind_eq_ok.mp hrun
    cases x with
    | inl rest => exact ih (walkRound_entered hP h hround fun hx => by cases hx) hrest
    | inr found =>
      cases hrest
      exact walkRound_entered hP h hround fun hx => by cases hx

end

theorem truncate_directory (hdir : (s.handles fp).attributes &&& tfAttrDirectory ≠ 0) :
    truncate fp s = .ok () s := by
  unfold truncate
  rw [bind_ok (getFile_run s fp), if_neg hdir]
  rfl

theorem afterWalk_begun {filename : CStr} {found : Bool} {fp' : Nat}
    (hfp : fp < tfFileHandles) (h : found = true → Begun (s.handles fp'))
    (hrun : afterWalk .rw filename fp' found s = .ok (.handle fp) t)
    (hdir : (t.handles fp).attributes &&& tfAttrDirectory ≠ 0) : Aligned (t.handles fp) := by
  unfold afterWalk at hrun
  cases found with
  | false =>
    rw [if_pos rfl] at hrun
    obtain ⟨_, u, _, hnull⟩ := bind_eq_ok.mp hrun
    cases hnull
  | true =>
    rw [if_neg (by decide)] at hrun
    obtain ⟨_, u, htruncate, hrest⟩ := bind_eq_ok.mp hrun
    cases hrest
    rw [u.setFile_self] at hdir ⊢
    have hsettled := reading_truncate fp s
    have htruncate' : truncate fp s = .ok () u := htruncate
    rw [htruncate'] at hsettled
    have hattributes := hsettled.attributes fp hfp
    have hdir' : (s.handles fp).attributes &&& tfAttrDirectory ≠ 0 := by
      rw [← hattributes]
      exact hdir
    rw [truncate_directory hdir'] at htruncate'
    cases htruncate'
    exact ((h rfl).aligned hdir').place rfl

theorem tfParent_parentFile {filename : CStr} (hrun : tfParent filename s = .ok (.handle fp) t) :
    fp < tfFileHandles ∧ ParentFile (t.handles fp) := by
  have htook : Within False s _ _ := tfParent_within filename s fun hf => hf.elim
  have htruncated := tfParent_truncated hrun
  rw [hrun] at htook
  obtain ⟨⟨_, htook, _⟩, _⟩ := htook
  refine ⟨htook.lt, ?_⟩
  rcases htruncated with hdir | htruncated
  · left
    unfold tfParent at hrun
    cases hn : strrchr filename slash with
    | none =>
      rw [hn] at hrun
      cases hrun
    | some n =>
      rw [hn] at hrun
      simp only at hrun
      by_cases hlong : 256 ≤ n
      · rcases tfFnopen_long filename .rw hlong s with hrun' | ⟨fp', f, hrun'⟩
        · rw [hrun'] at hrun
          cases hrun
        · rw [hrun'] at hrun
          cases hrun
      · rcases tfFnopen_start filename .rw (Nat.lt_of_not_le hlong) s with
          hrun' | ⟨fp', f, hroot, hrun'⟩
        · rw [hrun'] at hrun
          cases hrun
        · rw [hrun'] at hrun
          obtain ⟨found, u, hloop, hafter⟩ := bind_eq_ok.mp hrun
          have hbegun : Begun ((s.setFile fp' f).handles fp') := by
            rw [s.setFile_self]
            have hpos : f.anon.pos = 0 := congrArg TFFile.pos hroot
            have hbyte : f.anon.currentByte = 0 := congrArg TFFile.currentByte hroot
            have hsize : f.anon.size = 0xffffffff := congrArg TFFile.size hroot
            exact ⟨hpos, hbyte, fun _ => hsize⟩
          refine afterWalk_begun htook.lt (fun hfound => ?_) hafter hdir
          rw [hfound] at hloop
          exact walk_loop_entered begun_enter hbegun hloop
  · exact Or.inr htruncated

end PageFaultOS
