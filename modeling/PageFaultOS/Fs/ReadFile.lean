import Mathlib.Tactic
import PageFaultOS.Fs.ReadOnly
import PageFaultOS.Fs.Seek

/-! `Fat32FileSystem::read`, which does not look at the result of `tf_fseek`. It reads what
it should where the offset is before the end of the file. Behind the end the seek fails, and
the file is read from its beginning. -/

namespace PageFaultOS
open Exec Exec.Comp ByteMem

variable {V : View} {s t : Fat32} {fp : Nat} {path : CStr} {c : TFFile} {cs : List Nat}

/-! ## The file at a path -/

/-- A file at its beginning. -/
structure Entered (f : TFFile) : Prop where
  pos : f.pos = 0
  byte : f.currentByte = 0
  index : f.currentClusterIdx = 0
  cluster : f.currentCluster = f.startCluster
  size : f.size < 2 ^ 32

theorem entered_enter (e : FatFileEntry) (f : TFFile) : Entered (enter e f) := by
  refine ⟨rfl, rfl, rfl, rfl, ?_⟩
  show (if e.attributes &&& tfAttrDirectory ≠ 0 then 0xffffffff else e.fileSize) < 2 ^ 32
  split
  · decide
  · exact readLE_lt _ 28 4

/-- What holds of the root and of each file that is entered, `P`, holds of the file at the end of
a path. -/
theorem View.walkRound_at {P : TFFile → Prop} (henter : ∀ e f, P (enter e f)) {rest : CStr}
    {x : CStr ⊕ Bool} {d : TFFile} (h : P c) (hrun : V.walkRound rest c = .ok x d)
    (hx : x ≠ .inr false) : P d := by
  obtain ⟨next, d', hwalk, hrun⟩ := bind_eq_ok.mp hrun
  rw [read_bind] at hrun
  split at hrun
  · cases hrun
    exact absurd rfl hx
  · rename_i hflags
    have hd : d = d' := by
      cases next with
      | none =>
        cases hrun
        rfl
      | some next =>
        cases hrun
        rfl
    rw [hd]
    unfold View.tfWalk at hwalk
    simp only at hwalk
    split at hwalk
    · cases hwalk
      exact h
    · obtain ⟨rc, g, _, hwalk⟩ := bind_eq_ok.mp hwalk
      split at hwalk
      · -- the path does not exist
        cases hwalk
        exact absurd rfl hflags
      · obtain ⟨e, g', _, hwalk⟩ := bind_eq_ok.mp hwalk
        cases hwalk
        exact henter e _

theorem View.walk_loop_at {P : TFFile → Prop} (henter : ∀ e f, P (enter e f)) {n : Nat}
    {rest : CStr} {d : TFFile} (h : P c) (hrun : loop V.walkRound n rest c = .ok true d) :
    P d := by
  induction n generalizing rest c with
  | zero => cases hrun
  | succ n ih =>
    rw [loop_succ] at hrun
    obtain ⟨x, g, hround, hrest⟩ := bind_eq_ok.mp hrun
    cases x with
    | inl next => exact ih (View.walkRound_at henter h hround fun hx => by cases hx) hrest
    | inr found =>
      cases hrest
      exact View.walkRound_at henter h hround fun hx => by cases hx

theorem entered_root : Entered View.root := ⟨rfl, rfl, rfl, rfl, by decide⟩

theorem View.lookup_at {P : TFFile → Prop} (henter : ∀ e f, P (enter e f)) (hroot : P View.root)
    (h : V.lookup path = .ok true c) : P c := by
  unfold View.lookup at h
  split at h
  · cases h
  · split at h
    · cases h
    · exact View.walk_loop_at henter hroot h

theorem View.lookup_entered (h : V.lookup path = .ok true c) : Entered c :=
  View.lookup_at entered_enter entered_root h

theorem Entered.onChain {shape : TFShape} (h : Entered c) (hstart : c.startCluster = cs.getD 0 0) :
    OnChain shape cs c := by
  refine ⟨hstart, ?_⟩
  have hcluster := h.cluster.trans hstart
  rw [moveTo, h.pos, Nat.zero_div, Nat.zero_mod, ← hcluster]
  obtain ⟨_, _, _, hbyte, _, _, _, _, _⟩ := c
  have hindex := h.index
  have hpos := h.pos
  have hbyte := h.byte
  simp only at hindex hpos hbyte
  rw [hindex, hpos, hbyte]
  rfl

/-- The path names a file that is not a directory: `c`, on the chain `cs`. A lookup gets a
handle for it. -/
structure NamesFile (s : Fat32) (path : CStr) (c : TFFile) (cs : List Nat) : Prop where
  coherent : s.Coherent
  valid : s.info.shape.Valid
  opens : Exists (tfFopen path .r) s
  found : s.view.lookup path = .ok true c
  regular : c.attributes &&& tfAttrDirectory = 0
  start : c.startCluster = cs.getD 0 0
  chain : FatChain s.info.shape s.volume cs
  room : c.size ≤ chainBytes s.info.shape cs

/-- The file `fp` of `t` is the one that has been looked up, at the position `p`. -/
structure OpenAt (s : Fat32) (c : TFFile) (cs : List Nat) (fp p : Nat) (t : Fat32) : Prop where
  same : t.volume = s.volume ∧ t.info.shape = s.info.shape
  coherent : t.Coherent
  clean : Clean t fp
  on : OnChain s.info.shape cs (t.handles fp)
  pos : (t.handles fp).pos = p
  size : (t.handles fp).size = c.size

section
variable {p : Nat} (h : NamesFile s path c cs) (hopen : OpenAt s c cs fp p t)
include hopen

theorem OpenAt.onChain : OnChain t.info.shape cs (t.handles fp) := by
  rw [hopen.same.2]
  exact hopen.on

include h

theorem OpenAt.valid : t.info.shape.Valid := by
  rw [hopen.same.2]
  exact h.valid

theorem OpenAt.chain : FatChain t.info.shape t.volume cs := by
  rw [hopen.same.1, hopen.same.2]
  exact h.chain

theorem OpenAt.room : (t.handles fp).size ≤ chainBytes t.info.shape cs := by
  rw [hopen.same.2, hopen.size]
  exact h.room

theorem OpenAt.size_lt : (t.handles fp).size < 2 ^ 32 := by
  rw [hopen.size]
  exact (View.lookup_entered h.found).size

end

theorem OpenAt.onView {p : Nat} (h : OpenAt s c cs fp p t) (hstale : t.stale = s.stale) :
    s.view.On t := by
  refine ⟨h.coherent, ?_⟩
  rw [Fat32.view, Fat32.view, h.same.1, h.same.2, hstale]

theorem NamesFile.opened (h : NamesFile s path c cs) :
    ∃ fp t, tfFopen path .r s = .ok (.handle fp) t ∧ OpenAt s c cs fp 0 t ∧
      t.stale = s.stale ∧ (t.handles fp).anon = c := by
  obtain ⟨fp, t, hrun⟩ := h.opens
  have hlooked := tfFopen_looked path (V := s.view) ⟨h.coherent, rfl⟩
  rw [hrun, h.found] at hlooked
  rcases hlooked with ⟨hinvalid, _⟩ | ⟨fp', hfp, hco, hview, hfile⟩
  · cases hinvalid
  · cases hfp
    have hentered := View.lookup_entered h.found
    have hstart := h.start
    rw [← hfile] at hentered hstart
    have hthere : Entered (t.handles fp) :=
      ⟨hentered.pos, hentered.byte, hentered.index, hentered.cluster, hentered.size⟩
    refine ⟨fp, t, hrun, ⟨⟨congrArg View.volume hview, congrArg View.shape hview⟩, hco,
      tfFopen_clean hrun, hthere.onChain hstart, hthere.pos, ?_⟩, congrArg View.stale hview, hfile⟩
    rw [← hfile]
    rfl

/-! ## Reading -/

/-- The handle has moved to another position. -/
theorem OpenAt.moved {p q : Nat} {α : Type} {x : FsComp α} {a : α} {u : Fat32}
    (h : OpenAt s c cs fp p t) (hrun : x t = .ok a u) (hreading : Reading x)
    (hmoved : Moved t u fp (moveTo t.info.shape cs q (t.handles fp))) : OpenAt s c cs fp q u := by
  have hfile := hmoved.file
  refine ⟨⟨hmoved.same.volume.trans h.same.1, hmoved.same.shape.trans h.same.2⟩,
    hmoved.coherent, h.clean.reading hreading hrun, ?_, ?_, ?_⟩
  · rw [hfile, h.same.2]
    exact h.on.moveTo q
  · rw [hfile]
    rfl
  · rw [hfile]
    exact h.size

/-- A seek goes to the offset, or nowhere. -/
theorem NamesFile.seek {p : Nat} (h : NamesFile s path c cs) (hopen : OpenAt s c cs fp p t)
    {offset : Nat} (hoff : offset < 2 ^ 63) : ∃ r u, tfFseek fp 0 offset t = .ok r u ∧
      OpenAt s c cs fp (if offset < c.size then offset else p) u ∧ Moved t u fp
        (moveTo s.info.shape cs (if offset < c.size then offset else p) (t.handles fp)) := by
  by_cases hlt : offset < c.size
  · have hinside : offset < (t.handles fp).size := by
      rw [hopen.size]
      exact hlt
    obtain ⟨u, hrun, hmoved⟩ := tfFseek_run 0 offset (hopen.valid h) hopen.coherent
      (hopen.chain h) hopen.onChain (Int.zero_add _) hinside (hopen.size_lt h)
      (Nat.lt_of_lt_of_le hinside (hopen.room h)) (by decide)
    rw [if_pos hlt, ← hopen.same.2]
    exact ⟨0, u, hrun, hopen.moved hrun (reading_tfFseek fp 0 offset) hmoved, hmoved⟩
  · have hhere := hopen.on.here
    rw [hopen.pos] at hhere
    rw [if_neg hlt, hhere]
    refine ⟨_, t, tfFseek_behind ?_ (by omega), hopen, Moved.refl fp hopen.coherent⟩
    rw [hopen.size]
    exact Nat.le_of_not_lt hlt

/-- What `read` reads, from where the seek has left the file. -/
theorem NamesFile.read_run (h : NamesFile s path c cs) {offset n : Nat} (hoff : offset < 2 ^ 31)
    (hn : n < 2 ^ 31) : ∃ t, Fat32.read path offset n s = .ok (some (fileBytes s.info.shape s.volume cs
      (if offset < c.size then offset else 0)
      (min n (c.size - if offset < c.size then offset else 0)))) t ∧ s.view.On t := by
  obtain ⟨fp, t, hrun, hopen, hstale, _⟩ := h.opened
  obtain ⟨r, u, hseek, hu, hmoved'⟩ := h.seek hopen (Nat.lt_trans hoff (by decide))
  have hpos : (if offset < c.size then offset else 0) ≤ c.size := by
    split
    · omega
    · exact Nat.zero_le _
  have hreadable : Readable u.info.shape cs (u.handles fp) n := by
    refine ⟨hu.onChain, ?_, hu.size_lt h, Or.inr (hu.room h)⟩
    rw [hu.pos, hu.size]
    exact hpos
  obtain ⟨v, q, hread, hmoved, _⟩ := tfFread_run (by omega) (hu.valid h) hu.coherent (hu.chain h)
    hreadable
  rw [hu.same.1, hu.same.2, hu.pos, hu.size] at hread
  have hv := hu.moved hread (reading_tfFread n fp) hmoved
  obtain ⟨f, hclose⟩ := tfFclose_untouched hv.clean
  have hon := hv.onView (hmoved.same.stale.trans (hmoved'.same.stale.trans hstale))
  refine ⟨v.setFile fp f, ?_, (untouched_setFile v fp f).on hon⟩
  unfold Fat32.read
  rw [bind_ok hrun, if_neg (fun hnull => by cases hnull),
    bind_ok (show (FilePtr.handle fp).deref t = .ok fp t from rfl), bind_ok hseek,
    Int.toNat_natCast, bind_ok hread, bind_ok hclose]
  rfl

/-- `read` returns the number of bytes there are in the file from the offset on, but no more than
`n`, and stores these bytes. -/
def ReadsExactly (s : Fat32) (path : CStr) (c : TFFile) (cs : List Nat) (offset n : Nat) : Prop :=
  ∃ bytes t, Fat32.read path offset n s = .ok (some bytes) t ∧
    bytes.length = min n (c.size - offset) ∧
    bytes = fileBytes s.info.shape s.volume cs offset (min n (c.size - offset))

/-- `read` of a regular file reads what it should exactly if the offset is before the end of the
file, or nothing is to be read, or there is nothing in the file. -/
theorem read_exact_iff (s : Fat32) (path : CStr) (c : TFFile) (cs : List Nat) (offset n : Nat)
    (h : NamesFile s path c cs) (hoff : offset < 2 ^ 31) (hn : n < 2 ^ 31) :
    ReadsExactly s path c cs offset n ↔ offset < c.size ∨ n = 0 ∨ c.size = 0 := by
  obtain ⟨t, hrun, _⟩ := h.read_run hoff hn
  constructor
  · rintro ⟨bytes, u, hread, hlength, _⟩
    rw [hrun] at hread
    cases hread
    rw [fileBytes_length] at hlength
    by_cases hlt : offset < c.size
    · exact Or.inl hlt
    · rw [if_neg hlt] at hlength
      omega
  · intro hcond
    by_cases hlt : offset < c.size
    · rw [if_pos hlt] at hrun
      exact ⟨_, t, hrun, fileBytes_length .., rfl⟩
    · have hnone : min n c.size = 0 := by
        rcases hcond with hin | hn | hsize
        · exact absurd hin hlt
        · rw [hn, Nat.zero_min]
        · rw [hsize, Nat.min_zero]
      have hnone' : min n (c.size - offset) = 0 := by
        rw [Nat.sub_eq_zero_of_le (Nat.le_of_not_lt hlt), Nat.min_zero]
      have hempty : ∀ p, fileBytes s.info.shape s.volume cs p 0 = [] := fun _ => rfl
      rw [if_neg hlt, Nat.sub_zero, hnone, hempty] at hrun
      refine ⟨[], t, hrun, hnone'.symm, ?_⟩
      rw [hnone', hempty]

/-! ## A file with five bytes -/

/-- A root directory with the file `A`, in cluster `3`. -/
def helloVolume : Fat32 :=
  { fullDirectory with disk := fun a =>
      if a / 512 = 34 then if a % 512 < 32 then shortEntryByte 0x41 3 5 (a % 512) else 0
      else if a / 512 = 35 then [0x68, 0x65, 0x6c, 0x6c, 0x6f].getD (a % 512) 0
      else if a = 2 * 512 + 12 ∨ a = 2 * 512 + 13 ∨ a = 2 * 512 + 14 then 0xff
      else if a = 2 * 512 + 15 then 0x0f
      else fullDirectory.disk a }

theorem helloVolume_coherent : helloVolume.Coherent := by
  apply coherent_of_first_sector
  intro a ha
  rw [if_neg (by omega), if_neg (by omega), if_neg (by omega), if_neg (by omega),
    fullDirectory_first ha]

theorem helloVolume_names : ∃ c, NamesFile helloVolume [slash, 0x41] c [3] ∧ c.size = 5 := by
  obtain ⟨c, hc, hstart, hsize, hattr⟩ := View.lookup_of_decide helloVolume.view [slash, 0x41]
    (fun c => c.startCluster = 3 ∧ c.size = 5 ∧ c.attributes &&& tfAttrDirectory = 0)
    (by decide +kernel) (by decide +kernel)
  have hopen : (tfFopen [slash, 0x41] .r helloVolume).value = some (.handle 0) := by decide +kernel
  obtain ⟨t, ht⟩ := Res.eq_ok_of_value hopen
  refine ⟨c, ⟨helloVolume_coherent, ⟨by decide, by decide⟩, ⟨0, t, ht⟩, hc, hattr, hstart, ?_, ?_⟩,
    hsize⟩
  · exact ⟨fun i hi => absurd hi (by simp), fun i hi => absurd hi (by simp)⟩
  · rw [hsize]
    decide

theorem read_exact_iff_hello : ∃ c, c.size = 5 ∧
    ReadsExactly helloVolume [slash, 0x41] c [3] 1 3 := by
  obtain ⟨c, h, hsize⟩ := helloVolume_names
  exact ⟨c, hsize, (read_exact_iff _ _ c [3] 1 3 h (by decide) (by decide)).mpr
    (Or.inl (by rw [hsize]; decide))⟩

/-- At the end of the file the first byte is read. -/
theorem read_behind_end : ¬ ∀ s path c cs offset n, NamesFile s path c cs → offset < 2 ^ 31 →
    n < 2 ^ 31 → ReadsExactly s path c cs offset n := by
  intro hall
  obtain ⟨c, h, hsize⟩ := helloVolume_names
  obtain ⟨bytes, t, hread, hlength, _⟩ := hall _ _ c [3] 5 1 h (by decide) (by decide)
  obtain ⟨u, hrun, _⟩ := h.read_run (show 5 < 2 ^ 31 by decide) (show 1 < 2 ^ 31 by decide)
  rw [hrun] at hread
  cases hread
  rw [fileBytes_length, hsize] at hlength
  exact absurd hlength (by decide)

end PageFaultOS
