import Mathlib.Tactic
import PageFaultOS.Fs.Allocation
import PageFaultOS.Fs.Positions

/-! When a seek fails, and what it leaves behind. A seek that the size rules out does nothing; one
that goes astray on its way along the FAT has moved the handle by then. -/

namespace PageFaultOS
open Exec Exec.Comp ByteMem

variable {s t : Fat32} {shape : TFShape} {v : Mem} {c n fp : Nat}

instance (shape : TFShape) (v : Mem) (c : Nat) : Decidable (FreeCluster shape v c) :=
  inferInstanceAs (Decidable (_ = _))

instance (shape : TFShape) (v : Mem) (c : Nat) : Decidable (LastOfChain shape v c) :=
  inferInstanceAs (Decidable (_ = _))

/-- The first cluster from `c` on that is free, within `n`. -/
def firstFree (shape : TFShape) (v : Mem) : Nat → Nat → Nat
  | 0, c => c
  | n + 1, c => if FreeCluster shape v c then c else firstFree shape v n (c + 1)

/-- The cluster behind `c`: the one the FAT has, or at the end of a chain one that is free. -/
def nextLink (shape : TFShape) (v : Mem) (c : Nat) : Nat :=
  if LastOfChain shape v c then
    let j := firstFree shape v (totalClusters shape - c) c
    if j = totalClusters shape then firstFree shape v (totalClusters shape) 0 else j
  else
    fatEntry shape v c

/-- The volume with the link to it. -/
def linkVolume (shape : TFShape) (v : Mem) (c : Nat) : Mem :=
  if LastOfChain shape v c then
    setEntry shape (setEntry shape v c (nextLink shape v c)) (nextLink shape v c) tfMarkEoc32
  else v

/-- `n` links from cluster `c` on come to a number that is no cluster's, before the last of
them. -/
def Astray (shape : TFShape) : Nat → Mem → Nat → Bool
  | 0, _, _ => false
  | n + 1, v, c => 0 < n ∧ (tfMarkEoc32 ≤ nextLink shape v c ∨
      Astray shape n (linkVolume shape v c) (nextLink shape v c))

/-- The seek of the file `f` to cluster `i` of its chain goes astray. -/
def SeekAstray (shape : TFShape) (v : Mem) (f : TFFile) (i : Nat) : Bool :=
  if i = f.currentClusterIdx then false
  else if f.currentClusterIdx < i then
    Astray shape (i - f.currentClusterIdx) v f.currentCluster
  else Astray shape i v f.startCluster

/-- The index of the cluster of a position. -/
def clusterIdx (shape : TFShape) (pos : Int) : Nat :=
  u32OfInt (pos.tdiv (clusterBytes shape))

/-! ## Following the chain -/

theorem firstFree_stops (shape : TFShape) (v : Mem) (c : Nat) :
    StopsAt shape v c (firstFree shape v (totalClusters shape - c) c) := by
  generalize hn : totalClusters shape - c = n
  induction n generalizing c with
  | zero => exact ⟨Nat.le_refl c, fun k h1 h2 => by simp only [firstFree] at h2; omega,
      Or.inl (by simp only [firstFree]; omega)⟩
  | succ n ih =>
    rw [firstFree]
    split
    · rename_i hfree
      exact ⟨Nat.le_refl c, fun k h1 h2 => by omega, Or.inr hfree⟩
    · rename_i hfree
      have hrest := ih (c + 1) (by omega)
      refine ⟨Nat.le_of_succ_le hrest.le, fun k h1 h2 => ?_, hrest.stop⟩
      rcases Nat.lt_or_eq_of_le h1 with hlt | rfl
      · exact hrest.passed k hlt h2
      · exact ⟨by omega, hfree⟩

/-- At the end of a chain `nextLink` is what the search finds. -/
theorem nextLink_search (hco : s.Coherent) (hsectors : s.info.shape.totalSectors < 2 ^ 32)
    (hlast : LastOfChain s.info.shape s.volume c) :
    ∃ t, tfFindFreeClusterFrom c s = .ok (nextLink s.info.shape s.volume c) t ∧ Same s t ∧
      t.handles = s.handles := by
  have hfirst := firstFree_stops s.info.shape s.volume 0
  rw [Nat.sub_zero] at hfirst
  obtain ⟨t, hrun⟩ := tfFindFreeClusterFrom_stops hco hsectors hfirst
    (firstFree_stops s.info.shape s.volume c)
  obtain ⟨hsame, hhandles, _⟩ := tfFindFreeClusterFrom_run hco hrun
  refine ⟨t, ?_, hsame, hhandles⟩
  rw [hrun, nextLink, if_pos hlast]

/-- What one link does. -/
theorem nextCluster_total (hco : s.Coherent) (hsectors : s.info.shape.totalSectors < 2 ^ 32)
    (fp : Nat) :
    ∃ t, nextCluster fp s = .ok () t ∧ t.Coherent ∧ t.info.shape = s.info.shape ∧
      t.handles fp = { s.handles fp with
        currentCluster := nextLink s.info.shape s.volume (s.handles fp).currentCluster } ∧
      t.volume = linkVolume s.info.shape s.volume (s.handles fp).currentCluster := by
  generalize hc : (s.handles fp).currentCluster = c
  obtain ⟨u, hget, hsame, hhandles⟩ := tfGetFatEntry_run hco c
  by_cases hlast : LastOfChain s.info.shape s.volume c
  · have hmask : ¬ fatEntry s.info.shape s.volume c &&& 0x0fffffff ≠ tfMarkEoc32 :=
      not_not_intro hlast
    obtain ⟨w, hfind, hsame', hhandles'⟩ := nextLink_search (c := c) hsame.coherent
      (by rw [hsame.shape]; exact hsectors) (by rw [hsame.shape, hsame.volume]; exact hlast)
    rw [hsame.shape, hsame.volume] at hfind
    have hto := hsame.trans hsame'
    obtain ⟨x, hlink, hx⟩ := tfSetFatEntry_run hto.coherent c (nextLink s.info.shape s.volume c)
    obtain ⟨y, hmark, hy⟩ :=
      tfSetFatEntry_run hx.coherent (nextLink s.info.shape s.volume c) tfMarkEoc32
    have hfile : y.handles fp = s.handles fp := by
      rw [hy.handles, hx.handles, hhandles', hhandles]
    have hshape : y.info.shape = s.info.shape := hy.shape.trans (hx.shape.trans hto.shape)
    refine ⟨y.setFile fp { y.handles fp with
      currentCluster := nextLink s.info.shape s.volume c }, ?_, hy.coherent, hshape, ?_, ?_⟩
    · unfold nextCluster
      rw [bind_ok (getFile_run s fp), hc, bind_ok hget, if_neg hmask, bind_ok hfind, bind_ok hlink,
        bind_ok hmark, modifyFile_run]
    · rw [y.setFile_self, hfile]
    · rw [linkVolume, if_pos hlast]
      show y.volume = _
      rw [hy.volume, hx.volume, hx.shape, hto.shape, hto.volume]
  · have hmask : fatEntry s.info.shape s.volume c &&& 0x0fffffff ≠ tfMarkEoc32 := hlast
    refine ⟨u.setFile fp { u.handles fp with
      currentCluster := fatEntry s.info.shape s.volume c }, ?_, hsame.coherent, hsame.shape, ?_,
      ?_⟩
    · unfold nextCluster
      rw [bind_ok (getFile_run s fp), hc, bind_ok hget, if_pos hmask, modifyFile_run]
    · rw [u.setFile_self, hhandles, nextLink, if_neg hlast]
    · rw [linkVolume, if_neg hlast]
      exact hsame.volume

theorem astray_succ (n : Nat) (v : Mem) (c : Nat) : Astray shape (n + 1) v c = true ↔
    0 < n ∧ (tfMarkEoc32 ≤ nextLink shape v c ∨
      Astray shape n (linkVolume shape v c) (nextLink shape v c) = true) := by
  rw [Astray, decide_eq_true_eq]

theorem astray_zero (v : Mem) (c : Nat) : ¬ Astray shape 0 v c = true := Bool.false_ne_true

/-- One round of the loop, when the link leads to cluster `d`. -/
theorem seekRound_run {d : Nat} (hnext : nextCluster fp s = .ok () t)
    (hd : (t.handles fp).currentCluster = d) (n : Nat) :
    seekRound fp (n + 1) s =
      .ok (if tfMarkEoc32 ≤ d ∧ 0 < n then .inr tfErrInvalidSeek else .inl n) t := by
  unfold seekRound
  rw [if_neg (by omega), bind_ok hnext, bind_ok (getFile_run t fp), hd, Nat.add_sub_cancel]
  split <;> rfl

/-- The loop of `tf_unsafe_fseek` comes to an end. -/
theorem seek_loop_total (fuel n : Nat) (hfuel : n < fuel) (hco : s.Coherent)
    (hsectors : s.info.shape.totalSectors < 2 ^ 32) (fp : Nat) :
    ∃ r t, loop (seekRound fp) fuel n s = .ok r t ∧
      (t.handles fp).currentClusterIdx = (s.handles fp).currentClusterIdx ∧
      (r ≠ 0 ↔ Astray s.info.shape n s.volume (s.handles fp).currentCluster = true) := by
  induction n generalizing s fuel with
  | zero =>
    obtain ⟨fuel, rfl⟩ := Nat.exists_eq_succ_of_ne_zero (Nat.ne_of_gt hfuel)
    exact ⟨0, s, loop_done rfl fuel, rfl, fun h => absurd rfl h,
      fun h => absurd h (astray_zero _ _)⟩
  | succ n ih =>
    obtain ⟨fuel, rfl⟩ := Nat.exists_eq_succ_of_ne_zero (Nat.ne_zero_of_lt hfuel)
    obtain ⟨t, hnext, hco', hshape, hfile, hvolume⟩ := nextCluster_total hco hsectors fp
    have hround := seekRound_run hnext (by rw [hfile]) n
    have hidx : (t.handles fp).currentClusterIdx = (s.handles fp).currentClusterIdx := by
      rw [hfile]
    obtain ⟨r, u, hloop, hidx', hr⟩ := ih (s := t) fuel (by omega) hco'
      (by rw [hshape]; exact hsectors)
    rw [hfile, hshape, hvolume] at hr
    rw [astray_succ]
    split at hround
    · rename_i hfails
      exact ⟨tfErrInvalidSeek, t, loop_done hround fuel, hidx,
        fun _ => ⟨hfails.2, Or.inl hfails.1⟩, fun _ => by decide⟩
    · rename_i hfails
      refine ⟨r, u, (loop_again hround fuel).trans hloop, hidx'.trans hidx, hr.trans ?_⟩
      rcases Nat.eq_zero_or_pos n with rfl | hn
      · exact ⟨fun h => absurd h (astray_zero _ _), fun h => absurd h.1 (by decide)⟩
      · exact ⟨fun h => ⟨hn, Or.inr h⟩, fun h => h.2.resolve_left fun hd => hfails ⟨hd, hn⟩⟩

theorem seekCluster_total (hco : s.Coherent)
    (hsectors : s.info.shape.totalSectors < 2 ^ 32) (fp : Nat) {i : Nat}
    (hidx : i < 2 ^ 32) :
    ∃ r t, seekCluster fp i s = .ok r t ∧ (t.handles fp).currentClusterIdx = i ∧
      (r ≠ 0 ↔ SeekAstray s.info.shape s.volume (s.handles fp) i = true) := by
  unfold seekCluster SeekAstray
  rw [bind_ok (getFile_run s fp)]
  have hrounds : ∀ k, i - k < fileRounds := fun k => by
    unfold fileRounds
    omega
  by_cases heq : i = (s.handles fp).currentClusterIdx
  · rw [if_pos heq, if_pos heq]
    exact ⟨0, s, rfl, heq.symm, by simp⟩
  · rw [if_neg heq, if_neg heq]
    by_cases hlt : (s.handles fp).currentClusterIdx < i
    · rw [if_pos hlt, if_pos hlt, bind_ok (modifyFile_run s fp _)]
      obtain ⟨r, t, hloop, hidx', hr⟩ := seek_loop_total
        (s := s.setFile fp { s.handles fp with currentClusterIdx := i }) fileRounds
        (i - (s.handles fp).currentClusterIdx) (hrounds _) hco hsectors fp
      rw [s.setFile_self] at hidx' hr
      exact ⟨r, t, hloop, hidx', hr⟩
    · rw [if_neg hlt, if_neg hlt, bind_ok (modifyFile_run s fp _)]
      obtain ⟨r, t, hloop, hidx', hr⟩ := seek_loop_total
        (s := s.setFile fp { s.handles fp with
          currentCluster := (s.handles fp).startCluster, currentClusterIdx := i }) fileRounds
        i (hrounds 0) hco hsectors fp
      rw [s.setFile_self] at hidx' hr
      exact ⟨r, t, hloop, hidx', hr⟩

/-! ## Seeking -/

/-- `tf_unsafe_fseek` always returns: at once, where the position is behind the end, and otherwise
with an error if and only if the way to the cluster goes astray. The index has changed by then. -/
theorem tfUnsafeFseek_total (hco : s.Coherent)
    (hsectors : s.info.shape.totalSectors < 2 ^ 32) (fp : Nat) (base offset : Int) :
    ∃ r t, tfUnsafeFseek fp base offset s = .ok r t ∧
      if ((s.handles fp).size : Int) < toLong (base + offset) then r ≠ 0 ∧ t = s
      else (r ≠ 0 ↔ SeekAstray s.info.shape s.volume (s.handles fp)
          (clusterIdx s.info.shape (toLong (base + offset))) = true) ∧
        (r ≠ 0 → (t.handles fp).currentClusterIdx ≠ (s.handles fp).currentClusterIdx) := by
  unfold tfUnsafeFseek
  generalize toLong (base + offset) = pos
  rw [bind_ok (getFile_run s fp)]
  by_cases hbehind : ((s.handles fp).size : Int) < pos
  · rw [if_pos hbehind]
    refine ⟨tfErrInvalidSeek, s, rfl, ?_⟩
    rw [if_pos hbehind]
    exact ⟨by decide, rfl⟩
  · rw [if_neg hbehind]
    obtain ⟨u, f, hgrow, hu, hf⟩ : ∃ u f, growAtEnd fp pos s = .ok () u ∧
        u = s.setFile fp f ∧ f.currentClusterIdx = (s.handles fp).currentClusterIdx ∧
        f.currentCluster = (s.handles fp).currentCluster ∧
        f.startCluster = (s.handles fp).startCluster := by
      unfold growAtEnd
      rw [bind_ok (getFile_run s fp)]
      split
      · exact ⟨_, _, modifyFile_run s fp _, rfl, rfl, rfl, rfl⟩
      · refine ⟨s, s.handles fp, rfl, ?_, rfl, rfl, rfl⟩
        rw [Fat32.setFile, Function.update_eq_self]
    have hco' : u.Coherent := by
      rw [hu]
      exact hco
    have hshape : u.info.shape = s.info.shape := by
      rw [hu]
      rfl
    have hvolume : u.volume = s.volume := by
      rw [hu]
      rfl
    have hastray : ∀ idx, SeekAstray u.info.shape u.volume (u.handles fp) idx =
        SeekAstray s.info.shape s.volume (s.handles fp) idx := by
      intro idx
      rw [hshape, hvolume, hu, s.setFile_self]
      unfold SeekAstray
      rw [hf.1, hf.2.1, hf.2.2]
    obtain ⟨r, w, hseek, hidx, hr⟩ := seekCluster_total hco' (by rw [hshape]; exact hsectors) fp
      (i := clusterIdx u.info.shape pos) (by unfold clusterIdx u32OfInt; omega)
    have hseek' : seekCluster fp (u32OfInt (pos.tdiv (clusterBytes u.info.shape))) u = .ok r w :=
      hseek
    rw [hastray, hshape] at hr
    simp only [if_neg hbehind]
    rw [bind_ok hgrow, read_bind, bind_ok hseek']
    by_cases hzero : r = 0
    · subst hzero
      rw [if_neg (by decide)]
      refine ⟨0, _, rfl, hr, fun h => absurd rfl h⟩
    · rw [if_pos hzero]
      refine ⟨r, w, rfl, hr, fun _ => ?_⟩
      rw [hidx, hshape]
      have hlost := hr.mp hzero
      intro heq
      unfold SeekAstray at hlost
      rw [if_pos heq] at hlost
      cases hlost

/-- Nothing that the caller sees has changed. -/
def Unmoved (s t : Fat32) (fp : Nat) : Prop :=
  t.handles fp = s.handles fp ∧
    ∀ c, fatEntry t.info.shape t.volume c = fatEntry s.info.shape s.volume c

/-- The seek goes to positions inside the file only, and where it fails nothing has changed. -/
structure SeekHonest (s : Fat32) (fp : Nat) (base offset : Int) : Prop where
  inside : ∀ t, tfFseek fp base offset s = .ok 0 t →
    0 ≤ toLong (base + offset) ∧ toLong (base + offset) < (s.handles fp).size
  fails : ∀ r t, tfFseek fp base offset s = .ok r t → r ≠ 0 → Unmoved s t fp
  unsafeFails : ∀ r t, tfUnsafeFseek fp (toInt base) offset s = .ok r t → r ≠ 0 → Unmoved s t fp

/-- Seeks do what they should exactly if the way to the cluster does not go astray, and the
position is not negative or is ruled out by `tf_unsafe_fseek`. -/
theorem seekHonest_iff (s : Fat32) (fp : Nat) (base offset : Int) (hco : s.Coherent)
    (hsectors : s.info.shape.totalSectors < 2 ^ 32) :
    SeekHonest s fp base offset ↔
      (toLong (toInt base + offset) ≤ (s.handles fp).size →
        SeekAstray s.info.shape s.volume (s.handles fp)
          (clusterIdx s.info.shape (toLong (toInt base + offset))) = false) ∧
      (0 ≤ toLong (base + offset) ∨ ((s.handles fp).size : Int) < toLong (toInt base + offset)) := by
  obtain ⟨r, t, hrun, hr⟩ := tfUnsafeFseek_total hco hsectors fp (toInt base) offset
  have hfseek : toLong (base + offset) < (s.handles fp).size →
      tfFseek fp base offset s = tfUnsafeFseek fp (toInt base) offset s := by
    intro hlt
    unfold tfFseek
    rw [bind_ok (getFile_run s fp), if_neg (by omega)]
  have hend : ¬ toLong (base + offset) < (s.handles fp).size →
      tfFseek fp base offset s = .ok tfErrInvalidSeek s := fun h => tfFseek_end (by omega)
  constructor
  · intro h
    have hway : toLong (toInt base + offset) ≤ (s.handles fp).size →
        SeekAstray s.info.shape s.volume (s.handles fp)
          (clusterIdx s.info.shape (toLong (toInt base + offset))) = false := by
      intro hle
      rw [if_neg (by omega)] at hr
      by_contra hastray
      have hne := hr.1.mpr (Bool.eq_true_of_not_eq_false hastray)
      have hsame := (h.unsafeFails r t hrun hne).1
      exact hr.2 hne (by rw [hsame])
    refine ⟨hway, ?_⟩
    by_contra hboth
    obtain ⟨hneg, hle⟩ := not_or.mp hboth
    have hle' : toLong (toInt base + offset) ≤ (s.handles fp).size := by omega
    rw [if_neg hle] at hr
    have hzero : r = 0 := by
      by_contra hne
      rw [hway hle'] at hr
      exact absurd (hr.1.mp hne) (by decide)
    rw [hzero, ← hfseek (by omega)] at hrun
    exact hneg (h.inside t hrun).1
  · rintro ⟨hway, hpos⟩
    have hfails : ∀ r' t', tfUnsafeFseek fp (toInt base) offset s = .ok r' t' → r' ≠ 0 →
        Unmoved s t' fp ∧ ((s.handles fp).size : Int) < toLong (toInt base + offset) := by
      intro r' t' hrun' hne
      rw [hrun] at hrun'
      cases hrun'
      by_cases hbehind : ((s.handles fp).size : Int) < toLong (toInt base + offset)
      · rw [if_pos hbehind] at hr
        rw [hr.2]
        exact ⟨⟨rfl, fun _ => rfl⟩, hbehind⟩
      · rw [if_neg hbehind, hway (by omega)] at hr
        exact absurd (hr.1.mp hne) (by decide)
    refine ⟨fun u hu => ?_, fun r' u hu hne => ?_, fun r' u hu hne => (hfails r' u hu hne).1⟩
    · by_cases hlt : toLong (base + offset) < (s.handles fp).size
      · refine ⟨?_, hlt⟩
        rcases hpos with hpos | hbehind
        · exact hpos
        · rw [hfseek hlt, hrun] at hu
          cases hu
          rw [if_pos hbehind] at hr
          exact absurd rfl hr.1
      · rw [hend hlt] at hu
        cases hu
    · by_cases hlt : toLong (base + offset) < (s.handles fp).size
      · rw [hfseek hlt] at hu
        exact (hfails r' u hu hne).1
      · rw [hend hlt] at hu
        cases hu
        exact ⟨rfl, fun _ => rfl⟩

theorem seekHonest_iff_pair : SeekHonest pairVolume 0 (-32) 700 :=
  (seekHonest_iff pairVolume 0 (-32) 700 pairVolume_coherent (by decide)).mpr (by decide +kernel)

/-- A seek in front of the file succeeds. -/
theorem tfFseek_negative : ¬ ∀ s fp base offset, s.Coherent →
    s.info.shape.totalSectors < 2 ^ 32 → SeekHonest s fp base offset := by
  intro hall
  have hvalue : (tfFseek 0 0 (-1) pairVolume).value = some 0 := by decide +kernel
  obtain ⟨t, ht⟩ := Res.eq_ok_of_value hvalue
  have hinside := (hall pairVolume 0 0 (-1) pairVolume_coherent (by decide)).inside t ht
  exact absurd hinside.1 (by decide +kernel)

end PageFaultOS
