import Mathlib.Tactic
import PageFaultOS.Fs.Growth

/-! `tf_free_clusterchain` of `fs/fat32.cpp`. It sets `cluster` to the link behind the one that it
has just followed, so both variables are the same after the first round: only the first and the
third cluster are freed, and a chain of one cluster is left as it is. -/

namespace PageFaultOS
open Exec Exec.Comp ByteMem

variable {s t : Fat32} {shape : TFShape} {v : Mem} {cs : List Nat} {mark : Nat}

/-- The loop goes on. -/
def Followed (n : Nat) : Prop := 2 < n ∧ n < tfMarkEoc32

instance (n : Nat) : Decidable (Followed n) := inferInstanceAs (Decidable (_ ∧ _))

/-- The volume after the second round, at cluster `x`. -/
def freedAt (shape : TFShape) (v : Mem) (x : Nat) : Mem :=
  if Followed x then setEntry shape v x 0 else v

/-- The volume after `tf_free_clusterchain(c)`. -/
def freedFrom (shape : TFShape) (v : Mem) (c : Nat) : Mem :=
  let e := fatEntry shape v c
  if Followed e then
    freedAt shape (setEntry shape v c 0) (fatEntry shape (setEntry shape v c 0) e)
  else v

theorem freeChain_stop (n c : Nat) {e : Nat} (he : ¬ Followed e) (s : Fat32) :
    loop freeChainRound (n + 1) (c, e) s = .ok () s := by
  refine loop_done (i := (c, e)) ?_ n
  simp only [freeChainRound]
  by_cases hend : e < tfMarkEoc32
  · rw [if_neg (not_not_intro hend), if_pos (Nat.le_of_not_lt fun h2 => he ⟨h2, hend⟩)]
    rfl
  · rw [if_pos hend]
    rfl

theorem freeChain_round (hco : s.Coherent) (c : Nat) {e : Nat} (he : Followed e) :
    ∃ t, (∀ n, loop freeChainRound (n + 1) (c, e) s = loop freeChainRound n
        (fatEntry s.info.shape t.volume e, fatEntry s.info.shape t.volume e) t) ∧
      Written s t (setEntry s.info.shape s.volume c 0) := by
  obtain ⟨t, hset, ht⟩ := tfSetFatEntry_run hco c 0
  obtain ⟨u, hget, hsame, hhandles⟩ := tfGetFatEntry_run ht.coherent e
  rw [ht.shape, ← hsame.volume] at hget
  refine ⟨u, fun n => loop_again ?_ n, ?_⟩
  · simp only [freeChainRound]
    rw [if_neg (not_not_intro he.2), if_neg (Nat.not_le.mpr he.1), bind_ok hset, bind_ok hget]
    rfl
  · exact ⟨hsame.volume.trans ht.volume, hsame.coherent, hsame.shape.trans ht.shape,
      hsame.stale.trans ht.stale, hhandles.trans ht.handles⟩

/-- From the second round on, the cluster that is freed is the one whose link is followed. -/
theorem freeChain_second (hco : s.Coherent) (n x : Nat) :
    ∃ t, loop freeChainRound (n + 2) (x, x) s = .ok () t ∧
      Written s t (freedAt s.info.shape s.volume x) := by
  unfold freedAt
  by_cases hx : Followed x
  · rw [if_pos hx]
    obtain ⟨t, hround, ht⟩ := freeChain_round hco x hx
    have hzero : fatEntry s.info.shape t.volume x = 0 := by
      rw [ht.volume, fatEntry_setEntry_same _ _ rfl]
      rfl
    refine ⟨t, ?_, ht⟩
    rw [hround, hzero, freeChain_stop n 0 (by decide)]
  · rw [if_neg hx]
    exact ⟨s, freeChain_stop (n + 1) x hx s, rfl, hco, rfl, rfl, rfl⟩

theorem tfFreeClusterchain_run (hco : s.Coherent) (c : Nat) :
    ∃ t, tfFreeClusterchain c s = .ok () t ∧ Written s t (freedFrom s.info.shape s.volume c) := by
  obtain ⟨u, hget, hsame, hhandles⟩ := tfGetFatEntry_run hco c
  have hu : Written s u s.volume :=
    ⟨hsame.volume, hsame.coherent, hsame.shape, hsame.stale, hhandles⟩
  unfold freedFrom tfFreeClusterchain
  simp only
  rw [bind_ok hget]
  by_cases he : Followed (fatEntry s.info.shape s.volume c)
  · rw [if_pos he]
    obtain ⟨t, hround, ht⟩ := freeChain_round hu.coherent c he
    obtain ⟨w, hrest, hw⟩ := freeChain_second ht.coherent (2 ^ 33 - 3)
      (fatEntry u.info.shape t.volume (fatEntry s.info.shape s.volume c))
    rw [show fileRounds = (2 ^ 33 - 3) + 2 + 1 from rfl]
    refine ⟨w, (hround _).trans hrest, ?_⟩
    rw [ht.volume, ht.shape, hu.volume, hu.shape] at hw
    exact ⟨hw.volume, hw.coherent, hw.shape.trans (ht.shape.trans hu.shape),
      hw.stale.trans (ht.stale.trans hu.stale), hw.handles.trans (ht.handles.trans hu.handles)⟩
  · rw [if_neg he]
    rw [show fileRounds = (2 ^ 33 - 1) + 1 from rfl]
    exact ⟨u, freeChain_stop _ c he u, hu⟩

/-! ## What is freed -/

/-- The end-of-chain marks of FAT32 begin here. -/
def tfMarkEoc : Nat := 0x0ffffff8

/-- `cs` are the clusters of a chain, the last of which has the entry `mark`. -/
structure WholeChain (shape : TFShape) (v : Mem) (cs : List Nat) (mark : Nat) : Prop where
  nodup : cs.Nodup
  clusters : ∀ c ∈ cs, 2 < c ∧ c < tfMarkEoc
  links : cs.map (fatEntry shape v) = cs.tail ++ [mark]
  isMark : tfMarkEoc ≤ mark

/-- In `w` the clusters `cs` are free, and all other entries are those of `v`. -/
def Freed (shape : TFShape) (v w : Mem) (cs : List Nat) : Prop :=
  ∀ d < 2 ^ 30, fatEntry shape w d = if d ∈ cs then 0 else fatEntry shape v d

/-- The chain is freed, whole and alone. -/
def FreesChain (s : Fat32) (cs : List Nat) : Prop :=
  ∃ t, tfFreeClusterchain (cs.headD 0) s = .ok () t ∧ Freed s.info.shape s.volume t.volume cs

/-- The chain has one cluster, its mark is taken for a link, and behind that link there is nothing
to free. -/
def LooksFree (shape : TFShape) (v : Mem) (cs : List Nat) (mark : Nat) : Prop :=
  cs.length = 1 ∧ mark < tfMarkEoc32 ∧
    let x := fatEntry shape v mark
    Followed x → x ∈ cs ∨ fatEntry shape v x = 0

theorem freesChain_iff (hco : s.Coherent) :
    FreesChain s cs ↔
      Freed s.info.shape s.volume (freedFrom s.info.shape s.volume (cs.headD 0)) cs := by
  obtain ⟨t, hrun, ht⟩ := tfFreeClusterchain_run hco (cs.headD 0)
  constructor
  · rintro ⟨u, hu, hfreed⟩
    rw [hrun] at hu
    cases hu
    rwa [ht.volume] at hfreed
  · intro hfreed
    refine ⟨t, hrun, ?_⟩
    rwa [ht.volume]

theorem fatEntry_setEntry_if {c d : Nat} (hc : c < 2 ^ 30) (hd : d < 2 ^ 30) :
    fatEntry shape (setEntry shape v c 0) d = if d = c then 0 else fatEntry shape v d := by
  by_cases h : d = c
  · rw [if_pos h, h, fatEntry_setEntry_same v 0 rfl]
    rfl
  · rw [if_neg h, fatEntry_setEntry_other v 0 fun heq => h (fatAddr_inj hd hc heq)]

theorem fatEntry_freedAt {x d : Nat} (hd : d < 2 ^ 30) :
    fatEntry shape (freedAt shape v x) d =
      if Followed x ∧ d = x then 0 else fatEntry shape v d := by
  unfold freedAt
  by_cases hx : Followed x
  · have hx30 : x < 2 ^ 30 := Nat.lt_trans hx.2 (by decide)
    rw [if_pos hx, fatEntry_setEntry_if hx30 hd]
    simp only [hx, true_and]
  · rw [if_neg hx, if_neg fun h => hx h.1]

theorem WholeChain.bound (h : WholeChain shape v cs mark) {c : Nat} (hc : c ∈ cs) :
    c < 2 ^ 30 := Nat.lt_trans (h.clusters c hc).2 (by decide)

/-- Behind a cluster is another one, or the mark. -/
theorem WholeChain.link {c : Nat} (h : WholeChain shape v (c :: cs) mark) :
    fatEntry shape v c = cs.headD mark := by
  have hlinks := h.links
  cases cs with
  | nil => simpa using hlinks
  | cons d cs =>
    simp only [List.map_cons, List.tail_cons, List.cons_append, List.cons.injEq] at hlinks
    exact hlinks.1

theorem WholeChain.tail {c d : Nat} (h : WholeChain shape v (c :: d :: cs) mark) :
    WholeChain shape v (d :: cs) mark := by
  refine ⟨h.nodup.of_cons, fun e he => h.clusters e (List.mem_cons_of_mem c he), ?_, h.isMark⟩
  have hlinks := h.links
  simp only [List.map_cons, List.tail_cons, List.cons_append, List.cons.injEq] at hlinks
  simpa using hlinks.2

/-- The first cluster has a link to another one than itself. -/
theorem WholeChain.link_ne {c : Nat} (h : WholeChain shape v (c :: cs) mark) :
    2 < fatEntry shape v c ∧ fatEntry shape v c ≠ c := by
  have hc := (h.clusters c (by simp)).2
  have hmark := h.isMark
  unfold tfMarkEoc at hc hmark
  rw [h.link]
  cases cs with
  | nil =>
    rw [List.headD_nil]
    omega
  | cons d cs =>
    refine ⟨(h.clusters d (by simp)).1, ?_⟩
    rintro rfl
    exact (List.nodup_cons.mp h.nodup).1 (by simp)

/-- The second cluster of a chain is left as it is. -/
theorem WholeChain.second {c d : Nat} (h : WholeChain shape v (c :: d :: cs) mark) :
    ¬ Freed shape v (freedFrom shape v c) (c :: d :: cs) := by
  intro hfreed
  have hc := h.bound (c := c) (by simp)
  have hd := h.bound (c := d) (by simp)
  obtain ⟨hlarge, hdeep⟩ := h.tail.link_ne
  have hentry : fatEntry shape v c = d := h.link
  have hcd : d ≠ c := by
    rintro rfl
    exact h.link_ne.2 hentry
  have hfollowed : Followed d :=
    ⟨(h.clusters d (by simp)).1, Nat.lt_trans (h.clusters d (by simp)).2 (by decide)⟩
  have hzero := hfreed d hd
  rw [if_pos (by simp), freedFrom, hentry] at hzero
  rw [if_pos hfollowed, fatEntry_setEntry_if hc hd, if_neg hcd, fatEntry_freedAt hd,
    if_neg fun heq => hdeep heq.2.symm, fatEntry_setEntry_if hc hd, if_neg hcd] at hzero
  omega

/-- The only cluster of a chain is freed where its mark is taken for a link. -/
theorem WholeChain.alone {c : Nat} (h : WholeChain shape v [c] mark) :
    Freed shape v (freedFrom shape v ([c].headD 0)) [c] ↔ LooksFree shape v [c] mark := by
  rw [List.headD_cons]
  have hc := h.bound (c := c) (by simp)
  have hentry : fatEntry shape v c = mark := h.link
  have hmark := h.link_ne
  rw [hentry] at hmark
  unfold freedFrom LooksFree
  simp only [hentry, List.length_singleton, List.mem_singleton, true_and]
  by_cases hend : mark < tfMarkEoc32
  · have hfollowed : Followed mark := ⟨hmark.1, hend⟩
    have hmark30 : mark < 2 ^ 30 := Nat.lt_trans hend (by decide)
    rw [if_pos hfollowed, fatEntry_setEntry_if hc hmark30, if_neg hmark.2]
    simp only [hend, true_and]
    constructor
    · intro hfreed hx
      have hx30 : fatEntry shape v mark < 2 ^ 30 := Nat.lt_trans hx.2 (by decide)
      have hzero := hfreed _ hx30
      rw [fatEntry_freedAt hx30, if_pos ⟨hx, rfl⟩] at hzero
      by_cases hxc : fatEntry shape v mark = c
      · exact Or.inl hxc
      · rw [if_neg (by simpa using hxc)] at hzero
        exact Or.inr hzero.symm
    · intro hbehind d hd
      rw [fatEntry_freedAt hd, fatEntry_setEntry_if hc hd]
      simp only [List.mem_singleton]
      by_cases hdx : Followed (fatEntry shape v mark) ∧ d = fatEntry shape v mark
      · rw [if_pos hdx]
        rcases hbehind hdx.1 with heq | heq
        · rw [if_pos (hdx.2.trans heq)]
        · rw [hdx.2, heq, ite_self]
      · rw [if_neg hdx]
  · rw [if_neg fun hfollowed : Followed mark => hend hfollowed.2]
    refine iff_of_false (fun hfreed => ?_) fun h => hend h.1
    have hzero := hfreed c hc
    rw [if_pos (by simp), hentry] at hzero
    omega

/-- `tf_free_clusterchain` frees a chain, and nothing else, if and only if the chain looks as if
only its first cluster had to be freed. -/
theorem tfFreeClusterchain_frees_iff (hco : s.Coherent)
    (hchain : WholeChain s.info.shape s.volume cs mark) :
    FreesChain s cs ↔ LooksFree s.info.shape s.volume cs mark := by
  rw [freesChain_iff hco]
  match cs, hchain with
  | [], h => exact absurd h.links (by simp)
  | [c], h => exact h.alone
  | c :: d :: cs, h =>
    refine iff_of_false h.second fun hlooks => ?_
    have hlength := hlooks.1
    simp at hlength

/-- A FAT where the chain of cluster `3` has a usual mark, and that of cluster `4` another one. -/
def twoMarksDisk : Mem :=
  let shape := blankVolume.info.shape
  setEntry shape (setEntry shape (fun _ => 0) 3 tfMarkEoc32) 4 tfMarkEoc

def twoMarks : Fat32 := { blankVolume with disk := twoMarksDisk }

theorem twoMarks_coherent : twoMarks.Coherent := by
  apply coherent_of_first_sector
  intro a ha
  have hthree : fatAddr blankVolume.info.shape 3 = 1036 := by decide
  have hfour : fatAddr blankVolume.info.shape 4 = 1040 := by decide
  rw [twoMarksDisk, setEntry, setEntry, hthree, hfour, writeLE, if_neg (by omega), writeLE,
    if_neg (by omega)]

theorem twoMarks_three :
    WholeChain twoMarks.info.shape twoMarks.volume [3] tfMarkEoc32 :=
  ⟨by decide, by decide, by decide, by decide⟩

theorem twoMarks_four :
    WholeChain twoMarks.info.shape twoMarks.volume [4] tfMarkEoc :=
  ⟨by decide, by decide, by decide, by decide⟩

/-- The chain with the usual mark is not freed. -/
theorem tfFreeClusterchain_keeps :
    ∃ s : Fat32, s.Coherent ∧ ∃ cs mark, WholeChain s.info.shape s.volume cs mark ∧
      ¬ FreesChain s cs := by
  refine ⟨twoMarks, twoMarks_coherent, [3], tfMarkEoc32, twoMarks_three, ?_⟩
  intro hfrees
  have hlooks := twoMarks_three.alone.mp ((freesChain_iff twoMarks_coherent).mp hfrees)
  exact absurd hlooks.2.1 (by decide)

theorem tfFreeClusterchain_frees_four : FreesChain twoMarks [4] :=
  (tfFreeClusterchain_frees_iff twoMarks_coherent twoMarks_four).mpr
    ⟨rfl, by decide, fun h => absurd h.1 (by decide +kernel)⟩

end PageFaultOS
