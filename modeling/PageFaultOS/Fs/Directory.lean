import Mathlib.Tactic
import PageFaultOS.Fs.Seek
import PageFaultOS.Fs.Path

/-! Looking for a name in a directory. `search` says where the name is, in terms of the
entries alone; `tf_find_file` finds it there, as long as the search stays within the
clusters of the directory. -/

namespace PageFaultOS
open Exec Exec.Comp ByteMem

/-- Entry `k` of the directory on the chain. -/
def dirEntry (shape : TFShape) (v : Mem) (cs : List Nat) (k : Nat) : FatFileEntry :=
  fileBytes shape v cs (32 * k) 32

/-- The search may go to entry `k`: it is within the chain, and within the size that
directories are given. -/
def HasRoom (shape : TFShape) (cs : List Nat) (k : Nat) : Prop :=
  32 * k < min (chainBytes shape cs) 0xffffffff

instance (shape : TFShape) (cs : List Nat) (k : Nat) : Decidable (HasRoom shape cs k) :=
  inferInstanceAs (Decidable (_ < _))

/-- The outcome of looking at one entry: the name is at an entry, it is not there and the
search goes on at an entry, or the search ends. -/
inductive Compared where
  | found (k : Nat)
  | next (k : Nat)
  | stop
  deriving DecidableEq

/-- The `n` entries from `k` hold the characters of a long name, last ones first. -/
def longNameMatches (entry : Nat → FatFileEntry) (name : CStr) (k n : Nat) : Bool :=
  (List.range' 0 n).all fun i =>
    tfCompareFilenameSegment (entry (k + n - 1 - i)) (name.drop (13 * i))

def compareAt (entry : Nat → FatFileEntry) (name : CStr) (k : Nat) : Compared :=
  let e := entry k
  if entryByte e 0 = 0 then
    .stop
  else if e.attributes ≠ tfAttrLongName then
    if tfCompareFilenameSegment e name then .found k else .next (k + 1)
  else if e.sequenceNumber &&& 0xc0 = 0x40 then
    let n := clearFlag e.sequenceNumber 0x40
    if (name.length + 12) / 13 = n ∧ longNameMatches entry name k n then .found (k + n)
    else .next (k + max n 1)
  else
    .stop

/-- The outcome of a search: `lost` where it leaves the directory. -/
inductive Searched where
  | found (k : Nat)
  | missing
  | lost
  deriving DecidableEq

/-- The search from entry `k` on. -/
def search (shape : TFShape) (cs : List Nat) (entry : Nat → FatFileEntry) (name : CStr) :
    Nat → Nat → Searched
  | 0, _ => .lost
  | fuel + 1, k =>
    if ¬ HasRoom shape cs (k + 1) then
      .lost
    else
      match compareAt entry name k with
      | .stop => .missing
      | .found j => if HasRoom shape cs (j + 1) then .found j else .lost
      | .next j => if HasRoom shape cs j then search shape cs entry name fuel j else .lost

/-- The search of a directory. There are fewer than `2 ^ 27` entries. -/
def searchDir (shape : TFShape) (v : Mem) (cs : List Nat) (name : CStr) : Searched :=
  search shape cs (dirEntry shape v cs) name (2 ^ 27) 0

variable {cs : List Nat} {s s' : Fat32} {fp k j : Nat} {f : TFFile}

theorem HasRoom.le {shape : TFShape} (h : HasRoom shape cs j) (hkj : k ≤ j) :
    HasRoom shape cs k := by
  unfold HasRoom at h ⊢
  omega

/-! ## A file in a directory -/

/-- The directory `f` is open and at entry `k`. -/
structure InDir (s : Fat32) (fp : Nat) (cs : List Nat) (f : TFFile) (k : Nat) : Prop where
  valid : s.info.shape.Valid
  coherent : s.Coherent
  chain : FatChain s.info.shape s.volume cs
  start : f.startCluster = cs.getD 0 0
  size : f.size = 0xffffffff
  file : s.handles fp = moveTo s.info.shape cs (32 * k) f

section
variable (h : InDir s fp cs f k)
include h

theorem InDir.moved (hm : Moved s s' fp (moveTo s.info.shape cs (32 * j) f)) :
    InDir s' fp cs f j := by
  refine ⟨?_, hm.coherent, h.chain.same hm.same, h.start, h.size, ?_⟩
  · rw [hm.same.shape]
    exact h.valid
  · rw [hm.file, hm.same.shape]

theorem InDir.onChain : OnChain s.info.shape cs (s.handles fp) := by
  rw [h.file]
  exact ⟨h.start, rfl⟩

/-- A seek from entry to entry. -/
theorem InDir.seekBy {d : Int} (hd : ((32 * k : Nat) : Int) + d = (32 * j : Nat))
    (hsmall : -2 ^ 31 ≤ d ∧ d < 2 ^ 31) (hroom : HasRoom s.info.shape cs j) :
    ∃ s', seekBy fp d s = .ok 0 s' ∧ Moved s s' fp (moveTo s.info.shape cs (32 * j) f) := by
  unfold HasRoom at hroom
  have hsize : (s.handles fp).size = 0xffffffff := by
    rw [h.file]
    exact h.size
  have hpos : (s.handles fp).pos = 32 * k := by
    rw [h.file]
    rfl
  obtain ⟨t, hrun, hmoved⟩ := tfFseek_run d ((s.handles fp).pos : Int) (q := 32 * j)
    h.valid h.coherent h.chain h.onChain
    (by rw [hpos]; omega) (by rw [hsize]; omega) (by rw [hsize]; decide) (by omega) hsmall
  refine ⟨t, ?_, ?_⟩
  · unfold PageFaultOS.seekBy
    rw [bind_ok (getFile_run s fp)]
    exact hrun
  · rw [h.file] at hmoved
    exact hmoved

/-- Reading the entry. -/
theorem InDir.freadEntry (old : FatFileEntry) (hroom : HasRoom s.info.shape cs (k + 1)) :
    ∃ s', freadEntry old fp s = .ok (dirEntry s.info.shape s.volume cs k) s' ∧
      Moved s s' fp (moveTo s.info.shape cs (32 * (k + 1)) f) := by
  unfold HasRoom at hroom
  have hsize : (s.handles fp).size = 0xffffffff := by
    rw [h.file]
    exact h.size
  have hpos : (s.handles fp).pos = 32 * k := by
    rw [h.file]
    rfl
  have hread : Readable s.info.shape cs (s.handles fp) 32 :=
    ⟨h.onChain, by omega, by rw [hsize]; decide, Or.inl (by omega)⟩
  obtain ⟨t, q, hrun, hmoved, hq⟩ := tfFread_run (n := 32) (by decide) h.valid h.coherent
    h.chain hread
  have hq' := hq (by omega)
  rw [hpos] at hq' hrun
  rw [hsize, Nat.min_eq_left (by omega)] at hrun
  rw [hq', h.file] at hmoved
  refine ⟨t, ?_, hmoved⟩
  unfold PageFaultOS.freadEntry
  rw [bind_ok hrun, fileBytes_length, List.drop_of_length_le (List.length_take_le 32 old),
    List.append_nil]
  rfl

end

/-! ## Comparing and finding -/

/-- The loop over the entries of a long name, with `m` of them to go. -/
theorem compareLfn_loop_run (fuel m : Nat) {i n : Nat} (name : CStr) (old : FatFileEntry)
    (him : i + m = n) (hfuel : m < fuel) (h : InDir s fp cs f (k + m)) (hn : n < 2 ^ 20)
    (hroom : HasRoom s.info.shape cs (k + n)) :
    ∃ s', loop (compareLfnRound fp n) fuel (i, name.drop (13 * i), old) s =
        .ok (if (List.range' i m).all (fun i => tfCompareFilenameSegment
            (dirEntry s.info.shape s.volume cs (k + n - 1 - i)) (name.drop (13 * i)))
          then 1 else 0) s' ∧
      Moved s s' fp (moveTo s.info.shape cs (32 * (k + n)) f) := by
  induction m generalizing s i fuel old with
  | zero =>
    obtain ⟨fuel, rfl⟩ := Nat.exists_eq_succ_of_ne_zero (Nat.ne_of_gt hfuel)
    obtain ⟨t, hseek, hmoved⟩ := h.seekBy (d := (32 * n : Nat)) (j := k + n) (by omega)
      (by omega) hroom
    have hround : compareLfnRound fp n (i, name.drop (13 * i), old) s = .ok (.inr 1) t := by
      simp only [compareLfnRound]
      rw [if_pos (by omega), bind_ok hseek]
      rfl
    exact ⟨t, loop_done hround fuel, hmoved⟩
  | succ m ih =>
    obtain ⟨fuel, rfl⟩ := Nat.exists_eq_succ_of_ne_zero (Nat.ne_zero_of_lt hfuel)
    have hroom1 : HasRoom s.info.shape cs (k + m + 1) := hroom.le (by omega)
    obtain ⟨t, hback, hmoved1⟩ := h.seekBy (d := -32) (j := k + m) (by omega) (by decide)
      (hroom1.le (by omega))
    have h1 := h.moved hmoved1
    obtain ⟨u, hread, hmoved2⟩ := h1.freadEntry old (by rw [hmoved1.same.shape]; exact hroom1)
    have h2 := h1.moved hmoved2
    rw [hmoved1.same.shape, hmoved1.same.volume] at hread
    have hshape : u.info.shape = s.info.shape := hmoved2.same.shape.trans hmoved1.same.shape
    have hvolume : u.volume = s.volume := hmoved2.same.volume.trans hmoved1.same.volume
    have hto : Moved s u fp (moveTo s.info.shape cs (32 * (k + m + 1)) f) := by
      have hm := hmoved1.trans hmoved2
      rw [hmoved1.same.shape] at hm
      exact hm
    have hidx : k + n - 1 - i = k + m := by omega
    cases hseg : tfCompareFilenameSegment (dirEntry s.info.shape s.volume cs (k + m))
        (name.drop (13 * i)) with
    | false =>
      obtain ⟨w, hforth, hmoved3⟩ := h2.seekBy (d := (i * 32 : Nat)) (j := k + n) (by omega)
        (by omega) (by rw [hshape]; exact hroom)
      have hround : compareLfnRound fp n (i, name.drop (13 * i), old) s = .ok (.inr 0) w := by
        simp only [compareLfnRound]
        rw [if_neg (by omega), bind_ok hback, bind_ok hread, if_pos hseg, bind_ok hforth]
        rfl
      refine ⟨w, ?_, ?_⟩
      · rw [loop_done hround, List.range'_succ, List.all_cons, hidx, hseg]
        rfl
      · rw [hshape] at hmoved3
        exact hto.trans hmoved3
    | true =>
      obtain ⟨w, hforth, hmoved3⟩ := h2.seekBy (d := -32) (j := k + m) (by omega) (by decide)
        (by rw [hshape]; exact hroom1.le (by omega))
      have h3 := h2.moved hmoved3
      have hshape' : w.info.shape = s.info.shape := hmoved3.same.shape.trans hshape
      have hvolume' : w.volume = s.volume := hmoved3.same.volume.trans hvolume
      have hround : compareLfnRound fp n (i, name.drop (13 * i), old) s =
          .ok (.inl (i + 1, name.drop (13 * (i + 1)),
            dirEntry s.info.shape s.volume cs (k + m))) w := by
        have hseg' : ¬ tfCompareFilenameSegment (dirEntry s.info.shape s.volume cs (k + m))
            (name.drop (13 * i)) = false := by
          rw [hseg]
          decide
        simp only [compareLfnRound]
        rw [if_neg (by omega), bind_ok hback, bind_ok hread, if_neg hseg', bind_ok hforth,
          List.drop_drop, Nat.mul_succ]
        rfl
      obtain ⟨x, hloop, hmoved4⟩ := ih fuel (s := w) (i := i + 1)
        (dirEntry s.info.shape s.volume cs (k + m)) (by omega) (by omega) h3
        (by rw [hshape']; exact hroom)
      refine ⟨x, ?_, ?_⟩
      · rw [loop_again hround, hloop, hshape', hvolume', List.range'_succ, List.all_cons, hidx,
          hseg, Bool.true_and]
      · rw [hshape'] at hmoved4
        rw [hshape] at hmoved3
        exact (hto.trans hmoved3).trans hmoved4

/-- The result of `tf_compare_filename`, and the entry at which it leaves the directory. -/
def Compared.result (k : Nat) : Compared → Int × Nat
  | .found j => (1, j)
  | .next j => (0, j)
  | .stop => (-1, k + 1)

theorem tfCompareFilename_run {name : CStr} (h : InDir s fp cs f k) (hname : name ≠ [])
    (hroom : HasRoom s.info.shape cs (k + 1)) {r : Compared}
    (hr : compareAt (dirEntry s.info.shape s.volume cs) name k = r)
    (hroom' : HasRoom s.info.shape cs (r.result k).2) :
    ∃ s', tfCompareFilename fp name s = .ok (r.result k).1 s' ∧
      Moved s s' fp (moveTo s.info.shape cs (32 * (r.result k).2) f) := by
  obtain ⟨t, hread, hmoved⟩ := h.freadEntry s.stale hroom
  have h1 := h.moved hmoved
  have hshape := hmoved.same.shape
  have hvolume := hmoved.same.volume
  unfold tfCompareFilename
  rw [read_bind, bind_ok hread]
  unfold compareAt at hr
  simp only at hr
  by_cases hend : entryByte (dirEntry s.info.shape s.volume cs k) 0 = 0
  · rw [if_pos hend] at hr ⊢
    subst hr
    exact ⟨t, rfl, hmoved⟩
  · rw [if_neg hend] at hr ⊢
    by_cases hlong : (dirEntry s.info.shape s.volume cs k).attributes ≠ tfAttrLongName
    · rw [if_pos hlong] at hr ⊢
      by_cases hseg : tfCompareFilenameSegment (dirEntry s.info.shape s.volume cs k) name = true
      · rw [if_pos hseg] at hr ⊢
        subst hr
        obtain ⟨u, hback, hmoved2⟩ := h1.seekBy (d := -32) (j := k) (by omega) (by decide)
          (by rw [hshape]; exact hroom')
        rw [bind_ok hback]
        rw [hshape] at hmoved2
        exact ⟨u, rfl, hmoved.trans hmoved2⟩
      · rw [if_neg hseg] at hr ⊢
        subst hr
        exact ⟨t, rfl, hmoved⟩
    · rw [if_neg hlong] at hr ⊢
      by_cases hseq : (dirEntry s.info.shape s.volume cs k).sequenceNumber &&& 0xc0 = 0x40
      · rw [if_pos hseq] at hr ⊢
        generalize hn : clearFlag (dirEntry s.info.shape s.volume cs k).sequenceNumber 0x40 = n
          at hr ⊢
        have hn191 : n ≤ 191 := by
          rw [← hn]
          exact Nat.and_le_right
        have hlen : 0 < name.length := List.length_pos_of_ne_nil hname
        cases n with
        | zero =>
          -- the seek back by one entry wraps and fails
          have hne : ¬ (name.length + 12) / 13 = 0 := by omega
          rw [if_neg fun hc => hne hc.1] at hr
          subst hr
          have hfail : seekBy fp (u32 (32 * u32 (0 + (2 ^ 32 - 1))) : Nat) t =
              .ok tfErrInvalidSeek t := by
            unfold seekBy
            rw [bind_ok (getFile_run t fp)]
            apply tfFseek_end
            have hbase : (u32 (32 * u32 (0 + (2 ^ 32 - 1))) : Nat) = 0xffffffe0 := by decide
            have hin : 32 * (k + 1) < 0xffffffff := lt_of_lt_of_le hroom (Nat.min_le_right _ _)
            rw [hmoved.file, hbase]
            simp only [moveTo, h.size]
            rw [toLong_small (by omega) (by omega)]
            omega
          rw [bind_ok hfail, if_pos hne]
          exact ⟨t, rfl, hmoved⟩
        | succ n =>
          have hmax : max (n + 1) 1 = n + 1 := Nat.max_eq_left (Nat.succ_pos n)
          rw [hmax] at hr
          have hbase : u32 (32 * u32 (n + 1 + (2 ^ 32 - 1))) = 32 * n := by
            simp only [u32]
            omega
          have hroomn : HasRoom s.info.shape cs (k + (n + 1)) := by
            split at hr
            · subst hr
              exact hroom'
            · subst hr
              exact hroom'
          obtain ⟨u, hforth, hmoved2⟩ := h1.seekBy (d := (32 * n : Nat)) (j := k + (n + 1))
            (by omega) (by omega) (by rw [hshape]; exact hroomn)
          have h2 := h1.moved hmoved2
          have hshape' : u.info.shape = s.info.shape := hmoved2.same.shape.trans hshape
          have hvolume' : u.volume = s.volume := hmoved2.same.volume.trans hvolume
          rw [hshape] at hmoved2
          rw [hbase, bind_ok hforth]
          by_cases hlfn : (name.length + 12) / 13 = n + 1
          · rw [if_neg (not_not_intro hlfn)]
            obtain ⟨w, hloop, hmoved3⟩ := compareLfn_loop_run fileRounds (n + 1) (k := k)
              (i := 0) (n := n + 1) name (dirEntry s.info.shape s.volume cs k)
              (by omega) (by simp only [fileRounds]; omega) h2 (by omega)
              (by rw [hshape']; exact hroomn)
            rw [hshape', hvolume'] at hloop
            rw [hshape'] at hmoved3
            refine ⟨w, ?_, ?_⟩
            · rw [Nat.mul_zero, List.drop_zero] at hloop
              rw [hloop]
              by_cases hmatch : longNameMatches (dirEntry s.info.shape s.volume cs) name k (n + 1)
              · rw [if_pos ⟨hlfn, hmatch⟩] at hr
                rw [← hr]
                rw [longNameMatches] at hmatch
                rw [if_pos hmatch]
                rfl
              · rw [if_neg fun hc => hmatch hc.2] at hr
                rw [← hr]
                rw [longNameMatches] at hmatch
                rw [if_neg hmatch]
                rfl
            · have hj : (r.result k).2 = k + (n + 1) := by
                split at hr <;> subst hr <;> rfl
              rw [hj]
              exact (hmoved.trans hmoved2).trans hmoved3
          · rw [if_pos hlfn]
            rw [if_neg fun hc => hlfn hc.1] at hr
            subst hr
            exact ⟨u, rfl, hmoved.trans hmoved2⟩
      · rw [if_neg hseq] at hr ⊢
        subst hr
        exact ⟨t, rfl, hmoved⟩

/-! ## Searching -/

variable {shape : TFShape} {entry : Nat → FatFileEntry} {name : CStr} {n fuel : Nat}

/-- What a search within the directory does at its first entry. -/
theorem search_cases {r : Searched} (h : search shape cs entry name (n + 1) k = r)
    (hlost : r ≠ .lost) :
    HasRoom shape cs (k + 1) ∧
      (compareAt entry name k = .stop ∧ r = .missing ∨
        (∃ i, compareAt entry name k = .found i ∧ HasRoom shape cs (i + 1) ∧ r = .found i) ∨
        ∃ i, compareAt entry name k = .next i ∧ HasRoom shape cs i ∧
          search shape cs entry name n i = r) := by
  unfold search at h
  split at h
  · exact absurd h.symm hlost
  · rename_i hin
    refine ⟨not_not.mp hin, ?_⟩
    cases hcompare : compareAt entry name k with
    | stop =>
      simp only [hcompare] at h
      exact Or.inl ⟨rfl, h.symm⟩
    | found i =>
      simp only [hcompare] at h
      split at h
      · rename_i hroom
        exact Or.inr (Or.inl ⟨i, rfl, hroom, h.symm⟩)
      · exact absurd h.symm hlost
    | next i =>
      simp only [hcompare] at h
      split at h
      · rename_i hroom
        exact Or.inr (Or.inr ⟨i, rfl, hroom, h⟩)
      · exact absurd h.symm hlost

/-- What `tf_find_file` returns. -/
def Searched.rc : Searched → Int
  | .found _ => 0
  | .missing => -1
  | .lost => -1

theorem findFile_loop_run (hname : name ≠ []) (hfuel : n ≤ fuel)
    (h : InDir s fp cs f k) {r : Searched}
    (hr : search s.info.shape cs (dirEntry s.info.shape s.volume cs) name n k = r)
    (hlost : r ≠ .lost) :
    ∃ t j, loop (findFileRound fp name) fuel () s = .ok r.rc t ∧
      Moved s t fp (moveTo s.info.shape cs (32 * j) f) ∧
      ∀ i, r = .found i → j = i ∧ HasRoom s.info.shape cs (i + 1) := by
  induction n generalizing s k fuel with
  | zero =>
    rw [search] at hr
    exact absurd hr.symm hlost
  | succ n ih =>
    obtain ⟨fuel, rfl⟩ := Nat.exists_eq_succ_of_ne_zero (Nat.ne_zero_of_lt hfuel)
    obtain ⟨hroom, ⟨hcompare, rfl⟩ | ⟨i, hcompare, hroomi, rfl⟩ | ⟨i, hcompare, hroomi, hrest⟩⟩ :=
      search_cases hr hlost
    · obtain ⟨t, hrun, hmoved⟩ := tfCompareFilename_run h hname hroom hcompare hroom
      have hround : findFileRound fp name () s = .ok (.inr (-1)) t := by
        unfold findFileRound
        rw [bind_ok hrun]
        rfl
      exact ⟨t, k + 1, loop_done hround fuel, hmoved, fun i hi => by cases hi⟩
    · obtain ⟨t, hrun, hmoved⟩ := tfCompareFilename_run h hname hroom hcompare
        (hroomi.le (Nat.le_succ i))
      have hround : findFileRound fp name () s = .ok (.inr 0) t := by
        unfold findFileRound
        rw [bind_ok hrun]
        rfl
      refine ⟨t, i, loop_done hround fuel, hmoved, fun i' hi' => ?_⟩
      cases hi'
      exact ⟨rfl, hroomi⟩
    · obtain ⟨t, hrun, hmoved⟩ := tfCompareFilename_run h hname hroom hcompare hroomi
      have hround : findFileRound fp name () s = .ok (.inl ()) t := by
        unfold findFileRound
        rw [bind_ok hrun]
        rfl
      obtain ⟨u, j, hloop, hmoved', hj⟩ := ih (Nat.le_of_succ_le_succ hfuel) (h.moved hmoved)
        (by rw [hmoved.same.shape, hmoved.same.volume]; exact hrest)
      rw [hmoved.same.shape] at hmoved' hj
      exact ⟨u, j, (loop_again hround fuel).trans hloop, hmoved.trans hmoved', hj⟩

/-- The seek to the first entry. -/
theorem InDir.rewind (h : InDir s fp cs f k) (hroom : HasRoom s.info.shape cs 0) :
    ∃ t, tfFseek fp 0 0 s = .ok 0 t ∧ Moved s t fp (moveTo s.info.shape cs (32 * 0) f) := by
  unfold HasRoom at hroom
  have hsize : (s.handles fp).size = 0xffffffff := by
    rw [h.file]
    exact h.size
  obtain ⟨t, hrun, hmoved⟩ := tfFseek_run 0 0 (q := 32 * 0) h.valid h.coherent h.chain h.onChain
    (by decide) (by rw [hsize]; decide) (by rw [hsize]; decide) (by omega) (by decide)
  rw [h.file] at hmoved
  exact ⟨t, hrun, hmoved⟩

/-- `tf_find_file` goes where the search says. -/
theorem tfFindFile_run (hname : name ≠ []) (h : InDir s fp cs f k) {r : Searched}
    (hn : n + 1 ≤ fileRounds)
    (hr : search s.info.shape cs (dirEntry s.info.shape s.volume cs) name (n + 1) 0 = r)
    (hlost : r ≠ .lost) :
    ∃ t j, tfFindFile fp name s = .ok r.rc t ∧
      Moved s t fp (moveTo s.info.shape cs (32 * j) f) ∧
      ∀ i, r = .found i → j = i ∧ HasRoom s.info.shape cs (i + 1) := by
  obtain ⟨t, hseek, hmoved⟩ := h.rewind ((search_cases hr hlost).1.le (Nat.zero_le _))
  obtain ⟨u, j, hloop, hmoved', hj⟩ := findFile_loop_run hname hn (h.moved hmoved)
    (by rw [hmoved.same.shape, hmoved.same.volume]; exact hr) hlost
  rw [hmoved.same.shape] at hmoved' hj
  refine ⟨u, j, ?_, hmoved.trans hmoved', hj⟩
  unfold tfFindFile
  rw [bind_ok hseek, hloop]

end PageFaultOS
