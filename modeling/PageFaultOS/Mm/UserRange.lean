import Mathlib.Tactic
import Mathlib.Data.List.TakeWhile
import PageFaultOS.Mm.UserCopy
import PageFaultOS.Mm.Uvmcopy

/-! What `copyin`, `copyout` and `copyinstr` of `mm/vm.cpp` move, on a range whose pages are
mapped. Each round goes to the end of a page; the bytes of a range are those of its pages
put together. -/

namespace PageFaultOS
open Exec Exec.Comp ByteMem

/-- Where the table puts the byte at the user address `v`. -/
def userAddr (m : Mem) (pagetable v : Nat) : Nat := frame m pagetable v + v % 4096

/-- The bytes of a user range, in order. -/
def userBytes (m : Mem) (pagetable va len : Nat) : List UInt8 :=
  (List.range len).map fun i => userByte m pagetable (va + i)

/-- The pages of the range are mapped, to frames other than `0`. -/
structure UserRange (m : Mem) (pagetable va len : Nat) : Prop where
  aligned : pagetable % 4096 = 0
  below : va + len ≤ maxva
  mapped : ∀ v, va ≤ v → v < va + len → Passed m pagetable v

/-- Different pages of the range have different frames. -/
def FramesDistinct (m : Mem) (pagetable va len : Nat) : Prop :=
  ∀ v w, va ≤ v → v < va + len → va ≤ w → w < va + len →
    frame m pagetable v = frame m pagetable w → v / 4096 = w / 4096

/-- No frame of the range is a page of the table. -/
def FramesOutside (m : Mem) (pagetable va len : Nat) : Prop :=
  ∀ v, va ≤ v → v < va + len → NotInTable m pagetable (frame m pagetable v)

/-- How far it is from `p` to the end of its page. -/
def pageRest (p : Nat) : Nat := 4096 - p % 4096

section
variable {m m' : Mem} {pagetable va len p n : Nat} {σ : MemState}

theorem UserRange.tail (h : UserRange m pagetable va len) (hn : n ≤ len) :
    UserRange m pagetable (va + n) (len - n) := by
  have hbelow := h.below
  exact ⟨h.aligned, by omega, fun v hv hv' => h.mapped v (by omega) (by omega)⟩

theorem UserRange.same (h : UserRange m pagetable va len) (hsame : TableSame m m' pagetable) :
    UserRange m' pagetable va len := by
  refine ⟨h.aligned, h.below, fun v hv hv' => ?_⟩
  obtain ⟨hlooked, hframe⟩ := h.mapped v hv hv'
  refine ⟨(hsame.looked v).mpr hlooked, ?_⟩
  rwa [frame, hsame.pteOf]

theorem frame_page (h : va / 4096 = p / 4096) : frame m pagetable va = frame m pagetable p := by
  rw [frame, frame, ← pteOf_page, h, pteOf_page]

theorem userAddr_same (hsame : TableSame m m' pagetable) (v : Nat) :
    userAddr m' pagetable v = userAddr m pagetable v := by
  rw [userAddr, userAddr, frame, frame, hsame.pteOf]

/-- Up to the end of the page the bytes are next to each other. -/
theorem userAddr_add {i : Nat} (h : i < pageRest p) :
    userAddr m pagetable (p + i) = userAddr m pagetable p + i := by
  unfold pageRest at h
  have hframe : frame m pagetable (p + i) = frame m pagetable p := frame_page (by omega)
  rw [userAddr, userAddr, hframe]
  omega

theorem userBytes_length : (userBytes m pagetable va len).length = len := by
  rw [userBytes, List.length_map, List.length_range]

theorem userBytes_getElem {i : Nat} (hi : i < (userBytes m pagetable va len).length) :
    (userBytes m pagetable va len)[i] = userByte m pagetable (va + i) := by
  simp [userBytes]

theorem userBytes_append (n k : Nat) : userBytes m pagetable va (n + k) =
    userBytes m pagetable va n ++ userBytes m pagetable (va + n) k := by
  unfold userBytes
  rw [List.range_add, List.map_append, List.map_map]
  congr 2
  funext i
  simp only [Function.comp_apply, Nat.add_assoc]

theorem userBytes_page (h : n ≤ pageRest p) :
    userBytes m pagetable p n = load m (userAddr m pagetable p) n := by
  refine List.map_congr_left fun i hi => ?_
  have hi := List.mem_range.mp hi
  have haddr : userAddr m pagetable (p + i) = userAddr m pagetable p + i :=
    userAddr_add (Nat.lt_of_lt_of_le hi h)
  exact congrArg m haddr

theorem pteAddr_page (m : Mem) (pagetable v : Nat) :
    pteAddr m pagetable (v / 4096 * 4096) = pteAddr m pagetable v := by
  have hidx : ∀ level, idx level (v / 4096 * 4096) = idx level v :=
    fun level => Fin.ext (px_page level v)
  simp only [pteAddr, leafTable, inner, hidx, px_page]

/-- `KGetKaddr` finds a mapped page. -/
theorem kGetKaddr_passed (hal : pagetable % 4096 = 0) (h : Passed σ.mem pagetable p) :
    kGetKaddr pagetable (pgrounddown p) σ = .ok (frame σ.mem pagetable p) σ ∧
      pgrounddown p = p / 4096 * 4096 := by
  obtain ⟨⟨hbelow, hfound, hentry⟩, -⟩ := h
  rw [maxva_eq] at hbelow
  have hpage : pgrounddown p = p / 4096 * 4096 := pgrounddown_eq (by omega)
  have hlooked : Looked σ.mem pagetable (p / 4096 * 4096) := by
    refine ⟨?_, ?_, ?_⟩
    · rw [maxva_eq]
      omega
    · rwa [pteAddr_page]
    · rwa [pteOf_page]
  refine ⟨?_, hpage⟩
  rw [hpage]
  rcases kGetKaddr_page (σ := σ) hal (Nat.mul_mod_left (p / 4096) 4096) with ⟨_, hrun⟩ | ⟨hnot, _⟩
  · rw [hrun]
    congr 1
    exact frame_page (by omega)
  · exact absurd hlooked hnot

/-- Where the next page starts. -/
theorem next_pageRest (h : Passed m pagetable p) :
    u64 (p / 4096 * 4096 + pgsize) = p + pageRest p ∧ 0 < pageRest p := by
  have hbelow := h.1.below
  rw [maxva_eq] at hbelow
  simp only [u64, pgsize, pageRest]
  omega

/-! ## One page -/

theorem copyoutRound_page (src : List UInt8) (hal : pagetable % 4096 = 0)
    (hp : Passed σ.mem pagetable p) (hsrc : 0 < src.length) :
    copyoutRound pagetable (p, src) σ = .ok (.inl (p + pageRest p, src.drop (pageRest p))) { σ with
      accessed := p / 4096 * 4096 :: σ.accessed
      mem := store σ.mem (userAddr σ.mem pagetable p) (src.take (pageRest p)) } := by
  obtain ⟨hget, hpage⟩ := kGetKaddr_passed hal hp
  have hoff : p - p / 4096 * 4096 = p % 4096 := by omega
  have hrest : pgsize - p % 4096 = pageRest p := rfl
  have htake : src.take (min (pageRest p) src.length) = src.take (pageRest p) := by
    rcases Nat.le_total (pageRest p) src.length with hle | hle
    · rw [Nat.min_eq_left hle]
    · rw [Nat.min_eq_right hle, List.take_length, List.take_of_length_le hle]
  have hdrop : src.drop (min (pageRest p) src.length) = src.drop (pageRest p) := by
    rcases Nat.le_total (pageRest p) src.length with hle | hle
    · rw [Nat.min_eq_left hle]
    · rw [Nat.min_eq_right hle, List.drop_length, List.drop_eq_nil_of_le hle]
  simp only [copyoutRound]
  rw [if_neg (not_not_intro hsrc), bind_ok hget, if_neg hp.2]
  simp only [copyoutPage, hpage, hoff, hrest, htake, hdrop]
  rw [← (next_pageRest hp).1]
  rfl

theorem copyinRound_page (hal : pagetable % 4096 = 0) (hp : Passed σ.mem pagetable p)
    (hlen : 0 < len) (dst : List UInt8) :
    copyinRound pagetable (p, len, dst) σ = .ok (.inl (p + pageRest p, len - pageRest p,
      dst ++ userBytes σ.mem pagetable p (min (pageRest p) len)))
      { σ with accessed := p / 4096 * 4096 :: σ.accessed } := by
  obtain ⟨hget, hpage⟩ := kGetKaddr_passed hal hp
  have hoff : p - p / 4096 * 4096 = p % 4096 := by omega
  have hrest : pgsize - p % 4096 = pageRest p := rfl
  have hleft : len - min (pageRest p) len = len - pageRest p := by omega
  simp only [copyinRound]
  rw [if_neg (not_not_intro hlen), bind_ok hget, if_neg hp.2]
  simp only [copyinPage, hpage, hoff, hrest, hleft]
  rw [← (next_pageRest hp).1, userBytes_page (Nat.min_le_left _ _)]
  rfl

theorem load_succ (m : Mem) (a n : Nat) : load m a (n + 1) = m a :: load m (a + 1) n := by
  unfold load
  rw [List.range_succ_eq_map, List.map_cons, List.map_map]
  congr 1
  refine List.map_congr_left fun i _ => ?_
  simp only [Function.comp_apply]
  congr 1
  omega

/-- The scan stops at the first `NUL`. -/
theorem scanString_load (m : Mem) (a n : Nat) :
    scanString m a n = ((load m a n).takeWhile (· ≠ 0), decide (0 ∈ load m a n)) := by
  induction n generalizing a with
  | zero => rfl
  | succ n ih =>
    rw [scanString, load_succ, ih]
    by_cases h0 : m a = 0
    · rw [if_pos h0, h0]
      simp
    · rw [if_neg h0, List.takeWhile_cons_of_pos (by simpa using h0)]
      simp [h0, eq_comm]

theorem copyinstrRound_page (hal : pagetable % 4096 = 0) (hp : Passed σ.mem pagetable p)
    {max : Nat} (hmax : 0 < max) (dst : List UInt8) :
    let bytes := userBytes σ.mem pagetable p (min (pageRest p) max)
    copyinstrRound pagetable (p, max, false, dst) σ = .ok (.inl (p + pageRest p,
      max - (bytes.takeWhile (· ≠ 0)).length, decide (0 ∈ bytes),
      dst ++ bytes.takeWhile (· ≠ 0) ++ if 0 ∈ bytes then [0] else []))
      { σ with accessed := p / 4096 * 4096 :: σ.accessed } := by
  obtain ⟨hget, hpage⟩ := kGetKaddr_passed hal hp
  have hoff : p - p / 4096 * 4096 = p % 4096 := by omega
  have hrest : pgsize - p % 4096 = pageRest p := rfl
  simp only [copyinstrRound]
  rw [if_neg (not_not_intro ⟨trivial, hmax⟩), bind_ok hget, if_neg hp.2]
  simp only [copyinstrPage, hpage, hoff, hrest, scanString_load]
  rw [← (next_pageRest hp).1, userBytes_page (Nat.min_le_left _ _)]
  simp only [decide_eq_true_eq]
  rfl

/-! ## The loops -/

/-- What a `copyout` of `src` to `va` does to memory. -/
structure CopiedTo (pagetable va : Nat) (src : List UInt8) (m m' : Mem) : Prop where
  table : TableSame m m' pagetable
  stored : ∀ i (hi : i < src.length), m' (userAddr m pagetable (va + i)) = src[i]
  others : ∀ b, (∀ i < src.length, b ≠ userAddr m pagetable (va + i)) → m' b = m b

/-- Bytes in different pages of the range are at different addresses. -/
theorem FramesDistinct.userAddr_ne (h : FramesDistinct m pagetable va len) {i j : Nat}
    (hi : i < len) (hj : j < len) (hij : i ≠ j) :
    userAddr m pagetable (va + i) ≠ userAddr m pagetable (va + j) := by
  intro heq
  have h1 := pte2page_aligned (pteOf m pagetable (va + i))
  have h2 := pte2page_aligned (pteOf m pagetable (va + j))
  unfold userAddr frame at heq
  have hpage := h (va + i) (va + j) (by omega) (by omega) (by omega) (by omega)
    (by unfold frame; omega)
  omega

/-- The bytes of one page. -/
theorem copiedTo_page (src : List UInt8) (hlen : src.length ≤ len) (hrest : src.length ≤ pageRest p)
    (hout : FramesOutside m pagetable p len) :
    CopiedTo pagetable p src m (store m (userAddr m pagetable p) src) := by
  have haddr : ∀ i < src.length, userAddr m pagetable (p + i) = userAddr m pagetable p + i :=
    fun i hi => userAddr_add (Nat.lt_of_lt_of_le hi hrest)
  refine ⟨?_, fun i hi => ?_, fun b hb => store_apply_of_outside _ _ _ _ ?_⟩
  · by_cases hpos : src.length = 0
    · rw [List.eq_nil_of_length_eq_zero hpos]
      intro is pn his hr i
      exact readWord_congr fun b _ _ => store_apply_of_outside _ _ _ _ (by simp; omega)
    · refine TableSame.change (fun _ _ _ _ _ => rfl) (pte2page_aligned _)
        (hout p (Nat.le_refl p) (by omega)) fun b hb => store_apply_of_outside _ _ _ _ ?_
      unfold pageRest at hrest
      unfold userAddr
      unfold frame at hb ⊢
      omega
  · rw [haddr i hi, store, if_pos (Nat.le_add_right _ _), Nat.add_sub_cancel_left,
      List.getElem?_eq_getElem hi, Option.getD_some]
  · by_contra hnot
    refine hb (b - userAddr m pagetable p) (by omega) ?_
    rw [haddr _ (by omega)]
    omega

theorem CopiedTo.append {m'' : Mem} {xs ys : List UInt8} (h : CopiedTo pagetable va xs m m')
    (h' : CopiedTo pagetable (va + xs.length) ys m' m'')
    (hdistinct : FramesDistinct m pagetable va (xs ++ ys).length) :
    CopiedTo pagetable va (xs ++ ys) m m'' := by
  have haddr := userAddr_same h.table
  rw [List.length_append] at hdistinct
  refine ⟨fun is pn his hr i => ?_, fun i hi => ?_, fun b hb => ?_⟩
  · rw [← h.table is pn his hr i]
    exact h'.table is pn his ((h.table.reach is his).trans hr) i
  · rw [List.length_append] at hi
    by_cases hx : i < xs.length
    · rw [List.getElem_append_left hx, ← h.stored i hx]
      refine h'.others _ fun j hj => ?_
      rw [haddr, Nat.add_assoc]
      exact hdistinct.userAddr_ne (by omega) (by omega) (by omega)
    · rw [List.getElem_append_right (Nat.le_of_not_lt hx)]
      have hstored := h'.stored (i - xs.length) (by omega)
      rwa [haddr, Nat.add_assoc, Nat.add_sub_cancel' (Nat.le_of_not_lt hx)] at hstored
  · rw [List.length_append] at hb
    rw [h'.others b fun j hj => ?_, h.others b fun j hj => hb j (by omega)]
    rw [haddr, Nat.add_assoc]
    exact hb _ (by omega)

theorem copyout_range (fuel : Nat) (σ : MemState) (p : Nat) (src : List UInt8)
    (hfuel : src.length < fuel) (hrange : UserRange σ.mem pagetable p src.length)
    (hdistinct : FramesDistinct σ.mem pagetable p src.length)
    (hout : FramesOutside σ.mem pagetable p src.length) :
    ∃ σ', loop (copyoutRound pagetable) fuel (p, src) σ = .ok 0 σ' ∧
      CopiedTo pagetable p src σ.mem σ'.mem := by
  induction fuel generalizing σ p src with
  | zero => exact absurd hfuel (Nat.not_lt_zero _)
  | succ fuel ih =>
    by_cases hsrc : 0 < src.length
    · have hpassed := hrange.mapped p (Nat.le_refl p) (by omega)
      have hrest := (next_pageRest hpassed).2
      have htake : (src.take (pageRest p)).length = min (pageRest p) src.length :=
        List.length_take
      have hfirst := copiedTo_page (src.take (pageRest p)) (by omega) (by omega) hout
      rw [loop_again (copyoutRound_page src hrange.aligned hpassed hsrc)]
      by_cases hdone : src.length ≤ pageRest p
      · -- the range ends in this page
        rw [List.drop_eq_nil_of_le hdone]
        rw [List.take_of_length_le hdone] at hfirst ⊢
        obtain ⟨n, rfl⟩ : ∃ n, fuel = n + 1 := ⟨fuel - 1, by omega⟩
        exact ⟨_, loop_done rfl n, hfirst⟩
      · have hdrop : (src.drop (pageRest p)).length = src.length - pageRest p := List.length_drop
        have hsame := hfirst.table
        obtain ⟨σ', hloop, hlast⟩ := ih { σ with
            accessed := p / 4096 * 4096 :: σ.accessed
            mem := store σ.mem (userAddr σ.mem pagetable p) (src.take (pageRest p)) }
          (p + pageRest p) (src.drop (pageRest p)) (by omega)
          (by rw [hdrop]; exact (hrange.tail (by omega)).same hsame)
          (fun v w hv hv' hw hw' heq => by
            rw [frame, frame, hsame.pteOf, hsame.pteOf] at heq
            exact hdistinct v w (by omega) (by omega) (by omega) (by omega) heq)
          (fun v hv hv' => by
            rw [hsame.notIn_iff, frame, hsame.pteOf]
            exact hout v (by omega) (by omega))
        refine ⟨σ', hloop, ?_⟩
        have hlen : pageRest p = (src.take (pageRest p)).length := by omega
        have hnext : CopiedTo pagetable (p + (src.take (pageRest p)).length)
            (src.drop (pageRest p)) (store σ.mem (userAddr σ.mem pagetable p)
              (src.take (pageRest p))) σ'.mem := by
          rw [← hlen]
          exact hlast
        have hboth := hfirst.append hnext (by rw [List.take_append_drop]; exact hdistinct)
        rwa [List.take_append_drop] at hboth
    · obtain rfl : src = [] := List.eq_nil_of_length_eq_zero (by omega)
      refine ⟨σ, loop_done rfl fuel, fun _ _ _ _ _ => rfl, fun i hi => ?_, fun _ _ => rfl⟩
      exact absurd hi (Nat.not_lt_zero i)

theorem copyin_range (fuel : Nat) (σ : MemState) (p len : Nat) (dst : List UInt8)
    (hfuel : len < fuel) (hrange : UserRange σ.mem pagetable p len) :
    ∃ σ', loop (copyinRound pagetable) fuel (p, len, dst) σ =
        .ok (0, dst ++ userBytes σ.mem pagetable p len) σ' ∧ σ'.mem = σ.mem := by
  induction fuel generalizing σ p len dst with
  | zero => exact absurd hfuel (Nat.not_lt_zero _)
  | succ fuel ih =>
    by_cases hlen : 0 < len
    · have hpassed := hrange.mapped p (Nat.le_refl p) (by omega)
      have hrest := (next_pageRest hpassed).2
      rw [loop_again (copyinRound_page hrange.aligned hpassed hlen dst)]
      by_cases hdone : len ≤ pageRest p
      · rw [Nat.min_eq_right hdone, Nat.sub_eq_zero_of_le hdone]
        obtain ⟨n, rfl⟩ : ∃ n, fuel = n + 1 := ⟨fuel - 1, by omega⟩
        exact ⟨{ σ with accessed := p / 4096 * 4096 :: σ.accessed }, loop_done rfl n, rfl⟩
      · have hle : pageRest p ≤ len := by omega
        obtain ⟨σ', hloop, hmem⟩ := ih { σ with accessed := p / 4096 * 4096 :: σ.accessed }
          (p + pageRest p) (len - pageRest p)
          (dst ++ userBytes σ.mem pagetable p (min (pageRest p) len)) (by omega) (hrange.tail hle)
        refine ⟨σ', ?_, hmem⟩
        rw [hloop, Nat.min_eq_left hle, List.append_assoc, ← userBytes_append,
          Nat.add_sub_cancel' hle]
    · obtain rfl : len = 0 := by omega
      refine ⟨σ, ?_, rfl⟩
      rw [loop_done (a := (0, dst)) rfl fuel]
      simp [userBytes]

/-- What `copyinstr` returns and stores for the bytes of its range. -/
def strResult (bytes : List UInt8) : Int × List UInt8 :=
  if 0 ∈ bytes then (0, bytes.takeWhile (· ≠ 0) ++ [0]) else (-1, bytes)

theorem takeWhile_of_notMem {bytes : List UInt8} (h : 0 ∉ bytes) :
    bytes.takeWhile (· ≠ 0) = bytes := by
  refine List.takeWhile_eq_self_iff.mpr fun b hb => ?_
  have hne : b ≠ 0 := fun h0 => h (h0 ▸ hb)
  simpa using hne

/-- A string goes on in the next page where there is no `NUL` in this one. -/
theorem strResult_append {xs : List UInt8} (h : 0 ∉ xs) (ys : List UInt8) :
    strResult (xs ++ ys) = ((strResult ys).1, xs ++ (strResult ys).2) := by
  unfold strResult
  by_cases hy : 0 ∈ ys
  · rw [if_pos (List.mem_append_right xs hy), if_pos hy,
      List.takeWhile_append_of_pos fun b hb => by
        have hne : b ≠ 0 := fun h0 => h (h0 ▸ hb)
        simpa using hne]
    simp
  · have hxy : 0 ∉ xs ++ ys := fun hin => (List.mem_append.mp hin).elim h hy
    rw [if_neg hxy, if_neg hy]

theorem strResult_of_mem {xs : List UInt8} (h : 0 ∈ xs) (ys : List UInt8) :
    strResult (xs ++ ys) = (0, xs.takeWhile (· ≠ 0) ++ [0]) := by
  have hstop : (xs.takeWhile (· ≠ 0)).length ≠ xs.length := by
    intro hlen
    have hself := (List.takeWhile_sublist fun b : UInt8 => decide (b ≠ 0)).eq_of_length hlen
    have hall := List.takeWhile_eq_self_iff.mp hself 0 h
    simp at hall
  rw [strResult, if_pos (List.mem_append_left ys h), List.takeWhile_append, if_neg hstop]

theorem copyinstr_range (fuel : Nat) (σ : MemState) (p max : Nat) (dst : List UInt8)
    (hfuel : max < fuel) (hrange : UserRange σ.mem pagetable p max) :
    ∃ σ', loop (copyinstrRound pagetable) fuel (p, max, false, dst) σ =
        .ok ((strResult (userBytes σ.mem pagetable p max)).1,
          dst ++ (strResult (userBytes σ.mem pagetable p max)).2) σ' ∧ σ'.mem = σ.mem := by
  induction fuel generalizing σ p max dst with
  | zero => exact absurd hfuel (Nat.not_lt_zero _)
  | succ fuel ih =>
    by_cases hmax : 0 < max
    · have hpassed := hrange.mapped p (Nat.le_refl p) (by omega)
      have hrest := (next_pageRest hpassed).2
      rw [loop_again (copyinstrRound_page hrange.aligned hpassed hmax dst)]
      have hsplit : userBytes σ.mem pagetable p max =
          userBytes σ.mem pagetable p (min (pageRest p) max) ++
            userBytes σ.mem pagetable (p + min (pageRest p) max) (max - min (pageRest p) max) := by
        rw [← userBytes_append, Nat.add_sub_cancel' (Nat.min_le_right _ _)]
      obtain ⟨n, rfl⟩ : ∃ n, fuel = n + 1 := ⟨fuel - 1, by omega⟩
      by_cases hnul : 0 ∈ userBytes σ.mem pagetable p (min (pageRest p) max)
      · -- the `NUL` is in this page
        rw [hsplit, strResult_of_mem hnul]
        simp only [hnul, decide_true, if_true, ← List.append_assoc]
        exact ⟨{ σ with accessed := p / 4096 * 4096 :: σ.accessed }, loop_done rfl n, rfl⟩
      · have hshort := takeWhile_of_notMem hnul
        rw [hsplit, strResult_append hnul, hshort, userBytes_length]
        simp only [hnul, decide_false, if_false, List.append_nil]
        by_cases hdone : max ≤ pageRest p
        · rw [Nat.min_eq_right hdone, Nat.sub_self]
          have hempty : strResult (userBytes σ.mem pagetable (p + max) 0) = (-1, []) := rfl
          rw [hempty, List.append_nil]
          exact ⟨{ σ with accessed := p / 4096 * 4096 :: σ.accessed }, loop_done rfl n, rfl⟩
        · have hle : pageRest p ≤ max := by omega
          rw [Nat.min_eq_left hle]
          obtain ⟨σ', hloop, hmem⟩ := ih { σ with accessed := p / 4096 * 4096 :: σ.accessed }
            (p + pageRest p) (max - pageRest p)
            (dst ++ userBytes σ.mem pagetable p (pageRest p)) (by omega) (hrange.tail hle)
          refine ⟨σ', ?_, hmem⟩
          rw [hloop, List.append_assoc]
    · obtain rfl : max = 0 := by omega
      refine ⟨σ, ?_, rfl⟩
      rw [loop_done (a := (-1, dst)) rfl fuel]
      simp [userBytes, strResult]

end

/-- On a range whose pages are mapped the three functions do what they are for. What `copyout`
writes must not change the table that it goes on to read, nor what it has written. -/
theorem user_copies_move {σ : MemState} {pagetable va len : Nat}
    (hrange : UserRange σ.mem pagetable va len) :
    (∀ src : List UInt8, src.length = len → FramesDistinct σ.mem pagetable va len →
      FramesOutside σ.mem pagetable va len →
      ∃ σ', copyout pagetable va src σ = .ok 0 σ' ∧ CopiedTo pagetable va src σ.mem σ'.mem ∧
        ∃ σ'', copyin pagetable va len σ' = .ok (0, src) σ'' ∧ σ''.mem = σ'.mem) ∧
    (∃ σ', copyin pagetable va len σ = .ok (0, userBytes σ.mem pagetable va len) σ' ∧
      σ'.mem = σ.mem) ∧
    ∃ r dst σ', copyinstr pagetable va len σ = .ok (r, dst) σ' ∧ σ'.mem = σ.mem ∧
      (r = 0 ↔ 0 ∈ userBytes σ.mem pagetable va len) ∧
      (r = 0 → dst = (userBytes σ.mem pagetable va len).takeWhile (· ≠ 0) ++ [0]) ∧
      (r ≠ 0 → r = -1 ∧ dst = userBytes σ.mem pagetable va len) := by
  have hbelow := hrange.below
  rw [maxva_eq] at hbelow
  have hfuel : len < pageRounds := by
    unfold pageRounds
    omega
  refine ⟨fun src hsrc hdistinct hout => ?_, ?_, ?_⟩
  · subst hsrc
    obtain ⟨σ', hrun, hcopied⟩ := copyout_range pageRounds σ va src hfuel hrange hdistinct hout
    obtain ⟨σ'', hback, hmem⟩ := copyin_range pageRounds σ' va src.length [] hfuel
      (hrange.same hcopied.table)
    have hbytes : userBytes σ'.mem pagetable va src.length = src := by
      refine List.ext_getElem userBytes_length fun i hi hi' => ?_
      rw [userBytes_getElem, ← hcopied.stored i hi', ← userAddr_same hcopied.table]
      rfl
    rw [List.nil_append, hbytes] at hback
    exact ⟨σ', hrun, hcopied, σ'', hback, hmem⟩
  · exact copyin_range pageRounds σ va len [] hfuel hrange
  · obtain ⟨σ', hrun, hmem⟩ := copyinstr_range pageRounds σ va len [] hfuel hrange
    rw [List.nil_append] at hrun
    refine ⟨_, _, σ', hrun, hmem, ?_⟩
    unfold strResult
    by_cases hnul : 0 ∈ userBytes σ.mem pagetable va len
    · simp [hnul]
    · simp [hnul]

/-- Three bytes in the page of `forkMachine`, the last of them a `NUL`. -/
theorem user_copies_move_fork :
    ∃ σ', copyout 0x80300000 100 [7, 8, 0] forkMachine = .ok 0 σ' ∧
      CopiedTo 0x80300000 100 [7, 8, 0] forkMachine.mem σ'.mem ∧
      ∃ σ'', copyin 0x80300000 100 3 σ' = .ok (0, [7, 8, 0]) σ'' ∧ σ''.mem = σ'.mem := by
  have hframe : ∀ v, v < 4096 → frame forkMachine.mem 0x80300000 v = 0x80303000 := by
    intro v hv
    rw [frame, forkMachine_pte hv]
    decide
  have hrange : UserRange forkMachine.mem 0x80300000 100 3 := by
    refine ⟨by decide, by decide, fun v hv hv' => ?_⟩
    have hmapped := forkMachine_start.mapped v (by omega)
    refine ⟨⟨by rw [maxva_eq]; omega, hmapped.1, fun h0 => hmapped.2 ?_⟩, ?_⟩
    · rw [h0]
      rfl
    · rw [hframe v (by omega)]
      decide
  refine (user_copies_move hrange).1 [7, 8, 0] rfl (fun v w _ _ _ _ _ => by omega)
    fun v hv hv' is his hreach => ?_
  rw [hframe v (by omega)] at hreach
  have hpath := (forkMachine_path.reach_iff his 0x80303).mp hreach
  omega

/-! ## A page of the table as a frame -/

/-- `forkMachine` with two more pages: the frame of page `510` is the last page of the table
itself. -/
def selfMapped : MemState :=
  let m := writeWord forkMachine.mem (0x80302 * 4096 + 8 * 510)
    (page2pte 0x80302000 ||| (pteW ||| pteR ||| pteU ||| pteV))
  { forkMachine with
    mem := writeWord m (0x80302 * 4096 + 8 * 511)
      (page2pte 0x80303000 ||| (pteW ||| pteR ||| pteU ||| pteV)) }

theorem selfMapped_path : OnePath selfMapped.mem 0x80300 0x80301 0x80302 0 0 := by
  refine forkMachine_path.congr fun b hb => ?_
  simp only [selfMapped]
  rw [writeWord_apply_of_outside _ _ _ _ (by omega),
    writeWord_apply_of_outside _ _ _ _ (by omega)]

/-- The entries of its pages. -/
theorem OnePath.pteOf_low {m : Mem} {p2 p1 p0 : Nat} (h : OnePath m p2 p1 p0 0 0) {v : Nat}
    (hv : v < 2 ^ 21) :
    leafTable m (p2 * 4096) v = some p0 ∧
      pteOf m (p2 * 4096) v = readWord m (p0 * 4096 + 8 * (v / 4096)) := by
  have hidx : ∀ level, 1 ≤ level → idx level v = 0 := by
    intro level hlevel
    have hle : 2 ^ 21 ≤ 2 ^ (12 + 9 * level) := Nat.pow_le_pow_right (by decide) (by omega)
    have hpx : px level v = 0 := by
      rw [px_eq, Nat.div_eq_of_lt (Nat.lt_of_lt_of_le hv hle)]
    exact Fin.ext hpx
  have hpx : px 0 v = v / 4096 := by
    rw [px_eq]
    omega
  have hpath : [idx 2 v, idx 1 v] = [0, 0] := by
    rw [hidx 2 (by decide), hidx 1 (by decide)]
  refine ⟨?_, ?_⟩
  · rw [leafTable, Nat.mul_div_cancel p2 (by decide), inner, hpath, h.reach_iff (le_refl 2)]
    exact Or.inr (Or.inr ⟨rfl, rfl⟩)
  · rw [h.pteOf_path (hidx 2 (by decide)) (hidx 1 (by decide)), slots, ← hpx]
    rfl

theorem selfMapped_pages (v : Nat) (hv : 510 * 4096 + 4088 ≤ v)
    (hv' : v < 510 * 4096 + 4088 + 9) :
    Looked selfMapped.mem 0x80300000 v ∧
      ((v / 4096 = 510 ∧ frame selfMapped.mem 0x80300000 v = 0x80302000) ∨
        (v / 4096 = 511 ∧ frame selfMapped.mem 0x80300000 v = 0x80303000)) := by
  obtain ⟨hleaf, hpte⟩ := selfMapped_path.pteOf_low (by omega : v < 2 ^ 21)
  have haddr : pteAddr selfMapped.mem 0x80300000 v ≠ 0 := by
    rw [pteAddr, hleaf]
    simp
  have hbelow : v < maxva := by
    rw [maxva_eq]
    omega
  rcases (by omega : v / 4096 = 510 ∨ v / 4096 = 511) with h510 | h511
  · have hentry : pteOf selfMapped.mem 0x80300000 v =
        page2pte 0x80302000 ||| (pteW ||| pteR ||| pteU ||| pteV) := by
      rw [hpte, h510]
      simp only [selfMapped]
      rw [readWord_writeWord_of_disjoint _ _ _ _ (by omega)]
      exact readWord_writeWord _ _ _
    refine ⟨⟨hbelow, haddr, by rw [hentry]; decide⟩, Or.inl ⟨h510, ?_⟩⟩
    rw [frame, hentry]
    decide
  · have hentry : pteOf selfMapped.mem 0x80300000 v =
        page2pte 0x80303000 ||| (pteW ||| pteR ||| pteU ||| pteV) := by
      rw [hpte, h511]
      exact readWord_writeWord _ _ _
    refine ⟨⟨hbelow, haddr, by rw [hentry]; decide⟩, Or.inr ⟨h511, ?_⟩⟩
    rw [frame, hentry]
    decide

/-- The last nine bytes of page `510` and the first one of page `511`. -/
theorem selfMapped_range : UserRange selfMapped.mem 0x80300000 (510 * 4096 + 4088) 9 ∧
    FramesDistinct selfMapped.mem 0x80300000 (510 * 4096 + 4088) 9 := by
  refine ⟨⟨by decide, by rw [maxva_eq]; decide, fun v hv hv' => ?_⟩,
    fun v w hv hv' hw hw' heq => ?_⟩
  · obtain ⟨hlooked, hframe⟩ := selfMapped_pages v hv hv'
    exact ⟨hlooked, by omega⟩
  · have h1 := (selfMapped_pages v hv hv').2
    have h2 := (selfMapped_pages w hw hw').2
    omega

/-- `copyout` over the table that it reads: the entry of page `511` is gone when its turn
comes. -/
theorem copyout_table_fails : UserRange selfMapped.mem 0x80300000 (510 * 4096 + 4088) 9 ∧
    FramesDistinct selfMapped.mem 0x80300000 (510 * 4096 + 4088) 9 ∧
    ∀ r σ', copyout 0x80300000 (510 * 4096 + 4088) (List.replicate 9 0) selfMapped ≠ .ok r σ' := by
  refine ⟨selfMapped_range.1, selfMapped_range.2, fun r σ' hrun => ?_⟩
  have hpassed := selfMapped_range.1.mapped (510 * 4096 + 4088) (Nat.le_refl _) (by decide)
  have hround := copyoutRound_page (List.replicate 9 0) rfl hpassed (by decide)
  have hrest : pageRest (510 * 4096 + 4088) = 8 := by decide
  have haddr : userAddr selfMapped.mem 0x80300000 (510 * 4096 + 4088) = 0x80302 * 4096 + 4088 := by
    rcases (selfMapped_pages (510 * 4096 + 4088) (Nat.le_refl _) (by decide)).2 with
      ⟨-, hframe⟩ | ⟨hpage, -⟩
    · rw [userAddr, hframe]
    · exact absurd hpage (by decide)
  rw [hrest, haddr] at hround
  generalize hσ : ({ selfMapped with
    accessed := (510 * 4096 + 4088) / 4096 * 4096 :: selfMapped.accessed
    mem := store selfMapped.mem (0x80302 * 4096 + 4088) ((List.replicate 9 0).take 8) } :
      MemState) = σ at hround
  have hmem : σ.mem = store selfMapped.mem (0x80302 * 4096 + 4088) (List.replicate 8 0) := by
    rw [← hσ]
    rfl
  -- the entry of page `511` is what has been copied
  have hpath : OnePath σ.mem 0x80300 0x80301 0x80302 0 0 := by
    refine selfMapped_path.congr fun b hb => ?_
    rw [hmem]
    exact store_apply_of_outside _ _ _ _ (by simp only [List.length_replicate]; omega)
  have hentry : pteOf σ.mem 0x80300000 (511 * 4096) = 0 := by
    have hzero : ∀ b, 0x80302 * 4096 + 4088 ≤ b → b < 0x80302 * 4096 + 4088 + 8 →
        store selfMapped.mem (0x80302 * 4096 + 4088) (List.replicate 8 0) b = 0 := by
      intro b hb hb'
      rw [store, if_pos hb, List.getElem?_replicate_of_lt (by omega), Option.getD_some]
    rw [(hpath.pteOf_low (by decide : 511 * 4096 < 2 ^ 21)).2, hmem]
    have hword : readWord (store selfMapped.mem (0x80302 * 4096 + 4088) (List.replicate 8 0))
        (0x80302 * 4096 + 8 * (511 * 4096 / 4096)) = readWord (fun _ => 0)
        (0x80302 * 4096 + 8 * (511 * 4096 / 4096)) :=
      readWord_congr fun b hb hb' => hzero b hb hb'
    rw [hword]
    simp [readWord, readLE]
  have hpanic : ∃ msg, copyoutRound 0x80300000 (511 * 4096, [0]) σ = .fault (.panic msg) σ := by
    rcases kGetKaddr_page (σ := σ) (by decide : 0x80300000 % 4096 = 0)
      (by decide : 511 * 4096 % 4096 = 0) with ⟨hlooked, -⟩ | ⟨-, msg, hget⟩
    · exact absurd hentry hlooked.entry
    · refine ⟨msg, ?_⟩
      simp only [copyoutRound]
      rw [if_neg (by decide), show pgrounddown (511 * 4096) = 511 * 4096 from by decide]
      exact bind_fault hget _
  obtain ⟨msg, hpanic⟩ := hpanic
  unfold copyout at hrun
  rw [pageRounds, loop_again hround] at hrun
  have hstop := (loop_fault hpanic (2 ^ 52 - 1)).symm.trans hrun
  cases hstop

end PageFaultOS
