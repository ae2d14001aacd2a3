import Mathlib.Tactic
import PageFaultOS.Lib.Stores
import PageFaultOS.Mm.UserCopy
import PageFaultOS.Fs.ShortNames

/-! What `either_copyout` does to a buffer of the kernel or of the process, as long as the buffer
is mapped: it stores the bytes at the addresses behind those that it is given. -/

namespace PageFaultOS
open Exec Exec.Comp ByteMem

/-- The physical address behind an address that `either_copyout` is given. -/
def physical (user : Bool) (pagetable : Nat) (m : Mem) (a : Nat) : Nat :=
  if user then frame m pagetable (a / 4096 * 4096) + a % 4096 else a

/-- `either_copyout` stores what it is given for the addresses from `lo` to `hi`. For a process,
`KGetKaddr` finds the pages, and none of them is part of the page table. -/
structure Writable (user : Bool) (pagetable : Nat) (m : Mem) (lo hi : Nat) : Prop where
  below : hi ≤ 2 ^ 64
  table : user = true → pagetable % 4096 = 0 ∧ FramesApart m pagetable
  pages : user = true → ∀ a, lo ≤ a → a < hi → Passed m pagetable (a / 4096 * 4096)
  injective : ∀ a b, lo ≤ a → a < hi → lo ≤ b → b < hi →
    physical user pagetable m a = physical user pagetable m b → a = b

/-- From `m` to `m'` the strings have been stored in the buffer from `lo` to `hi`. -/
structure CopiedOut (user : Bool) (pagetable lo hi : Nat) (m m' : Mem)
    (l : List (Nat × List UInt8)) : Prop where
  physical : ∀ a, physical user pagetable m' a = physical user pagetable m a
  writable : Writable user pagetable m' lo hi
  stored : ∀ a, lo ≤ a → a < hi → m' (PageFaultOS.physical user pagetable m a) =
    storeAll (fun b => m (PageFaultOS.physical user pagetable m b)) l a
  outside : ∀ x, (∀ a, Covers l a → PageFaultOS.physical user pagetable m a ≠ x) → m' x = m x

variable {user : Bool} {pagetable lo hi p n : Nat} {m m' m'' : Mem} {s t : Fat32}
  {l l' : List (Nat × List UInt8)}

/-! ## The page table -/

theorem TableSame.passed (h : TableSame m m' pagetable) (v : Nat) :
    Passed m' pagetable v ↔ Passed m pagetable v := by
  unfold Passed frame
  rw [h.looked, h.pteOf]

theorem TableSame.framesApart (h : TableSame m m' pagetable) (hapart : FramesApart m pagetable) :
    FramesApart m' pagetable := by
  intro v hv
  rw [frame, h.pteOf, h.notIn_iff]
  exact hapart v ((h.passed v).mp hv)

theorem TableSame.physical (h : TableSame m m' pagetable) (user : Bool) (a : Nat) :
    physical user pagetable m' a = physical user pagetable m a := by
  unfold PageFaultOS.physical frame
  rw [h.pteOf]

/-- Where the table is the same, the buffer is as writable as it was. -/
theorem Writable.same (h : Writable user pagetable m lo hi)
    (hsame : user = true → TableSame m m' pagetable) :
    Writable user pagetable m' lo hi ∧
      ∀ a, physical user pagetable m' a = physical user pagetable m a := by
  have hphysical : ∀ a, physical user pagetable m' a = physical user pagetable m a := by
    intro a
    cases user with
    | false => rfl
    | true => exact (hsame rfl).physical true a
  refine ⟨⟨h.below, fun huser => ?_, fun huser a ha ha' => ?_, fun a b ha ha' hb hb' heq => ?_⟩,
    hphysical⟩
  · exact ⟨(h.table huser).1, (hsame huser).framesApart (h.table huser).2⟩
  · exact ((hsame huser).passed _).mpr (h.pages huser a ha ha')
  · rw [hphysical, hphysical] at heq
    exact h.injective a b ha ha' hb hb' heq

theorem Writable.shorter (h : Writable user pagetable m lo hi) (hn : n ≤ hi) :
    Writable user pagetable m lo n :=
  ⟨hn.trans h.below, h.table, fun huser a ha ha' => h.pages huser a ha (ha'.trans_le hn),
    fun a b ha ha' hb hb' => h.injective a b ha (ha'.trans_le hn) hb (hb'.trans_le hn)⟩

/-- What is behind the buffer is no part of the table. -/
theorem Writable.tableSame (h : Writable user pagetable m lo hi) (huser : user = true)
    (hm : ∀ x, (∀ a, lo ≤ a → a < hi → physical user pagetable m a ≠ x) → m' x = m x) :
    TableSame m m' pagetable := by
  subst huser
  intro is pn his hr i
  have hi := i.isLt
  refine readWord_congr fun b hb hb' => hm b fun a ha ha' heq => ?_
  have hpassed := h.pages rfl a ha ha'
  have hnot := (h.table rfl).2 _ hpassed
  have haligned := pte2page_aligned (pteOf m pagetable (a / 4096 * 4096))
  rw [physical, if_pos rfl] at heq
  have hpn : frame m pagetable (a / 4096 * 4096) / 4096 = pn := by
    unfold frame at heq ⊢
    omega
  exact hnot is his (hpn ▸ hr)

/-! ## Copies one after the other -/

theorem CopiedOut.trans (h : CopiedOut user pagetable lo hi m m' l)
    (h' : CopiedOut user pagetable lo hi m' m'' l') :
    CopiedOut user pagetable lo hi m m'' (l ++ l') := by
  refine ⟨fun a => (h'.physical a).trans (h.physical a), h'.writable, fun a ha ha' => ?_,
    fun x hx => ?_⟩
  · have hstored := h'.stored a ha ha'
    rw [h.physical] at hstored
    rw [hstored, storeAll_append]
    refine storeAll_congr ?_ l'
    show m' (PageFaultOS.physical user pagetable m' a) = _
    rw [h.physical]
    exact h.stored a ha ha'
  · rw [h'.outside x fun a ha => h.physical a ▸ hx a (covers_append.mpr (Or.inr ha))]
    exact h.outside x fun a ha => hx a (covers_append.mpr (Or.inl ha))

theorem CopiedOut.congr (h : CopiedOut user pagetable lo hi m m' l)
    (hstore : ∀ w, storeAll w l = storeAll w l') (hcovers : ∀ a, Covers l a ↔ Covers l' a) :
    CopiedOut user pagetable lo hi m m' l' :=
  ⟨h.physical, h.writable, fun a ha ha' => (h.stored a ha ha').trans (by rw [hstore]),
    fun x hx => h.outside x fun a ha => hx a ((hcovers a).mp ha)⟩

/-- It does not matter where nothing is stored. -/
theorem CopiedOut.moved_nil (h : CopiedOut user pagetable lo hi m m' [(n, [])]) (p : Nat) :
    CopiedOut user pagetable lo hi m m' [(p, [])] := by
  have hcovers : ∀ q a, ¬ Covers [(q, [])] a := by
    intro q a hin
    rw [covers_single] at hin
    exact absurd hin.2 (Nat.not_lt.mpr hin.1)
  exact h.congr (fun w => funext fun a => by
    rw [storeAll_outside (hcovers n a), storeAll_outside (hcovers p a)])
    fun a => iff_of_false (hcovers n a) (hcovers p a)

/-- Two copies in a row are one copy. -/
theorem CopiedOut.merge {xs ys : List UInt8} (h : CopiedOut user pagetable lo hi m m' [(p, xs)])
    (h' : CopiedOut user pagetable lo hi m' m'' [(p + xs.length, ys)]) :
    CopiedOut user pagetable lo hi m m'' [(p, xs ++ ys)] :=
  (h.trans h').congr (fun w => storeAll_merge w p xs ys) fun _ => covers_merge

/-- The addresses of the copy are behind one another. -/
theorem CopiedOut.of_store (h : Writable user pagetable m lo hi) {b : Nat} (xs : List UInt8)
    (hb : ∀ i < xs.length, PageFaultOS.physical user pagetable m (p + i) = b + i)
    (hin : xs ≠ [] → lo ≤ p ∧ p + xs.length ≤ hi) :
    CopiedOut user pagetable lo hi m (store m b xs) [(p, xs)] := by
  have hrange : ∀ i < xs.length, lo ≤ p + i ∧ p + i < hi := by
    intro i hi'
    have hne : xs ≠ [] := List.length_pos_iff.mp (by omega)
    have := hin hne
    omega
  have hother : ∀ x, (∀ i < xs.length, b + i ≠ x) → store m b xs x = m x := by
    intro x hx
    refine store_apply_of_outside _ _ _ _ ?_
    by_contra hnot
    exact hx (x - b) (by omega) (by omega)
  have htable : user = true → TableSame m (store m b xs) pagetable := fun huser =>
    h.tableSame huser fun x hx => hother x fun i hi' heq =>
      hx (p + i) (hrange i hi').1 (hrange i hi').2 ((hb i hi').trans heq)
  obtain ⟨hwritable, hphysical⟩ := h.same htable
  refine ⟨hphysical, hwritable, fun a ha ha' => ?_, fun x hx => hother x fun i hi' heq => ?_⟩
  · show store m b xs (PageFaultOS.physical user pagetable m a) =
      store (fun d => m (PageFaultOS.physical user pagetable m d)) p xs a
    by_cases hcov : p ≤ a ∧ a < p + xs.length
    · have haddr : PageFaultOS.physical user pagetable m a = b + (a - p) := by
        have := hb (a - p) (by omega)
        rwa [Nat.add_sub_cancel' hcov.1] at this
      rw [haddr, store_apply _ (by omega) (by omega), store_apply _ hcov.1 hcov.2,
        Nat.add_sub_cancel_left]
    · rw [hother, store_apply_of_outside _ _ _ _ (by omega)]
      intro i hi' heq
      have hpi := h.injective (p + i) a (hrange i hi').1 (hrange i hi').2 ha ha'
        ((hb i hi').trans heq)
      omega
  · exact hx (p + i) (covers_single.mpr (by omega)) ((hb i hi').trans heq)

/-! ## Copying -/

/-- `copyout` goes from page to page. -/
theorem copyout_writable (fuel : Nat) (σ : MemState) (rest : List UInt8)
    (hfuel : rest.length < fuel) (h : Writable true pagetable σ.mem lo hi)
    (hin : rest ≠ [] → lo ≤ p ∧ p + rest.length ≤ hi) :
    ∃ σ', loop (copyoutRound pagetable) fuel (p, rest) σ = .ok 0 σ' ∧
      CopiedOut true pagetable lo hi σ.mem σ'.mem [(p, rest)] := by
  induction fuel generalizing p rest σ with
  | zero => exact absurd hfuel (Nat.not_lt_zero _)
  | succ fuel ih =>
    by_cases hrest : rest = []
    · subst hrest
      refine ⟨σ, loop_done rfl fuel, ?_⟩
      have hstore : store σ.mem p [] = σ.mem := by
        funext a
        exact store_apply_of_outside _ _ _ _ (by simp only [List.length_nil]; omega)
      have hcopied := CopiedOut.of_store (p := p) (b := p) h []
        (fun i hi' => absurd hi' (Nat.not_lt_zero i)) (fun hne => absurd rfl hne)
      rwa [hstore] at hcopied
    · have hpos := List.length_pos_of_ne_nil hrest
      obtain ⟨hlo, hhi⟩ := hin hrest
      have hpassed := h.pages rfl p hlo (by omega)
      have hbelow := hpassed.1.below
      have hlimit := h.below
      rw [maxva_eq] at hbelow
      have hpage : pgrounddown p = p / 4096 * 4096 := pgrounddown_eq (by omega)
      have hget : kGetKaddr pagetable (p / 4096 * 4096) σ =
          .ok (frame σ.mem pagetable (p / 4096 * 4096)) σ := by
        rcases kGetKaddr_page (σ := σ) (h.table rfl).1 (Nat.mul_mod_left (p / 4096) 4096) with
          ⟨_, hrun⟩ | ⟨hnot, _⟩
        · exact hrun
        · exact absurd hpassed.1 hnot
      have hlen : (rest.take (min (pgsize - (p - p / 4096 * 4096)) rest.length)).length =
          min (pgsize - (p - p / 4096 * 4096)) rest.length := by
        rw [List.length_take]
        omega
      generalize hn : min (pgsize - (p - p / 4096 * 4096)) rest.length = n at hlen
      have hsize : pgsize = 4096 := rfl
      -- the bytes of this page
      have hcopied := CopiedOut.of_store (p := p) h
        (b := frame σ.mem pagetable (p / 4096 * 4096) + (p - p / 4096 * 4096))
        (rest.take n) (fun i hi' => by
          have hsame : (p + i) / 4096 = p / 4096 := by omega
          rw [physical, if_pos rfl, hsame]
          omega) (fun _ => ⟨hlo, by omega⟩)
      have hround : copyoutRound pagetable (p, rest) σ =
          .ok (.inl (u64 (p / 4096 * 4096 + pgsize), rest.drop n)) { σ with
            accessed := p / 4096 * 4096 :: σ.accessed
            mem := store σ.mem (frame σ.mem pagetable (p / 4096 * 4096) +
              (p - p / 4096 * 4096)) (rest.take n) } := by
        simp only [copyoutRound]
        rw [if_neg (not_not_intro hpos), hpage, bind_ok hget, if_neg hpassed.2]
        simp only [copyoutPage, hpage, hn]
        rfl
      obtain ⟨σ', hloop, hcopied'⟩ := ih (p := u64 (p / 4096 * 4096 + pgsize)) { σ with
          accessed := p / 4096 * 4096 :: σ.accessed
          mem := store σ.mem (frame σ.mem pagetable (p / 4096 * 4096) +
            (p - p / 4096 * 4096)) (rest.take n) } (rest.drop n)
        (by rw [List.length_drop]; omega) hcopied.writable (fun hne => by
          have hlen' := List.length_pos_of_ne_nil hne
          rw [List.length_drop] at hlen' ⊢
          rw [u64]
          omega)
      refine ⟨σ', (loop_again hround fuel).trans hloop, ?_⟩
      -- the other pages follow
      have hothers : CopiedOut true pagetable lo hi (store σ.mem (frame σ.mem pagetable
          (p / 4096 * 4096) + (p - p / 4096 * 4096)) (rest.take n)) σ'.mem
          [(p + (rest.take n).length, rest.drop n)] := by
        by_cases hdone : rest.drop n = []
        · rw [hdone] at hcopied' ⊢
          exact hcopied'.moved_nil _
        · have hlen' := List.length_pos_of_ne_nil hdone
          rw [List.length_drop] at hlen'
          have hnext : u64 (p / 4096 * 4096 + pgsize) = p + (rest.take n).length := by
            rw [hlen, u64]
            omega
          rw [← hnext]
          exact hcopied'
      have hmerged := hcopied.merge hothers
      rwa [List.take_append_drop] at hmerged

/-- The strings are for the buffer from `lo` to `hi`. -/
def Inside (lo hi : Nat) (l : List (Nat × List UInt8)) : Prop := ∀ b, Covers l b → lo ≤ b ∧ b < hi

theorem inside_append : Inside lo hi (l ++ l') ↔ Inside lo hi l ∧ Inside lo hi l' := by
  constructor
  · intro h
    exact ⟨fun b hb => h b (covers_append.mpr (Or.inl hb)),
      fun b hb => h b (covers_append.mpr (Or.inr hb))⟩
  · rintro ⟨h, h'⟩ b hb
    exact (covers_append.mp hb).elim (h b) (h' b)

theorem inside_single {xs : List UInt8} :
    Inside lo hi [(p, xs)] ↔ (xs ≠ [] → lo ≤ p ∧ p + xs.length ≤ hi) := by
  constructor
  · intro h hne
    have hpos := List.length_pos_of_ne_nil hne
    have hfirst := h p (covers_single.mpr ⟨Nat.le_refl p, by omega⟩)
    have hlast := h (p + xs.length - 1) (covers_single.mpr (by omega))
    omega
  · intro h b hb
    have hin := covers_single.mp hb
    have hne : xs ≠ [] := List.length_pos_iff.mp (by omega)
    have := h hne
    omega

theorem CopiedOut.refl (h : Writable user pagetable m lo hi) :
    CopiedOut user pagetable lo hi m m [] := ⟨fun _ => rfl, h, fun _ _ _ => rfl, fun _ _ => rfl⟩

/-- The computation returns `r`, and has copied the strings out. -/
def Copies {α : Type} (user : Bool) (lo hi : Nat) (x : FsComp α) (s : Fat32) (r : α)
    (l : List (Nat × List UInt8)) : Prop :=
  ∃ mm, x s = .ok r { s with mm := mm } ∧
    CopiedOut user s.pagetable lo hi s.mm.mem mm.mem l

section
variable {α β : Type} {x : FsComp α} {k : α → FsComp β} {a : α} {b : β}

theorem Copies.bind (h : Copies user lo hi x s a l)
    (hk : ∀ mm, Writable user s.pagetable mm.mem lo hi →
      Copies user lo hi (k a) { s with mm := mm } b l') :
    Copies user lo hi (x >>= k) s b (l ++ l') := by
  obtain ⟨mm, hrun, hcopied⟩ := h
  obtain ⟨mm', hrun', hcopied'⟩ := hk mm hcopied.writable
  exact ⟨mm', (bind_ok hrun k).trans hrun', hcopied.trans hcopied'⟩

theorem Copies.map (f : α → β) (h : Copies user lo hi x s a l) :
    Copies user lo hi (x >>= fun a => pure (f a)) s (f a) l := by
  obtain ⟨mm, hrun, hcopied⟩ := h
  exact ⟨mm, bind_ok hrun _, hcopied⟩

theorem Copies.merge {xs ys : List UInt8}
    (h : Copies user lo hi x s a ([(p, xs)] ++ [(p + xs.length, ys)])) :
    Copies user lo hi x s a [(p, xs ++ ys)] := by
  obtain ⟨mm, hrun, hcopied⟩ := h
  exact ⟨mm, hrun, hcopied.congr (fun w => storeAll_merge w p xs ys) fun _ => covers_merge⟩

end

theorem inside_merge {xs ys : List UInt8} :
    Inside lo hi [(p, xs ++ ys)] ↔
      Inside lo hi [(p, xs)] ∧ Inside lo hi [(p + xs.length, ys)] := by
  have h : Inside lo hi [(p, xs ++ ys)] ↔ Inside lo hi ([(p, xs)] ++ [(p + xs.length, ys)]) :=
    forall_congr' fun b => by rw [← covers_merge]; rfl
  rw [h, inside_append]

theorem eitherCopyout_copies {dst : Int} {bytes : List UInt8} (hdst : dst = p) (hp : p < 2 ^ 64)
    (hlen : bytes.length < 2 ^ 52) (hw : Writable user s.pagetable s.mm.mem lo hi)
    (hin : Inside lo hi [(p, bytes)]) :
    Copies user lo hi (eitherCopyout user dst bytes) s 0 [(p, bytes)] := by
  cases user with
  | false =>
    refine ⟨{ s.mm with mem := store s.mm.mem p bytes }, eitherCopyout_kernel s hdst hp bytes, ?_⟩
    exact CopiedOut.of_store hw bytes (fun _ _ => rfl) (inside_single.mp hin)
  | true =>
    obtain ⟨mm, hrun, hcopied⟩ := copyout_writable pageRounds s.mm bytes
      (Nat.lt_succ_of_lt hlen) hw (inside_single.mp hin)
    have haddr : addr64 dst = p := by
      rw [addr64, hdst]
      omega
    have hcopyout : copyout s.pagetable (addr64 dst) bytes s.mm = .ok 0 mm := by
      rw [haddr]
      exact hrun
    refine ⟨mm, ?_, hcopied⟩
    unfold eitherCopyout
    rw [read_bind, if_pos rfl, onMemory, hcopyout]

theorem copySfn_copies (e : FatFileEntry) (hp : p + 12 < 2 ^ 64)
    (hw : Writable user s.pagetable s.mm.mem lo hi) (hin : Inside lo hi [(p, sfnName e)]) :
    Copies user lo hi (copySfn e p user) s (sfnName e).length [(p, sfnName e)] := by
  have hlen := sfnName_length_le e
  unfold sfnName joinName at hlen hin ⊢
  unfold copySfn
  simp only
  generalize (e.take 8).takeWhile (· ≠ space) = base at hlen hin ⊢
  generalize ((e.drop 8).take 3).takeWhile (· ≠ space) = extension at hlen hin ⊢
  by_cases hext : extension = []
  · rw [if_pos hext] at hlen hin ⊢
    rw [if_pos hext]
    exact (eitherCopyout_copies rfl (by omega) (by omega) hw hin).map fun _ => base.length
  · rw [if_neg hext] at hlen hin ⊢
    rw [if_neg hext]
    rw [List.length_append, List.length_cons] at hlen
    have hdot : dot :: extension = [dot] ++ extension := rfl
    obtain ⟨hin1, hin2⟩ := inside_merge.mp hin
    rw [hdot] at hin2
    obtain ⟨hin2, hin3⟩ := inside_merge.mp hin2
    have hcount : (base ++ dot :: extension).length = base.length + 1 + extension.length := by
      rw [List.length_append, List.length_cons]
      omega
    rw [hcount]
    refine Copies.merge (Copies.bind (eitherCopyout_copies rfl (by omega) (by omega) hw hin1)
      fun mm hw' => ?_)
    rw [hdot]
    refine Copies.merge (Copies.bind (eitherCopyout_copies (by push_cast; rfl) (by omega)
      (by simp) hw' hin2) fun mm' hw'' => ?_)
    exact (eitherCopyout_copies (by push_cast; rfl) (by simp; omega) (by omega) hw''
      hin3).map fun _ => base.length + 1 + extension.length

/-- The text of an entry of a long name. -/
def lfnText (e : FatFileEntry) : List UInt8 := lfnChars e 1 5 ++ lfnChars e 14 6 ++ lfnChars e 28 2

theorem lfnChars_length_le (e : FatFileEntry) (i n : Nat) : (lfnChars e i n).length ≤ n := by
  unfold lfnChars
  rw [List.length_map]
  refine (List.takeWhile_sublist _).length_le.trans ?_
  rw [List.length_map, List.length_range]

theorem lfnText_length_le (e : FatFileEntry) : (lfnText e).length ≤ 13 := by
  have h1 := lfnChars_length_le e 1 5
  have h2 := lfnChars_length_le e 14 6
  have h3 := lfnChars_length_le e 28 2
  rw [lfnText, List.length_append, List.length_append]
  omega

/-- The text goes to its place in the name, which the number of the entry says. -/
theorem copyLfn_copies (e : FatFileEntry) {dst : Nat}
    (hp : dst + 13 * clearFlag e.sequenceNumber 0x40 = p + 13) (hbelow : p + 13 < 2 ^ 64)
    (hw : Writable user s.pagetable s.mm.mem lo hi) (hin : Inside lo hi [(p, lfnText e)]) :
    Copies user lo hi (copyLfn e dst user) s (lfnText e).length [(p, lfnText e)] := by
  have h1 := lfnChars_length_le e 1 5
  have h2 := lfnChars_length_le e 14 6
  have h3 := lfnChars_length_le e 28 2
  have hcount : (lfnText e).length =
      (lfnChars e 1 5).length + (lfnChars e 14 6).length + (lfnChars e 28 2).length := by
    rw [lfnText, List.length_append, List.length_append]
  rw [hcount]
  unfold lfnText at hin ⊢
  unfold copyLfn
  simp only
  generalize lfnChars e 1 5 = name1 at h1 hin ⊢
  generalize lfnChars e 14 6 = name2 at h2 hin ⊢
  generalize lfnChars e 28 2 = name3 at h3 hin ⊢
  obtain ⟨hin12, hin3⟩ := inside_merge.mp hin
  obtain ⟨hin1, hin2⟩ := inside_merge.mp hin12
  rw [List.length_append] at hin3
  rw [List.append_assoc]
  refine Copies.merge (Copies.bind (eitherCopyout_copies (p := p) (by omega) (by omega)
    (by omega) hw hin1) fun mm hw' => ?_)
  simp only [lt_self_iff_false, if_false]
  refine Copies.merge (Copies.bind (eitherCopyout_copies (p := p + name1.length)
    (by push_cast; omega) (by omega) (by omega) hw' hin2) fun mm' hw'' => ?_)
  exact (eitherCopyout_copies (p := p + name1.length + name2.length) (by omega)
    (by omega) (by omega) hw'' (by rwa [Nat.add_assoc])).map fun _ => _

end PageFaultOS
