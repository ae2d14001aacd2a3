import Mathlib.Tactic
import PageFaultOS.Mm.MapPages

/-! `copyin`, `copyout` and `copyinstr` of `mm/vm.cpp`. All three go through the user
range page by page and look each page up with `KGetKaddr`. The kernel's buffer is a
list of bytes. The pages that are gone through are recorded in the ghost `accessed`. -/

namespace PageFaultOS
open Exec Exec.Comp ByteMem

/-- Record that the user page `vaddr0` is read or written. -/
def touch (vaddr0 : Nat) : MemComp Unit :=
  modify fun σ => { σ with accessed := vaddr0 :: σ.accessed }

/-- `copyout` through one page, found at `paddr0`. -/
def copyoutPage (dstvaddr : Nat) (src : List UInt8) (paddr0 : Nat) :
    MemComp ((Nat × List UInt8) ⊕ Int) := do
  let vaddr0 := pgrounddown dstvaddr
  let n := min (pgsize - (dstvaddr - vaddr0)) src.length
  touch vaddr0
  modify fun σ => { σ with mem := store σ.mem (paddr0 + (dstvaddr - vaddr0)) (src.take n) }
  pure (.inl (u64 (vaddr0 + pgsize), src.drop n))

/-- One round of `copyout`, at `(dstvaddr, src)`; `len` is the length of `src`. -/
def copyoutRound (pagetable : Nat) :
    Nat × List UInt8 → MemComp ((Nat × List UInt8) ⊕ Int) := fun (dstvaddr, src) => do
  if ¬ 0 < src.length then
    pure (.inr 0)
  else do
    let paddr0 ← kGetKaddr pagetable (pgrounddown dstvaddr)
    if paddr0 = 0 then
      pure (.inr (-1))
    else
      copyoutPage dstvaddr src paddr0

def copyout (pagetable dstvaddr : Nat) (src : List UInt8) : MemComp Int :=
  loop (copyoutRound pagetable) pageRounds (dstvaddr, src)

/-- `copyin` through one page, found at `paddr0`, with `dst` already copied. -/
def copyinPage (srcvaddr len : Nat) (dst : List UInt8) (paddr0 : Nat) :
    MemComp ((Nat × Nat × List UInt8) ⊕ (Int × List UInt8)) := do
  let vaddr0 := pgrounddown srcvaddr
  let n := min (pgsize - (srcvaddr - vaddr0)) len
  touch vaddr0
  let σ ← read
  pure (.inl (u64 (vaddr0 + pgsize), len - n,
    dst ++ load σ.mem (paddr0 + (srcvaddr - vaddr0)) n))

/-- One round of `copyin`, at `(srcvaddr, len, dst)`. -/
def copyinRound (pagetable : Nat) :
    Nat × Nat × List UInt8 → MemComp ((Nat × Nat × List UInt8) ⊕ (Int × List UInt8)) :=
    fun (srcvaddr, len, dst) => do
  if ¬ 0 < len then
    pure (.inr (0, dst))
  else do
    let paddr0 ← kGetKaddr pagetable (pgrounddown srcvaddr)
    if paddr0 = 0 then
      pure (.inr (-1, dst))
    else
      copyinPage srcvaddr len dst paddr0

/-- The result and the bytes stored to `dst`. -/
def copyin (pagetable srcvaddr len : Nat) : MemComp (Int × List UInt8) :=
  loop (copyinRound pagetable) pageRounds (srcvaddr, len, [])

/-- The bytes before the first `NUL` among the `n` bytes from `p`, and whether there is one. -/
def scanString (m : Mem) : Nat → Nat → List UInt8 × Bool
  | _, 0 => ([], false)
  | p, n + 1 =>
    if m p = 0 then ([], true)
    else (m p :: (scanString m (p + 1) n).1, (scanString m (p + 1) n).2)

/-- `copyinstr` through one page, found at `paddr0`, with `dst` already copied. -/
def copyinstrPage (srcvaddr max : Nat) (dst : List UInt8) (paddr0 : Nat) :
    MemComp ((Nat × Nat × Bool × List UInt8) ⊕ (Int × List UInt8)) := do
  let vaddr0 := pgrounddown srcvaddr
  let n := min (pgsize - (srcvaddr - vaddr0)) max
  touch vaddr0
  let σ ← read
  let (bytes, found) := scanString σ.mem (paddr0 + (srcvaddr - vaddr0)) n
  pure (.inl (u64 (vaddr0 + pgsize), max - bytes.length, found,
    dst ++ bytes ++ if found then [0] else []))

/-- One round of `copyinstr`, at `(srcvaddr, max, got_null, dst)`. -/
def copyinstrRound (pagetable : Nat) :
    Nat × Nat × Bool × List UInt8 →
      MemComp ((Nat × Nat × Bool × List UInt8) ⊕ (Int × List UInt8)) :=
    fun (srcvaddr, max, got_null, dst) => do
  if ¬ (got_null = false ∧ 0 < max) then
    pure (.inr (if got_null then 0 else -1, dst))
  else do
    let paddr0 ← kGetKaddr pagetable (pgrounddown srcvaddr)
    if paddr0 = 0 then
      pure (.inr (-1, dst))
    else
      copyinstrPage srcvaddr max dst paddr0

def copyinstr (pagetable srcvaddr max : Nat) : MemComp (Int × List UInt8) :=
  loop (copyinstrRound pagetable) pageRounds (srcvaddr, max, false, [])

/-! ## The pages of a user range -/

/-- The `k`-th page of a range that starts at `va`. -/
def pageAt (va k : Nat) : Nat := (va / 4096 + k) * 4096

/-- The first byte of the range in that page. -/
def posAt (va k : Nat) : Nat := max va (pageAt va k)

/-- The range of `len` bytes from `va` has a byte in its `k`-th page. -/
def Needed (va len k : Nat) : Prop := posAt va k < va + len

def frame (m : Mem) (pagetable va : Nat) : Nat := pte2page (pteOf m pagetable va)

/-- The page of `va` is mapped with both `PTE_V` and `PTE_U`. -/
structure UserPage (m : Mem) (pagetable va : Nat) : Prop where
  below : va < maxva
  found : pteAddr m pagetable va ≠ 0
  flags : pteOf m pagetable va &&& (pteV ||| pteU) = pteV ||| pteU

/-- `KGetKaddr` returns for the page of `va`: it only looks for an entry other than `0`. -/
structure Looked (m : Mem) (pagetable va : Nat) : Prop where
  below : va < maxva
  found : pteAddr m pagetable va ≠ 0
  entry : pteOf m pagetable va ≠ 0

/-- `KGetKaddr` returns `0` for the page of `va`, which the callers take for a failure. -/
def Refused (m : Mem) (pagetable va : Nat) : Prop :=
  Looked m pagetable va ∧ frame m pagetable va = 0

/-- `KGetKaddr` returns an address for the page of `va`, and the caller goes through it. -/
def Passed (m : Mem) (pagetable va : Nat) : Prop :=
  Looked m pagetable va ∧ frame m pagetable va ≠ 0

/-- The loop has to look at the `k`-th page of the range: all earlier ones are user pages
with a frame. -/
def Reaches (m : Mem) (pagetable va len k : Nat) : Prop :=
  Needed va len k ∧
    ∀ j, j < k → UserPage m pagetable (pageAt va j) ∧ frame m pagetable (pageAt va j) ≠ 0

/-- What the three functions promise about the range: no panic, only user pages are read
or written, and `-1` where a page that is reached is not one. -/
def Isolated {α : Type} (m : Mem) (pagetable va len : Nat) (ret : α → Int)
    (run : Res MemState α) : Prop :=
  run.Holds
    (fun a σ' => (∀ v ∈ σ'.accessed, UserPage m pagetable v) ∧
      ((∃ k, Reaches m pagetable va len k ∧ ¬ UserPage m pagetable (pageAt va k)) → ret a = -1))
    (fun _ _ => False)

/-- Each page that is reached is a user page or refused. -/
def Guarded (m : Mem) (pagetable va len : Nat) : Prop :=
  ∀ k, Reaches m pagetable va len k →
    UserPage m pagetable (pageAt va k) ∨ Refused m pagetable (pageAt va k)

theorem UserPage.looked {m : Mem} {pagetable va : Nat} (h : UserPage m pagetable va) :
    Looked m pagetable va := by
  refine ⟨h.below, h.found, fun h0 => ?_⟩
  have hflags := h.flags
  rw [h0] at hflags
  exact absurd hflags (by decide)

/-- The first `k` pages of the range were gone through. -/
structure Scanned (m : Mem) (pagetable va len k : Nat) (σ' : MemState) : Prop where
  before : ∀ j, j < k → Needed va len j ∧ Passed m pagetable (pageAt va j)
  log : ∀ v, v ∈ σ'.accessed ↔ ∃ j, j < k ∧ v = pageAt va j

/-- How a run over the pages of the range ends: with the range, at a page that is refused,
or in a panic at a page that `KGetKaddr` does not return for. -/
def ScanEnd {α : Type} (m : Mem) (pagetable va len : Nat) (ret : α → Int)
    (run : Res MemState α) : Prop :=
  run.Holds
    (fun a σ' => ∃ k, Scanned m pagetable va len k σ' ∧
      (¬ Needed va len k ∨
        (Needed va len k ∧ Refused m pagetable (pageAt va k) ∧ ret a = -1)))
    (fun _ σ' => ∃ k, Scanned m pagetable va len k σ' ∧ Needed va len k ∧
      ¬ Looked m pagetable (pageAt va k))

theorem Needed.mono {va len j k : Nat} (h : Needed va len k) (hjk : j ≤ k) :
    Needed va len j := by
  have hle : pageAt va j ≤ pageAt va k := Nat.mul_le_mul_right 4096 (by omega)
  have hpos : posAt va j ≤ posAt va k := max_le_max (le_refl va) hle
  exact lt_of_le_of_lt hpos h

/-- Under the guard, every page that a run goes through is a user page. -/
private theorem Scanned.user {m : Mem} {pagetable va len k : Nat} {σ' : MemState}
    (hs : Scanned m pagetable va len k σ') (hg : Guarded m pagetable va len) :
    ∀ j, j < k → UserPage m pagetable (pageAt va j) ∧ frame m pagetable (pageAt va j) ≠ 0 := by
  intro j
  induction j using Nat.strong_induction_on with
  | _ j ih =>
    intro hj
    obtain ⟨hneeded, hpassed⟩ := hs.before j hj
    have hreach : Reaches m pagetable va len j := ⟨hneeded, fun i hi => ih i hi (by omega)⟩
    rcases hg j hreach with huser | hrefused
    · exact ⟨huser, hpassed.2⟩
    · exact absurd hrefused.2 hpassed.2

/-- A run that ends as `ScanEnd` says is isolated just when the range is guarded. -/
theorem isolated_iff_guarded {α : Type} {m : Mem} {pagetable va len : Nat} {ret : α → Int}
    {run : Res MemState α} (hend : ScanEnd m pagetable va len ret run) :
    Isolated m pagetable va len ret run ↔ Guarded m pagetable va len := by
  unfold Isolated
  unfold ScanEnd at hend
  constructor
  · intro hiso k hreach
    cases run with
    | fault f σ' => exact hiso.elim
    | ok a σ' =>
      obtain ⟨huser, _⟩ := hiso
      obtain ⟨k', hscan, hlast⟩ := hend
      rcases Nat.lt_trichotomy k k' with hlt | rfl | hgt
      · exact Or.inl (huser _ ((hscan.log _).mpr ⟨k, hlt, rfl⟩))
      · rcases hlast with hnot | ⟨_, hrefused, _⟩
        · exact absurd hreach.1 hnot
        · exact Or.inr hrefused
      · rcases hlast with hnot | ⟨_, hrefused, _⟩
        · exact absurd (hreach.1.mono hgt.le) hnot
        · exact absurd hrefused.2 (hreach.2 k' hgt).2
  · intro hg
    cases run with
    | fault f σ' =>
      obtain ⟨k, hscan, hneeded, hnot⟩ := hend
      rcases hg k ⟨hneeded, hscan.user hg⟩ with huser | hrefused
      · exact absurd huser.looked hnot
      · exact absurd hrefused.1 hnot
    | ok a σ' =>
      obtain ⟨k', hscan, hlast⟩ := hend
      have huser := hscan.user hg
      constructor
      · intro v hv
        obtain ⟨j, hj, rfl⟩ := (hscan.log v).mp hv
        exact (huser j hj).1
      · rintro ⟨k, hreach, hnotUser⟩
        rcases hlast with hnot | ⟨_, _, hret⟩
        · have hlt : k < k' := by
            by_contra hle
            exact hnot (hreach.1.mono (by omega))
          exact absurd (huser k hlt).1 hnotUser
        · exact hret

/-! ## The loops -/

/-- `KGetKaddr` at a page address. -/
theorem kGetKaddr_page {σ : MemState} {pagetable va : Nat} (hal : pagetable % 4096 = 0)
    (hva : va % 4096 = 0) :
    (Looked σ.mem pagetable va ∧ kGetKaddr pagetable va σ = .ok (frame σ.mem pagetable va) σ) ∨
    (¬ Looked σ.mem pagetable va ∧ ∃ msg, kGetKaddr pagetable va σ = .fault (.panic msg) σ) := by
  by_cases hbelow : va < maxva
  · have hwalk := walk_lookup hal va hbelow (σ := σ)
    by_cases hfound : pteAddr σ.mem pagetable va = 0
    · refine Or.inr ⟨fun h => h.found hfound, "kernel virtual address", ?_⟩
      unfold kGetKaddr
      rw [bind_ok hwalk]
      simp [hfound]
    · have hword := readWord_pteAddr hfound
      by_cases hentry : pteOf σ.mem pagetable va = 0
      · refine Or.inr ⟨fun h => h.entry hentry, "Invalid Page Entry", ?_⟩
        unfold kGetKaddr
        rw [bind_ok hwalk]
        simp [hfound, hword, hentry]
      · refine Or.inl ⟨⟨hbelow, hfound, hentry⟩, ?_⟩
        have hoff : u64 (va % pgsize + pte2page (pteOf σ.mem pagetable va)) =
            frame σ.mem pagetable va := by
          rw [hva, Nat.zero_add, frame, pte2page, u64, u64, Nat.mod_mod]
        unfold kGetKaddr
        rw [bind_ok hwalk]
        simp [hfound, hword, hentry, hoff]
  · refine Or.inr ⟨fun h => hbelow h.below, "get pagetable entry", ?_⟩
    unfold kGetKaddr
    rw [bind_apply]
    simp [walk, Nat.le_of_not_lt hbelow]

/-- The state of a run that has gone through the first `k` pages: the table is as it was. -/
structure ScanAt (m : Mem) (pagetable va len k : Nat) (s : MemState) : Prop extends
    Scanned m pagetable va len k s where
  table : TableSame m s.mem pagetable

theorem TableSame.looked {m m' : Mem} {pagetable : Nat} (h : TableSame m m' pagetable)
    (v : Nat) : Looked m' pagetable v ↔ Looked m pagetable v := by
  constructor <;> rintro ⟨h1, h2, h3⟩
  · exact ⟨h1, h.pteAddr v ▸ h2, h.pteOf v ▸ h3⟩
  · exact ⟨h1, (h.pteAddr v).symm ▸ h2, (h.pteOf v).symm ▸ h3⟩

theorem scanAt_zero {σ : MemState} {pagetable va len : Nat} (hlog : σ.accessed = []) :
    ScanAt σ.mem pagetable va len 0 σ := by
  refine ⟨⟨fun j hj => absurd hj (Nat.not_lt_zero j), fun v => ?_⟩, fun _ _ _ _ _ => rfl⟩
  rw [hlog]
  constructor
  · intro hv
    cases hv
  · rintro ⟨j, hj, _⟩
    exact absurd hj (Nat.not_lt_zero j)

/-- Going through the `k`-th page. -/
theorem ScanAt.succ {m : Mem} {pagetable va len k : Nat} {s s' : MemState}
    (hs : ScanAt m pagetable va len k s) (hneeded : Needed va len k)
    (hpassed : Passed m pagetable (pageAt va k))
    (hlog : s'.accessed = pageAt va k :: s.accessed) (htable : TableSame m s'.mem pagetable) :
    ScanAt m pagetable va len (k + 1) s' := by
  refine ⟨⟨fun j hj => ?_, fun v => ?_⟩, htable⟩
  · rcases Nat.lt_succ_iff_lt_or_eq.mp hj with hlt | rfl
    · exact hs.before j hlt
    · exact ⟨hneeded, hpassed⟩
  · rw [hlog, List.mem_cons, hs.log]
    constructor
    · rintro (rfl | ⟨j, hj, rfl⟩)
      · exact ⟨k, Nat.lt_succ_self k, rfl⟩
      · exact ⟨j, by omega, rfl⟩
    · rintro ⟨j, hj, rfl⟩
      rcases Nat.lt_succ_iff_lt_or_eq.mp hj with hlt | rfl
      · exact Or.inr ⟨j, hlt, rfl⟩
      · exact Or.inl rfl

/-- A loop over the pages of the range: `At k` is its invariant before the `k`-th page. -/
structure ScanLoop {ι α : Type} (m : Mem) (pagetable va len : Nat) (ret : α → Int)
    (body : ι → MemComp (ι ⊕ α)) (At : Nat → ι → MemState → Prop) : Prop where
  scanned : ∀ {k i s}, At k i s → ScanAt m pagetable va len k s
  stop : ∀ {k i s}, At k i s → ¬ Needed va len k → ∃ a, body i s = .ok (.inr a) s
  step : ∀ {k i s}, At k i s → Needed va len k → ∃ (a : α) (next : Nat → MemComp (ι ⊕ α)),
    body i s = (kGetKaddr pagetable (pageAt va k) >>= fun paddr0 =>
      if paddr0 = 0 then pure (.inr a) else next paddr0) s ∧ ret a = -1 ∧
    (Passed m pagetable (pageAt va k) → ∃ i' s',
      next (frame m pagetable (pageAt va k)) s = .ok (.inl i') s' ∧ At (k + 1) i' s')

/-- All pages that are gone through lie below `MAXVA`. -/
private theorem ScanAt.rounds {m : Mem} {pagetable va len k : Nat} {s : MemState}
    (hs : ScanAt m pagetable va len k s) : k ≤ 2 ^ 26 := by
  cases k with
  | zero => exact Nat.zero_le _
  | succ k =>
    have hbelow := (hs.before k (Nat.lt_succ_self k)).2.1.below
    rw [maxva_eq, pageAt] at hbelow
    omega

/-- Such a loop goes page by page until the range or the pages that it may use end. -/
theorem ScanLoop.scanEnd {ι α : Type} {m : Mem} {pagetable va len : Nat} {ret : α → Int}
    {body : ι → MemComp (ι ⊕ α)} {At : Nat → ι → MemState → Prop}
    (hal : pagetable % 4096 = 0) (hloop : ScanLoop m pagetable va len ret body At) :
    ∀ (n k : Nat) (i : ι) (s : MemState), At k i s → 2 ^ 26 < n + k →
      ScanEnd m pagetable va len ret (loop body n i s) := by
  intro n
  induction n with
  | zero =>
    intro k i s hat hn
    have := (hloop.scanned hat).rounds
    omega
  | succ n ih =>
    intro k i s hat hn
    have hs := hloop.scanned hat
    by_cases hneeded : Needed va len k
    · obtain ⟨a, next, hbody, hret, hnext⟩ := hloop.step hat hneeded
      have hpage : pageAt va k % 4096 = 0 := Nat.mul_mod_left _ _
      have hcongr := hs.table.looked (pageAt va k)
      rcases kGetKaddr_page (σ := s) hal hpage with ⟨hlooked, hrun⟩ | ⟨hnot, msg, hrun⟩
      · rw [bind_ok hrun, frame, hs.table.pteOf] at hbody
        by_cases h0 : frame m pagetable (pageAt va k) = 0
        · rw [frame] at h0
          rw [h0, if_pos rfl] at hbody
          rw [loop_done hbody]
          exact ⟨k, hs.toScanned, Or.inr ⟨hneeded, ⟨hcongr.mp hlooked, h0⟩, hret⟩⟩
        · obtain ⟨i', s', hrun', hat'⟩ := hnext ⟨hcongr.mp hlooked, h0⟩
          rw [frame] at h0 hrun'
          rw [if_neg h0, hrun'] at hbody
          rw [loop_again hbody]
          exact ih (k + 1) i' s' hat' (by omega)
      · rw [bind_fault hrun] at hbody
        rw [loop_fault hbody]
        exact ⟨k, hs.toScanned, hneeded, fun h => hnot (hcongr.mpr h)⟩
    · obtain ⟨a, hbody⟩ := hloop.stop hat hneeded
      rw [loop_done hbody]
      exact ⟨k, hs.toScanned, Or.inl hneeded⟩

section Loops
variable {pagetable va len k : Nat}

private theorem posAt_zero : posAt va 0 = va := by
  simp only [posAt, pageAt]
  omega

private theorem pgrounddown_posAt (h : posAt va k < 2 ^ 64) :
    pgrounddown (posAt va k) = pageAt va k := by
  rw [pgrounddown_eq h]
  simp only [posAt, pageAt]
  omega

/-- The next page starts where the bytes of the present one end. -/
private theorem next_page {m : Mem} (h : Passed m pagetable (pageAt va k)) :
    u64 (pageAt va k + pgsize) = posAt va (k + 1) ∧ posAt va (k + 1) < 2 ^ 64 := by
  have hbelow := h.1.below
  rw [maxva_eq] at hbelow
  simp only [u64, pgsize, posAt, pageAt] at hbelow ⊢
  omega

private theorem rest_length : va + len - posAt va k -
    min (pgsize - (posAt va k - pageAt va k)) (va + len - posAt va k) =
      va + len - posAt va (k + 1) := by
  simp only [pgsize, posAt, pageAt]
  omega

private theorem rest_pos : 0 < va + len - posAt va k ↔ Needed va len k := by
  simp only [Needed]
  omega

/-- `copyin` goes through the pages of its range. -/
theorem copyin_scanEnd {σ : MemState} (hal : pagetable % 4096 = 0) (hlog : σ.accessed = [])
    (hva : va < 2 ^ 64) :
    ScanEnd σ.mem pagetable va len Prod.fst (copyin pagetable va len σ) := by
  have hloop : ScanLoop σ.mem pagetable va len Prod.fst (copyinRound pagetable)
      (fun k i s => i.1 = posAt va k ∧ i.2.1 = va + len - posAt va k ∧
        posAt va k < 2 ^ 64 ∧ ScanAt σ.mem pagetable va len k s) := by
    constructor
    · rintro k i s ⟨-, -, -, hs⟩
      exact hs
    · rintro k ⟨p, rest, dst⟩ s ⟨-, hrest, -, -⟩ hnot
      rw [← rest_pos, ← hrest] at hnot
      exact ⟨(0, dst), by simp only [copyinRound, hnot, not_false_eq_true, if_true, pure_apply]⟩
    · rintro k ⟨p, rest, dst⟩ s ⟨hp, hrest, hlt, hs⟩ hneeded
      obtain rfl : p = posAt va k := hp
      obtain rfl : rest = va + len - posAt va k := hrest
      have hpos := rest_pos.mpr hneeded
      have hpage := pgrounddown_posAt hlt
      refine ⟨(-1, dst), copyinPage (posAt va k) (va + len - posAt va k) dst, ?_, rfl,
        fun hpassed => ?_⟩
      · simp only [copyinRound, hpos, not_true_eq_false, if_false, hpage]
      · obtain ⟨hnext, hlt'⟩ := next_page hpassed
        refine ⟨_, _, rfl, ?_, ?_, hlt', hs.succ hneeded hpassed ?_ hs.table⟩ <;>
          rw [hpage]
        · exact hnext
        · exact rest_length
  refine hloop.scanEnd hal pageRounds 0 _ σ ⟨?_, ?_, ?_, scanAt_zero hlog⟩ (by decide)
  · rw [posAt_zero]
  · rw [posAt_zero, Nat.add_sub_cancel_left]
  · rw [posAt_zero]
    exact hva

/-- No frame that the table maps is a page of the table itself. -/
def FramesApart (m : Mem) (pagetable : Nat) : Prop :=
  ∀ v, Passed m pagetable v → NotInTable m pagetable (frame m pagetable v)

/-- `copyout` goes through the pages of its range. -/
theorem copyout_scanEnd {σ : MemState} (hal : pagetable % 4096 = 0) (hlog : σ.accessed = [])
    (hapart : FramesApart σ.mem pagetable) (hva : va < 2 ^ 64) (src : List UInt8) :
    ScanEnd σ.mem pagetable va src.length id (copyout pagetable va src σ) := by
  have hloop : ScanLoop σ.mem pagetable va src.length id (copyoutRound pagetable)
      (fun k i s => i.1 = posAt va k ∧ i.2.length = va + src.length - posAt va k ∧
        posAt va k < 2 ^ 64 ∧ ScanAt σ.mem pagetable va src.length k s) := by
    constructor
    · rintro k i s ⟨-, -, -, hs⟩
      exact hs
    · rintro k ⟨p, rest⟩ s ⟨-, hrest, -, -⟩ hnot
      rw [← rest_pos, ← hrest] at hnot
      exact ⟨0, by simp only [copyoutRound, hnot, not_false_eq_true, if_true, pure_apply]⟩
    · rintro k ⟨p, rest⟩ s ⟨hp, hrest, hlt, hs⟩ hneeded
      obtain rfl : p = posAt va k := hp
      have hpos : 0 < rest.length := by
        rw [hrest]
        exact rest_pos.mpr hneeded
      have hpage := pgrounddown_posAt hlt
      refine ⟨-1, copyoutPage (posAt va k) rest, ?_, rfl, fun hpassed => ?_⟩
      · simp only [copyoutRound, hpos, not_true_eq_false, if_false, hpage]
      · obtain ⟨hnext, hlt'⟩ := next_page hpassed
        have hwithin : posAt va k - pageAt va k < 4096 := by
          simp only [posAt, pageAt]
          omega
        refine ⟨_, _, rfl, ?_, ?_, hlt', hs.succ hneeded hpassed ?_ ?_⟩ <;> rw [hpage]
        · exact hnext
        · rw [List.length_drop, hrest]
          exact rest_length
        · refine hs.table.change (pte2page_aligned _) (hapart _ hpassed) fun b hb => ?_
          apply store_apply_of_outside
          rw [List.length_take]
          simp only [frame, pgsize] at hb ⊢
          omega
  refine hloop.scanEnd hal pageRounds 0 _ σ ⟨?_, ?_, ?_, scanAt_zero hlog⟩ (by decide)
  · rw [posAt_zero]
  · rw [posAt_zero, Nat.add_sub_cancel_left]
  · rw [posAt_zero]
    exact hva

/-! ### Strings -/

/-- The byte that the table puts at the user address `v`. -/
def userByte (m : Mem) (pagetable v : Nat) : UInt8 :=
  m (frame m pagetable v + v % 4096)

/-- How many of the `max` bytes from `va` a string takes up, its `NUL` included. -/
def strExtent (m : Mem) (pagetable : Nat) : Nat → Nat → Nat
  | _, 0 => 0
  | va, max + 1 =>
    if userByte m pagetable va = 0 then 1 else strExtent m pagetable (va + 1) max + 1

theorem lt_strExtent (m : Mem) (pagetable va max i : Nat) :
    i < strExtent m pagetable va max ↔
      i < max ∧ ∀ j, j < i → userByte m pagetable (va + j) ≠ 0 := by
  induction max generalizing va i with
  | zero => simp [strExtent]
  | succ max ih =>
    cases i with
    | zero =>
      by_cases h0 : userByte m pagetable va = 0 <;> simp [strExtent, h0]
    | succ i =>
      by_cases h0 : userByte m pagetable va = 0
      · rw [strExtent, if_pos h0]
        constructor
        · intro h
          omega
        · rintro ⟨_, hall⟩
          exact absurd h0 (hall 0 (Nat.succ_pos i))
      · rw [strExtent, if_neg h0, Nat.succ_lt_succ_iff, Nat.succ_lt_succ_iff, ih]
        refine and_congr_right fun _ => ⟨fun hall j hj => ?_, fun hall j hj => ?_⟩
        · cases j with
          | zero => exact h0
          | succ j =>
            have := hall j (by omega)
            rwa [Nat.add_right_comm] at this
        · have := hall (j + 1) (by omega)
          rwa [Nat.add_right_comm]

theorem scanString_spec (m : Mem) (p n : Nat) :
    ((scanString m p n).2 = true ∧ ∃ i, i < n ∧ m (p + i) = 0) ∨
    ((scanString m p n).2 = false ∧ (scanString m p n).1.length = n ∧
      ∀ i, i < n → m (p + i) ≠ 0) := by
  induction n generalizing p with
  | zero => exact Or.inr ⟨rfl, rfl, fun i hi => absurd hi (Nat.not_lt_zero i)⟩
  | succ n ih =>
    by_cases h0 : m p = 0
    · exact Or.inl ⟨by rw [scanString, if_pos h0], 0, Nat.succ_pos n, h0⟩
    · rw [scanString, if_neg h0]
      rcases ih (p + 1) with ⟨hfound, i, hi, hz⟩ | ⟨hfound, hlen, hall⟩
      · exact Or.inl ⟨hfound, i + 1, by omega, by rwa [Nat.add_right_comm] at hz⟩
      · refine Or.inr ⟨hfound, by rw [List.length_cons, hlen], fun i hi => ?_⟩
        cases i with
        | zero => exact h0
        | succ i =>
          have := hall i (by omega)
          rwa [Nat.add_right_comm] at this

/-- The bytes of a string that `copyinstr` has copied so far hold no `NUL`. -/
private theorem needed_strExtent {m : Mem} {max : Nat} :
    Needed va (strExtent m pagetable va max) k ↔
      Needed va max k ∧ ∀ v, va ≤ v → v < posAt va k → userByte m pagetable v ≠ 0 := by
  have hge : va ≤ posAt va k := le_max_left ..
  have hsub : ∀ len, Needed va len k ↔ posAt va k - va < len := by
    intro len
    simp only [Needed]
    omega
  rw [hsub, hsub, lt_strExtent]
  refine and_congr_right fun _ => ⟨fun hall v h1 h2 => ?_, fun hall j hj => ?_⟩
  · have := hall (v - va) (by omega)
    rwa [Nat.add_sub_cancel' h1] at this
  · exact hall (va + j) (by omega) (by omega)

/-- Within a page the table puts successive bytes next to each other. -/
private theorem userByte_posAt {m : Mem} {i : Nat} (h : posAt va k - pageAt va k + i < 4096) :
    userByte m pagetable (posAt va k + i) =
      m (frame m pagetable (pageAt va k) + (posAt va k - pageAt va k) + i) := by
  have hdiv : (posAt va k + i) / 4096 * 4096 = pageAt va k := by
    simp only [posAt, pageAt] at h ⊢
    omega
  have hmod : (posAt va k + i) % 4096 = posAt va k - pageAt va k + i := by
    simp only [posAt, pageAt] at h ⊢
    omega
  rw [userByte, hmod, frame, ← pteOf_page, hdiv, Nat.add_assoc, frame]

/-- `copyinstr` goes through the pages of its string. -/
theorem copyinstr_scanEnd {σ : MemState} (hal : pagetable % 4096 = 0) (hlog : σ.accessed = [])
    (hva : va < 2 ^ 64) (max : Nat) :
    ScanEnd σ.mem pagetable va (strExtent σ.mem pagetable va max) Prod.fst
      (copyinstr pagetable va max σ) := by
  have hloop : ScanLoop σ.mem pagetable va (strExtent σ.mem pagetable va max) Prod.fst
      (copyinstrRound pagetable)
      (fun k i s => i.1 = posAt va k ∧ posAt va k < 2 ^ 64 ∧
        (i.2.2.1 = false → i.2.1 = va + max - posAt va k ∧
          ∀ v, va ≤ v → v < posAt va k → v < va + max → userByte σ.mem pagetable v ≠ 0) ∧
        (i.2.2.1 = true → ¬ Needed va (strExtent σ.mem pagetable va max) k) ∧
        ScanAt σ.mem pagetable va (strExtent σ.mem pagetable va max) k s ∧ s.mem = σ.mem) := by
    constructor
    · rintro k i s ⟨-, -, -, -, hs, -⟩
      exact hs
    · rintro k ⟨p, rest, got_null, dst⟩ s ⟨-, -, hfalse, -, -, -⟩ hnot
      have hstop : ¬ (got_null = false ∧ 0 < rest) := by
        rintro ⟨hgot, hpos⟩
        obtain ⟨hrest, hall⟩ := hfalse hgot
        obtain rfl : rest = va + max - posAt va k := hrest
        have hmax := rest_pos.mp hpos
        refine hnot (needed_strExtent.mpr ⟨hmax, fun v h1 h2 => hall v h1 h2 ?_⟩)
        exact h2.trans hmax
      exact ⟨(if got_null then 0 else -1, dst), by
        simp only [copyinstrRound, hstop, not_false_eq_true, if_true, pure_apply]⟩
    · rintro k ⟨p, rest, got_null, dst⟩ s ⟨hp, hlt, hfalse, htrue, hs, hmem⟩ hneeded
      obtain rfl : p = posAt va k := hp
      have hgot : got_null = false := by
        cases got_null with
        | false => rfl
        | true => exact absurd hneeded (htrue rfl)
      obtain ⟨hrest, hall⟩ := hfalse hgot
      obtain rfl : rest = va + max - posAt va k := hrest
      have hmax : Needed va max k := (needed_strExtent.mp hneeded).1
      have hgo : got_null = false ∧ 0 < va + max - posAt va k := ⟨hgot, rest_pos.mpr hmax⟩
      have hpage := pgrounddown_posAt hlt
      refine ⟨(-1, dst), copyinstrPage (posAt va k) (va + max - posAt va k) dst, ?_, rfl,
        fun hpassed => ?_⟩
      · simp only [copyinstrRound, hgo, and_self, not_true_eq_false, if_false, hpage]
      · obtain ⟨hnext, hlt'⟩ := next_page hpassed
        have hbytes : ∀ i, i < min (pgsize - (posAt va k - pageAt va k)) (va + max - posAt va k) →
            userByte σ.mem pagetable (posAt va k + i) =
              s.mem (frame σ.mem pagetable (pageAt va k) + (posAt va k - pageAt va k) + i) := by
          intro i hi
          rw [hmem]
          exact userByte_posAt (by simp only [pgsize] at hi; omega)
        have hspec := scanString_spec s.mem
          (frame σ.mem pagetable (pageAt va k) + (posAt va k - pageAt va k))
          (min (pgsize - (posAt va k - pageAt va k)) (va + max - posAt va k))
        refine ⟨_, _, rfl, ?_, hlt', ?_, ?_, hs.succ hneeded hpassed ?_ hs.table, hmem⟩ <;>
          rw [hpage]
        · exact hnext
        · intro hnone
          rcases hspec with ⟨hfound, _⟩ | ⟨_, hlen, hnz⟩
          · exact absurd (hfound.symm.trans hnone) (by decide)
          · refine ⟨?_, fun v h1 h2 h3 => ?_⟩
            · simp only [hlen]
              exact rest_length
            · by_cases hold : v < posAt va k
              · exact hall v h1 hold h3
              · obtain ⟨i, rfl⟩ := Nat.exists_eq_add_of_le (Nat.le_of_not_lt hold)
                have hi : i < min (pgsize - (posAt va k - pageAt va k))
                    (va + max - posAt va k) := by
                  simp only [pgsize, posAt, pageAt] at h2 h3 ⊢
                  omega
                rw [hbytes i hi]
                exact hnz i hi
        · intro hsome hnext'
          rcases hspec with ⟨_, i, hi, hz⟩ | ⟨hfound, _⟩
          · rw [← hbytes i hi] at hz
            refine (needed_strExtent.mp hnext').2 (posAt va k + i) ?_ ?_ hz
            · exact le_add_right (le_max_left ..)
            · simp only [pgsize, posAt, pageAt] at hi ⊢
              omega
          · exact absurd (hfound.symm.trans hsome) (by decide)
  refine hloop.scanEnd hal pageRounds 0 _ σ ⟨?_, ?_, ?_, ?_, scanAt_zero hlog, rfl⟩ (by decide)
  · rw [posAt_zero]
  · rw [posAt_zero]
    exact hva
  · intro _
    rw [posAt_zero]
    exact ⟨(Nat.add_sub_cancel_left va max).symm, fun v h1 h2 _ => absurd h2 (by omega)⟩
  · intro h
    cases h

end Loops

/-- The three functions keep user pointers isolated just on the ranges whose pages are,
as far as they are reached, user pages or entries that `KGetKaddr` returns `0` for. A
string's range ends with its `NUL`; for `copyout` no frame is a page of the table. -/
theorem user_copies_isolated_iff {σ : MemState} {pagetable : Nat} (hal : pagetable % 4096 = 0)
    (hlog : σ.accessed = []) :
    (∀ va len, va < 2 ^ 64 →
      (Isolated σ.mem pagetable va len Prod.fst (copyin pagetable va len σ) ↔
        Guarded σ.mem pagetable va len)) ∧
    (∀ va (src : List UInt8), va < 2 ^ 64 → FramesApart σ.mem pagetable →
      (Isolated σ.mem pagetable va src.length id (copyout pagetable va src σ) ↔
        Guarded σ.mem pagetable va src.length)) ∧
    (∀ va max, va < 2 ^ 64 →
      (Isolated σ.mem pagetable va (strExtent σ.mem pagetable va max) Prod.fst
          (copyinstr pagetable va max σ) ↔
        Guarded σ.mem pagetable va (strExtent σ.mem pagetable va max))) := by
  refine ⟨fun va len hva => ?_, fun va src hva hapart => ?_, fun va max hva => ?_⟩
  · exact isolated_iff_guarded (copyin_scanEnd hal hlog hva)
  · exact isolated_iff_guarded (copyout_scanEnd hal hlog hapart hva src)
  · exact isolated_iff_guarded (copyinstr_scanEnd hal hlog hva max)

theorem user_copies_isolated_iff_empty :
    Isolated smallMachine.mem 0x80400000 0 1 Prod.fst (copyin 0x80400000 0 1 smallMachine) ↔
      Guarded smallMachine.mem 0x80400000 0 1 :=
  (user_copies_isolated_iff (by decide) rfl).1 0 1 (by decide)

/-- A user pointer at `MAXVA` panics the kernel. -/
theorem copyin_maxva_panics : ¬ ∀ (σ : MemState) (pagetable va len : Nat),
    pagetable % 4096 = 0 → σ.accessed = [] → va < 2 ^ 64 →
      Isolated σ.mem pagetable va len Prod.fst (copyin pagetable va len σ) := by
  intro hall
  have hiso := hall smallMachine 0x80400000 maxva 1 (by decide) rfl (by decide)
  have hend : ScanEnd smallMachine.mem 0x80400000 maxva 1 Prod.fst
      (copyin 0x80400000 maxva 1 smallMachine) :=
    copyin_scanEnd (by decide) rfl (by decide)
  have hneeded : Needed maxva 1 0 := by
    unfold Needed
    decide
  have hguard := (isolated_iff_guarded hend).mp hiso 0
    ⟨hneeded, fun j hj => absurd hj (Nat.not_lt_zero j)⟩
  have hnot : ¬ pageAt maxva 0 < maxva := by decide
  rcases hguard with huser | hrefused
  · exact hnot huser.below
  · exact hnot hrefused.1.below

end PageFaultOS
