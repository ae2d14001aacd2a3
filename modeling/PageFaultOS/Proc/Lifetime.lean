import Mathlib.Tactic
import PageFaultOS.Lib.Run
import PageFaultOS.Mm.Freewalk
import PageFaultOS.Mm.NullTable
import PageFaultOS.Proc.Sched

/-! The pages of a process, from `allocproc` to `freeproc`: what `fork`, `clone`,
`growproc`, `exit` and the reaping of `proc/proc.cpp` take from the free list and give
back to it. The calls are atomic, and the fields that have to do with no page are left out. -/

namespace PageFaultOS
open Exec Exec.Comp ByteMem

structure PageProc where
  state : ProcState
  trapframe : Nat
  pagetable : Nat
  kpagetable : Nat
  sz : Nat
  deriving DecidableEq

structure PageWorld where
  mem : MemState
  procTable : Nat → PageProc
  /-- The linker's `trampoline`. -/
  trampolineCode : Nat

abbrev PageComp := Comp PageWorld

def onMem {α : Type} (x : MemComp α) : PageComp α := fun w =>
  match x w.mem with
  | .ok a σ => .ok a { w with mem := σ }
  | .fault f σ => .fault f { w with mem := σ }

def PageWorld.withProc (w : PageWorld) (p : Nat) (f : PageProc → PageProc) : PageWorld :=
  { w with procTable := Function.update w.procTable p (f (w.procTable p)) }

def setPageProc (p : Nat) (f : PageProc → PageProc) : PageComp Unit :=
  modify fun w => w.withProc p f

def trapframeBytes : Nat := 288
def trapframeSp : Nat := 48
def trapframeA0 : Nat := 112

/-- The calls of `MapPages` hand over `PGSIZE` as the physical address. -/
def procPagetable (code frame : Nat) : MemComp Nat := do
  let pagetable ← uvmcreate
  if pagetable = 0 then pure 0
  else do
    let r ← mapPages pagetable trampoline pgsize code (pteR ||| pteX)
    if r < 0 then do
      uvmfree pagetable 0
      pure 0
    else do
      let r ← mapPages pagetable trapframe pgsize frame (pteR ||| pteW)
      if r < 0 then do
        vmunmap pagetable trampoline 1 false
        uvmfree pagetable 0
        pure 0
      else pure pagetable

/-- The loop tests the address of another array, `proc`, so without an unused entry it runs
behind the end of the table. The result of `proc_pagetable` is not tested. -/
def allocproc : PageComp (Option Nat) := do
  let w ← read
  match (List.range NPROC).find? fun p => p ≠ 0 ∧ (w.procTable p).state = .unused with
  | none => fault (.undefined "procTable")
  | some p => do
    let frame ← onMem kalloc
    setPageProc p fun q => { q with trapframe := frame }
    if frame = 0 then pure none
    else do
      let pagetable ← onMem (procPagetable w.trampolineCode frame)
      setPageProc p fun q => { q with pagetable := pagetable }
      onMem (memset frame 0 trapframeBytes)
      pure (some p)

/-- What `fork` and `clone` share: the copy of the memory and of the registers. `none` where
they return `-1`. -/
def copyProc (p : Nat) : PageComp (Option Nat) := do
  match ← allocproc with
  | none => pure none
  | some c => do
    let w ← read
    let parent := w.procTable p
    let child := w.procTable c
    let r ← onMem (uvmcopyAt parent.pagetable child.pagetable child.kpagetable parent.sz)
    if r < 0 then pure none
    else do
      setPageProc c fun q => { q with sz := parent.sz }
      onMem (memmove child.trapframe parent.trapframe trapframeBytes)
      onMem (setWord (child.trapframe + trapframeA0) 0)
      pure (some c)

namespace PageWorld

def fork (p : Nat) : PageComp Int := do
  match ← copyProc p with
  | none => pure (-1)
  | some c => do
    setPageProc c fun q => { q with state := .runnable }
    pure c

def clone (p stack : Nat) : PageComp Int := do
  match ← copyProc p with
  | none => pure (-1)
  | some c => do
    let w ← read
    onMem (setWord ((w.procTable c).trapframe + trapframeSp) stack)
    setPageProc c fun q => { q with state := .runnable }
    pure c

/-- `sz` is a `uint`. -/
def growproc (p : Nat) (n : Int) : PageComp Int := do
  let w ← read
  let q := w.procTable p
  let sz := q.sz % 2 ^ 32
  let newsize := ((sz + n) % 2 ^ 32).toNat
  if 0 < n then do
    let r ← onMem (uvmallocAt q.pagetable q.kpagetable sz newsize)
    if r % 2 ^ 32 = 0 then pure (-1)
    else do
      setPageProc p fun q => { q with sz := r % 2 ^ 32 }
      pure 0
  else if n < 0 then do
    let r ← onMem (uvmDeallocAt q.pagetable q.kpagetable sz newsize)
    setPageProc p fun q => { q with sz := r % 2 ^ 32 }
    pure 0
  else do
    setPageProc p fun q => { q with sz := sz }
    pure 0

/-- `vmas` are the addresses and lengths of the mappings that `exit` unmaps. -/
def exit (p : Nat) (vmas : List (Nat × Nat)) : PageComp Unit := do
  forEach vmas fun (addr, length) => do
    let w ← read
    onMem (vmunmapAt (w.procTable p).pagetable addr (pgroundup length / pgsize) false)
  setPageProc p fun q => { q with state := .zombie }

end PageWorld

def freeProcPagetable (pagetable sz : Nat) : MemComp Unit := do
  vmunmap pagetable trampoline 1 false
  vmunmap pagetable trapframe 1 false
  uvmfree pagetable sz

def freeproc (p : Nat) : PageComp Unit := do
  let w ← read
  let q := w.procTable p
  if q.trapframe ≠ 0 then onMem (kfree q.trapframe)
  setPageProc p fun q => { q with trapframe := 0 }
  if q.pagetable ≠ 0 then onMem (freeProcPagetable q.pagetable q.sz)
  setPageProc p fun q => { q with pagetable := 0, sz := 0, state := .unused }

/-! ## Failing calls and lifetimes -/

inductive ForkCall where
  | fork (p : Nat)
  | clone (p stack : Nat)
  deriving DecidableEq, Repr

def ForkCall.run : ForkCall → PageComp Int
  | .fork p => PageWorld.fork p
  | .clone p stack => PageWorld.clone p stack

/-- What happens to a process between the `fork` or `clone` that makes it and its reaping:
it grows and shrinks, somebody writes to a page that is not free, it exits, and `wait` or
`wait4` reap it. -/
inductive LifeAction where
  | growproc (n : Int)
  | store (a : Nat) (b : UInt8)
  | exit (vmas : List (Nat × Nat))
  | reap

def LifeStep (c : Nat) (w : PageWorld) : LifeAction → PageWorld → Prop
  | .growproc n, w' => (w.procTable c).state ≠ .unused ∧ (w.procTable c).state ≠ .zombie ∧
      ∃ r, PageWorld.growproc c n w = .ok r w'
  | .store a b, w' => ¬ OnFreeList w.mem (a / 4096 * 4096) ∧
      w' = { w with mem := { w.mem with mem := Function.update w.mem.mem a b } }
  | .exit vmas, w' => (w.procTable c).state ≠ .unused ∧ (w.procTable c).state ≠ .zombie ∧
      PageWorld.exit c vmas w = .ok () w'
  | .reap, w' => (w.procTable c).state = .zombie ∧ freeproc c w = .ok () w'

/-- A call that returns `-1`. -/
def FailedCall (call : ForkCall) (w w' : PageWorld) : Prop :=
  ∃ r, r < 0 ∧ call.run w = .ok r w'

/-- A run from the call that makes process `c` to its reaping. -/
def Lifetime (call : ForkCall) (c : Nat) (w w' : PageWorld) : Prop :=
  Run.Reach (fun v => call.run w = .ok (c : Int) v) (LifeStep c) Run.anyStep w' ∧
    (w'.procTable c).state = .unused

/-- The free list holds the pages that it held, and the entries are in the states they were
in. -/
def PagesBack (w w' : PageWorld) : Prop :=
  (∀ page, OnFreeList w'.mem page ↔ OnFreeList w.mem page) ∧
    ∀ p, (w'.procTable p).state = (w.procTable p).state

/-! ## The page table that `allocproc` makes -/

theorem onMem_eq_ok {α : Type} {x : MemComp α} {w w' : PageWorld} {a : α}
    (h : onMem x w = .ok a w') : ∃ σ, x w.mem = .ok a σ ∧ w' = { w with mem := σ } := by
  unfold onMem at h
  cases hx : x w.mem with
  | ok b σ =>
    rw [hx] at h
    cases h
    exact ⟨σ, rfl, rfl⟩
  | fault e σ =>
    rw [hx] at h
    cases h

theorem onMem_bind_eq_ok {α β : Type} {x : MemComp α} {k : α → PageComp β} {w w' : PageWorld}
    {b : β} (h : (onMem x >>= k) w = .ok b w') :
    ∃ a σ, x w.mem = .ok a σ ∧ k a { w with mem := σ } = .ok b w' := by
  obtain ⟨a, v, hx, hk⟩ := bind_eq_ok.mp h
  obtain ⟨σ, hmem, rfl⟩ := onMem_eq_ok hx
  exact ⟨a, σ, hmem, hk⟩

section Boot
variable {σ σ' : MemState} {l : List Nat} {root : Nat}

private theorem trampoline_eq : trampoline = 2 ^ 38 - 4096 := by decide

/-- With the tables for its first page, a `MapPages` of more than a page at `TRAMPOLINE` goes
on to a page that is out of range. -/
private theorem mapPages_trampoline_stops {τ : MemState} {pn code perm : Nat}
    (hcode : 4096 < code ∧ code ≤ phystop)
    (hwalk : walk root trampoline true σ = .ok (pn + 8 * px 0 trampoline) τ)
    (hempty : readWord τ.mem (pn + 8 * px 0 trampoline) = 0) (hpn : pn ≠ 0) {r : Int} :
    mapPages root trampoline pgsize code perm σ ≠ .ok r σ' := by
  have hlast : pgrounddown (u64 (trampoline + code + (2 ^ 64 - 1))) ≠ trampoline := by
    have hsum : u64 (trampoline + code + (2 ^ 64 - 1)) = trampoline + code - 1 := by
      have h1 := trampoline_eq
      have h2 : phystop = 0x80600000 := rfl
      simp only [u64]
      omega
    rw [hsum, pgrounddown_eq (by
      have h1 := trampoline_eq
      have h2 : phystop = 0x80600000 := rfl
      omega)]
    have h1 := trampoline_eq
    omega
  have hdown : pgrounddown trampoline = trampoline := by decide
  have hnext : u64 (trampoline + pgsize) = maxva := by decide
  have hpte : pn + 8 * px 0 trampoline ≠ 0 := fun h => hpn (Nat.eq_zero_of_add_eq_zero_right h)
  have hround : ∀ last, last ≠ trampoline → mapPagesRound root last perm (trampoline, pgsize) σ =
      .ok (.inl (maxva, u64 (pgsize + pgsize)))
        { τ with
          mem := writeWord τ.mem (pn + 8 * px 0 trampoline) (page2pte pgsize ||| perm ||| pteV) } := by
    intro last hne
    unfold mapPagesRound
    simp only
    rw [bind_ok hwalk, if_neg hpte, read_bind, if_neg (not_not_intro hempty)]
    simp only [setWord, modify_bind]
    rw [if_neg (Ne.symm hne), hnext]
    rfl
  have hstop : ∀ (last p : Nat) (τ : MemState), mapPagesRound root last perm (maxva, p) τ =
      .fault (.panic "get pagetable entry") τ := by
    intro last p τ
    unfold mapPagesRound walk
    simp only [le_refl, if_true]
    rfl
  unfold mapPages
  simp only [hdown]
  obtain ⟨n, hn⟩ : ∃ n, 2 ^ 52 = n + 1 := ⟨2 ^ 52 - 1, by omega⟩
  rw [pageRounds, loop_again (hround _ hlast), hn, loop_fault (hstop _ _ _)]
  exact fun h => by cases h

/-- After the page of `trampoline` the next one is out of range: `MapPages` of more than a
page there returns only where it finds no page for a table. -/
theorem mapPages_trampoline (h : FreeList σ l) (hroot : TakenPage σ l root)
    (hzero : ∀ i, slots σ.mem (root / 4096) i = 0) {code perm : Nat}
    (hcode : 4096 < code ∧ code ≤ phystop) {r : Int}
    (hrun : mapPages root trampoline pgsize code perm σ = .ok r σ') :
    r = -1 ∧ (l = [] ∧ σ' = σ ∨ ∃ q, l = [q] ∧ σ' = linked σ q (root / 4096) 2 trampoline ∧
      FreeList σ' []) := by
  have hbelow : ¬ maxva ≤ trampoline := by decide
  have hrootFar : ∀ p ∈ l, p / 4096 ≠ root / 4096 := by
    intro p hp heq
    have hpa := (h.managed p hp).aligned
    have hra := hroot.managed.aligned
    exact hroot.notFree ((show p = root by omega) ▸ hp)
  have hlevel2 := walkLevel_cases h hrootFar trampoline 2
  rw [page_mul hroot.managed.aligned, hzero] at hlevel2
  -- a `walk` that returns `0` is the end
  have hfirst : ∀ {τ : MemState}, walk root trampoline true σ = .ok 0 τ → r = -1 ∧ σ' = τ := by
    intro τ hwalk
    have hround : mapPagesRound root (pgrounddown (u64 (trampoline + code + (2 ^ 64 - 1)))) perm
        (pgrounddown trampoline, pgsize) σ = .ok (.inr (-1)) τ := by
      have hdown : pgrounddown trampoline = trampoline := by decide
      simp only [mapPagesRound, hdown, bind_ok hwalk, if_true, pure_apply]
    unfold mapPages at hrun
    rw [pageRounds, loop_done hround] at hrun
    cases hrun
    exact ⟨rfl, rfl⟩
  rcases hlevel2 with ⟨hne, _⟩ | ⟨_, rfl, hlevel⟩ | ⟨_, q, l', rfl, hlevel, hfree⟩
  · exact absurd (Nat.zero_and _) hne
  · have hwalk : walk root trampoline true σ = .ok 0 σ := by
      unfold walk
      rw [if_neg hbelow, bind_ok hlevel]
      rfl
    obtain ⟨hr, hσ⟩ := hfirst hwalk
    exact ⟨hr, Or.inl ⟨rfl, hσ⟩⟩
  · have hq := h.managed q List.mem_cons_self
    have hqlt : q < 2 ^ 64 := Nat.lt_of_le_of_lt (by omega) hq.lt
    have hqroot : q / 4096 ≠ root / 4096 := hrootFar q List.mem_cons_self
    have hqzero : ∀ i, slots (linked σ q (root / 4096) 2 trampoline).mem (q / 4096) i = 0 := by
      intro i
      rw [slots_linked σ _ _ _ hq.aligned hqlt, Radix.link,
        Radix.set_other (fun e => absurd e hqroot), Radix.clear_self]
    have hqFar : ∀ p ∈ l', p / 4096 ≠ q / 4096 := by
      intro p hp heq
      have hpa := (hfree.managed p hp).aligned
      have hqa := hq.aligned
      exact (List.nodup_cons.mp h.nodup).1 ((show p = q by omega) ▸ hp)
    have hlevel1 := walkLevel_cases hfree hqFar trampoline 1
    rw [page_mul hq.aligned, hqzero] at hlevel1
    rcases hlevel1 with ⟨hne, _⟩ | ⟨_, rfl, hlevel'⟩ | ⟨_, p, l'', rfl, hlevel', hfree'⟩
    · exact absurd (Nat.zero_and _) hne
    · have hwalk : walk root trampoline true σ = .ok 0 (linked σ q (root / 4096) 2 trampoline) := by
        unfold walk
        rw [if_neg hbelow, bind_ok hlevel]
        exact bind_ok hlevel' _
      obtain ⟨hr, hσ⟩ := hfirst hwalk
      exact ⟨hr, Or.inr ⟨q, rfl, hσ, hσ ▸ hfree⟩⟩
    · exact absurd hrun (mapPages_trampoline_stops hcode (by
        unfold walk
        rw [if_neg hbelow, bind_ok hlevel]
        exact bind_ok hlevel' _) (by
        have hp := hfree.managed p List.mem_cons_self
        have hpq : p / 4096 ≠ q / 4096 := by
          intro heq
          have hpa := hp.aligned
          have hqa := hq.aligned
          exact (List.nodup_cons.mp h.nodup).1 ((show p = q by omega) ▸ List.mem_cons_self)
        have hplt : p < 2 ^ 64 := Nat.lt_of_le_of_lt (by omega) hp.lt
        have hslot := congrFun (congrFun (slots_linked (linked σ q (root / 4096) 2 trampoline)
          (q / 4096) 1 trampoline hp.aligned hplt) (p / 4096)) (idx 0 trampoline)
        rw [Radix.link, Radix.set_other (fun e => absurd e hpq), Radix.clear_self, slots,
          page_mul hp.aligned] at hslot
        exact hslot) hfree.chain.2.1)

theorem uvmcreate_cases (h : FreeList σ l) :
    (l = [] ∧ uvmcreate σ = .ok 0 σ) ∨
    ∃ root l' τ, l = root :: l' ∧ uvmcreate σ = .ok root τ ∧ FreeList τ l' ∧
      TakenPage τ l' root ∧ (∀ i, slots τ.mem (root / 4096) i = 0) ∧
      τ.kernelEnd = σ.kernelEnd := by
  rcases kalloc_taken h with ⟨hl, hrun⟩ | ⟨root, l', hl, hrun, hfree, hroot⟩
  · refine Or.inl ⟨hl, ?_⟩
    unfold uvmcreate
    rw [bind_ok hrun]
    rfl
  · have hzeroed := hroot.write hfree (fill (allocated σ root).mem root pgsize 0)
      fun b hb => fill_apply_of_outside _ _ _ _ _ hb
    refine Or.inr ⟨root, l', _, hl, ?_, hzeroed,
      ⟨hroot.managed, hroot.ne_zero, hroot.notFree⟩, fun i => ?_, rfl⟩
    · unfold uvmcreate
      rw [bind_ok hrun, if_neg hroot.ne_zero]
      rfl
    · have hi := i.isLt
      rw [slots, page_mul hroot.managed.aligned]
      exact readWord_fill_zero _ _ _ _ (Nat.le_add_right ..) (by simp only [pgsize]; omega)

/-- `proc_pagetable` either finds too few pages and gives them back, or does not return. -/
theorem procPagetable_null (h : FreeList σ l) {code frame r : Nat}
    (hcode : 4096 < code ∧ code ≤ phystop) (hrun : procPagetable code frame σ = .ok r σ') :
    r = 0 ∧ σ'.kernelEnd = σ.kernelEnd ∧ ∃ l', FreeList σ' l' ∧ l'.Perm l := by
  rcases uvmcreate_cases h with ⟨_, hcreate⟩ | ⟨root, l', τ, hl, hcreate, hfree, hroot, hzero, hend⟩
  · unfold procPagetable at hrun
    rw [bind_ok hcreate] at hrun
    cases hrun
    exact ⟨rfl, rfl, l, h, List.Perm.refl l⟩
  · unfold procPagetable at hrun
    rw [bind_ok hcreate, if_neg hroot.ne_zero] at hrun
    obtain ⟨x, τ', hmap, hrest⟩ := bind_eq_ok.mp hrun
    obtain ⟨hx, hcases⟩ := mapPages_trampoline hfree hroot hzero hcode hmap
    have hword : ∀ {m : Mem}, (∀ i, slots m (root / 4096) i = 0) →
        ∀ i < 512, readWord m (root + 8 * i) = 0 := by
      intro m hz i hi
      have hslot := hz ⟨i, hi⟩
      rwa [slots, page_mul hroot.managed.aligned] at hslot
    rw [hx, if_pos (by decide)] at hrest
    obtain ⟨_, τ'', hfreed, hrest⟩ := bind_eq_ok.mp hrest
    cases hrest
    obtain ⟨n, hn⟩ : ∃ n, pageRounds = n + 2 := ⟨2 ^ 52 - 1, by rw [pageRounds]; omega⟩
    rw [uvmfree_zero, hn] at hfreed
    rcases hcases with ⟨rfl, rfl⟩ | ⟨q, rfl, rfl, hnone⟩
    · obtain ⟨hfw, hfree'⟩ := freewalk_empty hfree hroot (hword hzero) (n + 1)
      rw [hfw] at hfreed
      cases hfreed
      exact ⟨rfl, hend, [root], hfree', hl ▸ List.Perm.refl _⟩
    · have hq := hfree.managed q List.mem_cons_self
      have hqlt : q < 2 ^ 64 := Nat.lt_of_le_of_lt (by omega) hq.lt
      have hqroot : q ≠ root := fun e => hroot.notFree (e ▸ List.mem_cons_self)
      have hapart : q / 4096 ≠ root / 4096 := by
        have hqa := hq.aligned
        have hra := hroot.managed.aligned
        omega
      have hslots := slots_linked τ (root / 4096) 2 trampoline hq.aligned hqlt
      have hroot' : TakenPage (linked τ q (root / 4096) 2 trampoline) [] root :=
        ⟨hroot.managed, hroot.ne_zero, List.not_mem_nil⟩
      have hq' : TakenPage (linked τ q (root / 4096) 2 trampoline) [] q :=
        ⟨hq, hfree.chain.2.1, List.not_mem_nil⟩
      obtain ⟨σ'', hfw, hfree', hend'⟩ := freewalk_single hnone hroot' (k := px 2 trampoline) hq'
        hqroot (px_lt 2 trampoline) (by
          have hslot := congrFun (congrFun hslots (root / 4096)) (idx 2 trampoline)
          rwa [Radix.link, Radix.set_self, slots, page_mul hroot.managed.aligned] at hslot)
        (fun i hi hik => by
          have hslot := congrFun (congrFun hslots (root / 4096)) ⟨i, hi⟩
          rwa [Radix.link, Radix.set_other (fun _ e => hik (congrArg Fin.val e)),
            Radix.clear_other hapart.symm, hzero, slots, page_mul hroot.managed.aligned] at hslot)
        (fun i hi => by
          have hslot := congrFun (congrFun hslots (q / 4096)) ⟨i, hi⟩
          rwa [Radix.link, Radix.set_other (fun e => absurd e hapart), Radix.clear_self, slots,
            page_mul hq.aligned] at hslot) n
      rw [hfw] at hfreed
      cases hfreed
      exact ⟨rfl, hend'.trans hend, [root, q], hfree', hl ▸ List.Perm.refl _⟩

end Boot

/-! ## What a call takes -/

section Calls
variable {w w' : PageWorld} {l : List Nat} {call : ForkCall} {c : Nat}

/-- `c` is an entry that was unused and has a trapframe by now, and a page table at `NULL`. -/
structure FreshProc (w : PageWorld) (l : List Nat) (c : Nat) (w' : PageWorld) (l' : List Nat) :
    Prop where
  unused : (w.procTable c).state = .unused
  free : FreeList w'.mem l'
  frame : TakenPage w'.mem l' (w'.procTable c).trapframe
  pages : ((w'.procTable c).trapframe :: l').Perm l
  pagetable : (w'.procTable c).pagetable = 0
  kernelEnd : w'.mem.kernelEnd = w.mem.kernelEnd
  states : ∀ p, p ≠ c → (w'.procTable p).state = (w.procTable p).state

private theorem withProc_state {p : Nat} {f : PageProc → PageProc} (hf : ∀ q, (f q).state = q.state)
    (x : Nat) : ((w.withProc p f).procTable x).state = (w.procTable x).state := by
  unfold PageWorld.withProc
  by_cases hx : x = p
  · rw [hx]
    simp only [Function.update_self, hf]
  · simp only [Function.update_of_ne hx]

private theorem withProc_self {p : Nat} {f : PageProc → PageProc} :
    (w.withProc p f).procTable p = f (w.procTable p) := Function.update_self ..

private theorem withProc_other {p x : Nat} {f : PageProc → PageProc} (hx : x ≠ p) :
    (w.withProc p f).procTable x = w.procTable x := Function.update_of_ne hx ..

theorem allocproc_cases (h : FreeList w.mem l)
    (hcode : 4096 < w.trampolineCode ∧ w.trampolineCode ≤ phystop) {r : Option Nat}
    (hrun : allocproc w = .ok r w') :
    (r = none ∧ l = [] ∧ w'.mem = w.mem ∧
      ∀ p, (w'.procTable p).state = (w.procTable p).state) ∨
    ∃ c l', r = some c ∧ FreshProc w l c w' l' ∧ (w'.procTable c).state = .unused := by
  unfold allocproc at hrun
  rw [read_bind] at hrun
  cases hfind : (List.range NPROC).find? fun p => p ≠ 0 ∧ (w.procTable p).state = .unused with
  | none =>
    rw [hfind] at hrun
    cases hrun
  | some p =>
    rw [hfind] at hrun
    have hunused : (w.procTable p).state = .unused := by
      have hp := List.find?_some hfind
      simp only [decide_eq_true_eq] at hp
      exact hp.2
    obtain ⟨frame, σ, hkalloc, hrest⟩ := onMem_bind_eq_ok hrun
    rw [setPageProc, modify_bind] at hrest
    rcases kalloc_taken h with ⟨hl, hk⟩ | ⟨page, l₁, hl, hk, hfree, htaken⟩
    · rw [hk] at hkalloc
      cases hkalloc
      rw [if_pos rfl] at hrest
      cases hrest
      exact Or.inl ⟨rfl, hl, rfl, withProc_state fun _ => rfl⟩
    · rw [hk] at hkalloc
      cases hkalloc
      rw [if_neg htaken.ne_zero] at hrest
      obtain ⟨pagetable, τ, htable, hrest⟩ := onMem_bind_eq_ok hrest
      obtain ⟨hnull, hend, l₂, hfree₂, hperm⟩ := procPagetable_null hfree hcode htable
      rw [setPageProc, modify_bind] at hrest
      obtain ⟨_, υ, hset, hrest⟩ := onMem_bind_eq_ok hrest
      cases hset
      cases hrest
      have htaken₂ : TakenPage τ l₂ frame :=
        ⟨hend ▸ htaken.managed, htaken.ne_zero, fun hp => htaken.notFree (hperm.subset hp)⟩
      have hzeroed := htaken₂.write hfree₂ (fill τ.mem frame trapframeBytes 0)
        fun b hb => fill_apply_of_outside _ _ _ _ _ (by
          have : trapframeBytes = 288 := rfl
          omega)
      refine Or.inr ⟨p, l₂, rfl, ⟨hunused, hzeroed, ?_, ?_, ?_, hend, ?_⟩, ?_⟩
      · rw [withProc_self, withProc_self]
        exact ⟨htaken₂.managed, htaken₂.ne_zero, htaken₂.notFree⟩
      · rw [withProc_self, withProc_self, hl]
        exact hperm.cons frame
      · rw [withProc_self, hnull]
      · intro x hx
        rw [withProc_other hx, withProc_other hx]
      · rw [withProc_self, withProc_self]
        exact hunused

theorem FreshProc.withMem {l' : List Nat} (h : FreshProc w l c w' l') (m' : Mem)
    (hm : ∀ b, b < (w'.procTable c).trapframe ∨ (w'.procTable c).trapframe + 4096 ≤ b →
      m' b = w'.mem.mem b) :
    FreshProc w l c { w' with mem := { w'.mem with mem := m' } } l' :=
  ⟨h.unused, h.frame.write h.free m' hm,
    ⟨h.frame.managed, h.frame.ne_zero, h.frame.notFree⟩, h.pages, h.pagetable, h.kernelEnd,
    h.states⟩

theorem FreshProc.withProc {l' : List Nat} (h : FreshProc w l c w' l') {f : PageProc → PageProc}
    (hframe : ∀ q, (f q).trapframe = q.trapframe) (htable : ∀ q, (f q).pagetable = q.pagetable) :
    FreshProc w l c (w'.withProc c f) l' := by
  refine ⟨h.unused, h.free, ?_, ?_, ?_, h.kernelEnd, fun p hp => ?_⟩
  · rw [withProc_self, hframe]
    exact h.frame
  · rw [withProc_self, hframe]
    exact h.pages
  · rw [withProc_self, htable]
    exact h.pagetable
  · rw [withProc_other hp]
    exact h.states p hp

theorem copyProc_cases (h : FreeList w.mem l)
    (hcode : 4096 < w.trampolineCode ∧ w.trampolineCode ≤ phystop) {p : Nat} {r : Option Nat}
    (hrun : copyProc p w = .ok r w') :
    (r = none ∧ FreeList w'.mem [] ∧ ∀ p, (w'.procTable p).state = (w.procTable p).state) ∨
    ∃ c l', r = some c ∧ FreshProc w l c w' l' ∧ (w'.procTable c).sz = 0 := by
  unfold copyProc at hrun
  obtain ⟨found, v, halloc, hrest⟩ := bind_eq_ok.mp hrun
  rcases allocproc_cases h hcode halloc with ⟨rfl, hl, hmem, hstates⟩ |
    ⟨c, l', rfl, hfresh, hunused⟩
  · cases hrest
    exact Or.inl ⟨rfl, hmem ▸ hl ▸ h, hstates⟩
  · simp only [read_bind] at hrest
    obtain ⟨x, σ, hcopy, hrest⟩ := onMem_bind_eq_ok hrest
    rw [hfresh.pagetable] at hcopy
    obtain ⟨rfl, ⟨hsize, rfl⟩ | ⟨rfl, rfl⟩⟩ := uvmcopyAt_null hfresh.free hcopy
    · rw [if_neg (by decide), setPageProc, modify_bind] at hrest
      obtain ⟨_, σ, hmove, hrest⟩ := onMem_bind_eq_ok hrest
      cases hmove
      obtain ⟨_, σ, hset, hrest⟩ := onMem_bind_eq_ok hrest
      cases hset
      cases hrest
      have hsized := hfresh.withProc (f := fun q => { q with sz := (v.procTable p).sz })
        (fun _ => rfl) (fun _ => rfl)
      refine Or.inr ⟨c, l', rfl, (hsized.withMem _ fun b hb => ?_).withMem _ fun b hb => ?_, ?_⟩
      · simp only [withProc_self] at hb
        exact move_apply_of_outside _ _ _ _ _ (by
          have : trapframeBytes = 288 := rfl
          omega)
      · simp only [withProc_self] at hb
        exact writeWord_apply_of_outside _ _ _ _ (by
          have : trapframeA0 = 112 := rfl
          omega)
      · rw [withProc_self]
        exact hsize
    · rw [if_pos (by decide)] at hrest
      cases hrest
      refine Or.inl ⟨rfl, hfresh.free, fun q => ?_⟩
      by_cases hq : q = c
      · rw [hq, hunused, hfresh.unused]
      · exact hfresh.states q hq

theorem forkCall_cases (h : FreeList w.mem l)
    (hcode : 4096 < w.trampolineCode ∧ w.trampolineCode ≤ phystop) {r : Int}
    (hrun : call.run w = .ok r w') :
    (r = -1 ∧ FreeList w'.mem [] ∧ ∀ p, (w'.procTable p).state = (w.procTable p).state) ∨
    ∃ (c : Nat) (l' : List Nat), r = c ∧ FreshProc w l c w' l' ∧ (w'.procTable c).sz = 0 ∧
      (w'.procTable c).state = .runnable := by
  cases call with
  | fork p =>
    obtain ⟨copied, v, hcopy, hrest⟩ := bind_eq_ok.mp hrun
    rcases copyProc_cases h hcode hcopy with ⟨rfl, hnone, hstates⟩ | ⟨c, l', rfl, hfresh, hsz⟩
    · cases hrest
      exact Or.inl ⟨rfl, hnone, hstates⟩
    · cases hrest
      refine Or.inr ⟨c, l', rfl, hfresh.withProc (fun _ => rfl) (fun _ => rfl), ?_, ?_⟩
      · rw [withProc_self]
        exact hsz
      · rw [withProc_self]
  | clone p stack =>
    obtain ⟨copied, v, hcopy, hrest⟩ := bind_eq_ok.mp hrun
    rcases copyProc_cases h hcode hcopy with ⟨rfl, hnone, hstates⟩ | ⟨c, l', rfl, hfresh, hsz⟩
    · cases hrest
      exact Or.inl ⟨rfl, hnone, hstates⟩
    · simp only [read_bind] at hrest
      obtain ⟨_, σ, hset, hrest⟩ := onMem_bind_eq_ok hrest
      cases hset
      cases hrest
      have hwritten := hfresh.withMem
        (writeWord v.mem.mem ((v.procTable c).trapframe + trapframeSp) stack) fun b hb =>
          writeWord_apply_of_outside _ _ _ _ (by
            have : trapframeSp = 48 := rfl
            omega)
      refine Or.inr ⟨c, l', rfl, hwritten.withProc (fun _ => rfl) (fun _ => rfl), ?_, ?_⟩
      · rw [withProc_self]
        exact hsz
      · rw [withProc_self]

/-! ## From the call to the reaping -/

/-- While the process lives its trapframe is missing on the free list, and nothing else. -/
structure LifeInv (w : PageWorld) (l : List Nat) (c : Nat) (v : PageWorld) : Prop where
  kernelEnd : v.mem.kernelEnd = w.mem.kernelEnd
  unused : (w.procTable c).state = .unused
  others : ∀ p, p ≠ c → (v.procTable p).state = (w.procTable p).state
  pages : (v.procTable c).state = .unused ∧ (∃ l', FreeList v.mem l' ∧ l'.Perm l) ∨
    (v.procTable c).state ≠ .unused ∧ (v.procTable c).pagetable = 0 ∧ (v.procTable c).sz = 0 ∧
      ∃ l', FreeList v.mem l' ∧ TakenPage v.mem l' (v.procTable c).trapframe ∧
        ((v.procTable c).trapframe :: l').Perm l

private theorem withProc_same {p : Nat} {f : PageProc → PageProc}
    (h : f (w.procTable p) = w.procTable p) : w.withProc p f = w := by
  rw [PageWorld.withProc, h, Function.update_eq_self]

/-- A process without a page table and without memory neither grows nor shrinks. -/
theorem growproc_null {n r : Int} (hfree : FreeList w.mem l)
    (htable : (w.procTable c).pagetable = 0) (hsz : (w.procTable c).sz = 0)
    (hrun : PageWorld.growproc c n w = .ok r w') : w' = w := by
  have hsame : w.withProc c (fun q => { q with sz := 0 }) = w := withProc_same (by rw [← hsz])
  unfold PageWorld.growproc at hrun
  rw [read_bind] at hrun
  simp only [htable, hsz, Nat.zero_mod] at hrun
  split at hrun
  · obtain ⟨x, σ, hgrow, hrest⟩ := onMem_bind_eq_ok hrun
    obtain ⟨rfl, rfl⟩ := uvmallocAt_null hfree hgrow
    rw [if_pos (Nat.zero_mod _)] at hrest
    cases hrest
    rfl
  · split at hrun
    · obtain ⟨x, σ, hshrink, hrest⟩ := onMem_bind_eq_ok hrun
      unfold uvmDeallocAt at hshrink
      rw [if_pos (Nat.zero_le _)] at hshrink
      cases hshrink
      cases hrest
      exact hsame
    · cases hrun
      exact hsame

/-- `exit` takes no page and gives none back. -/
theorem pageExit_mem {vmas : List (Nat × Nat)} (hend : 0 < w.mem.kernelEnd)
    (hrun : PageWorld.exit c vmas w = .ok () w') :
    w' = w.withProc c fun q => { q with state := .zombie } := by
  obtain ⟨_, v, hloop, hrest⟩ := bind_eq_ok.mp hrun
  have hv : v = w := by
    refine forEach_inv (I := fun v => v = w) (fun vma _ s t hs hround => ?_) rfl hloop
    obtain ⟨addr, length⟩ := vma
    obtain ⟨σ, hunmap, rfl⟩ := onMem_eq_ok hround
    rw [vmunmapAt_state (by rw [hs]; exact hend) hunmap]
    exact hs
  subst hv
  cases hrest
  rfl

/-- The state after `freeproc` of an entry that has a trapframe and no page table. -/
def reaped (w : PageWorld) (c : Nat) : PageWorld :=
  PageWorld.withProc { w with mem := freed w.mem (w.procTable c).trapframe } c
    fun q => { q with trapframe := 0, pagetable := 0, sz := 0, state := .unused }

theorem freeproc_null (hfree : FreeList w.mem l)
    (hframe : TakenPage w.mem l (w.procTable c).trapframe)
    (htable : (w.procTable c).pagetable = 0) : freeproc c w = .ok () (reaped w c) := by
  have hkfree : onMem (kfree (w.procTable c).trapframe) w =
      .ok () { w with mem := freed w.mem (w.procTable c).trapframe } := by
    rw [onMem, (hframe.kfree hfree).1]
  unfold freeproc
  rw [read_bind]
  simp only [htable, ne_eq, hframe.ne_zero, not_false_eq_true, not_true_eq_false, if_true,
    if_false]
  rw [bind_ok hkfree]
  simp only [setPageProc, modify_bind, modify_apply, reaped, PageWorld.withProc,
    Function.update_self, Function.update_idem]

theorem LifeInv.start {v : PageWorld} (h : FreeList w.mem l)
    (hcode : 4096 < w.trampolineCode ∧ w.trampolineCode ≤ phystop)
    (hrun : call.run w = .ok (c : Int) v) : LifeInv w l c v := by
  rcases forkCall_cases h hcode hrun with ⟨hr, _, _⟩ | ⟨c', l', hr, hfresh, hsz, hstate⟩
  · omega
  · obtain rfl : c = c' := by exact_mod_cast hr
    exact ⟨hfresh.kernelEnd, hfresh.unused, hfresh.states, Or.inr ⟨by rw [hstate]; decide,
      hfresh.pagetable, hsz, l', hfresh.free, hfresh.frame, hfresh.pages⟩⟩

theorem LifeInv.step {v v' : PageWorld} {a : LifeAction} (hend : 0 < w.mem.kernelEnd)
    (hinv : LifeInv w l c v) (hstep : LifeStep c v a v') : LifeInv w l c v' := by
  have hvend : 0 < v.mem.kernelEnd := hinv.kernelEnd ▸ hend
  cases a with
  | growproc n =>
    obtain ⟨hunused, _, r, hrun⟩ := hstep
    rcases hinv.pages with ⟨hstate, _⟩ | ⟨_, htable, hsz, l', hfree, _⟩
    · exact absurd hstate hunused
    · rw [growproc_null hfree htable hsz hrun]
      exact hinv
  | store a b =>
    obtain ⟨hnot, rfl⟩ := hstep
    have hkeep : ∀ {l'}, FreeList v.mem l' →
        FreeList { v.mem with mem := Function.update v.mem.mem a b } l' := by
      intro l' hfree
      refine hfree.congr _ fun p hp => readWord_congr fun x hx hx' => ?_
      have hpa := (hfree.managed p hp).aligned
      refine Function.update_of_ne (fun hxa => hnot ?_) _ _
      exact (hfree.onFreeList _).mpr (by
        rwa [show a / 4096 * 4096 = p by omega])
    refine ⟨hinv.kernelEnd, hinv.unused, hinv.others, ?_⟩
    rcases hinv.pages with ⟨hstate, l', hfree, hperm⟩ |
      ⟨hstate, htable, hsz, l', hfree, hframe, hperm⟩
    · exact Or.inl ⟨hstate, l', hkeep hfree, hperm⟩
    · exact Or.inr ⟨hstate, htable, hsz, l', hkeep hfree,
        ⟨hframe.managed, hframe.ne_zero, hframe.notFree⟩, hperm⟩
  | exit vmas =>
    obtain ⟨hunused, _, hrun⟩ := hstep
    rw [pageExit_mem hvend hrun]
    refine ⟨hinv.kernelEnd, hinv.unused, fun p hp => ?_, ?_⟩
    · rw [withProc_other hp]
      exact hinv.others p hp
    · rcases hinv.pages with ⟨hstate, _⟩ | ⟨_, htable, hsz, hrest⟩
      · exact absurd hstate hunused
      · rw [withProc_self]
        exact Or.inr ⟨(fun h => by cases h), htable, hsz, hrest⟩
  | reap =>
    obtain ⟨hzombie, hrun⟩ := hstep
    rcases hinv.pages with ⟨hstate, _⟩ | ⟨_, htable, hsz, l', hfree, hframe, hperm⟩
    · rw [hzombie] at hstate
      cases hstate
    · have hfreed := (hframe.kfree hfree).2
      rw [freeproc_null hfree hframe htable] at hrun
      cases hrun
      refine ⟨hinv.kernelEnd, hinv.unused, fun p hp => ?_, Or.inl ⟨?_, _, hfreed, hperm⟩⟩
      · rw [reaped, withProc_other hp]
        exact hinv.others p hp
      · rw [reaped, withProc_self]

/-- A child that has been made can exit and be reaped. -/
theorem lifetime_exists {v : PageWorld} (h : FreeList w.mem l)
    (hcode : 4096 < w.trampolineCode ∧ w.trampolineCode ≤ phystop)
    (hrun : call.run w = .ok (c : Int) v) : ∃ w', Lifetime call c w w' := by
  rcases forkCall_cases h hcode hrun with ⟨hr, _, _⟩ | ⟨c', l', hr, hfresh, hsz, hstate⟩
  · omega
  · obtain rfl : c = c' := by exact_mod_cast hr
    have hexit : LifeStep c v (.exit []) (v.withProc c fun q => { q with state := .zombie }) := by
      refine ⟨?_, ?_, rfl⟩
      · rw [hstate]
        decide
      · rw [hstate]
        decide
    have hzombie := hfresh.withProc (f := fun q => { q with state := .zombie }) (fun _ => rfl)
      (fun _ => rfl)
    have hreap := freeproc_null hzombie.free hzombie.frame hzombie.pagetable
    have hstep : LifeStep c (v.withProc c fun q => { q with state := .zombie }) .reap
        (reaped (v.withProc c fun q => { q with state := .zombie }) c) :=
      ⟨by rw [withProc_self], hreap⟩
    refine ⟨_, .next (.next (.start hrun) trivial hexit) trivial hstep, ?_⟩
    rw [reaped, withProc_self]

end Calls

/-! ## One free page -/

def pageProcs (parent : PageProc) : Nat → PageProc := fun p =>
  if p = 1 then parent else ⟨.unused, 0, 0, 0, 0⟩

/-- The parent has no memory. -/
def loneWorld : PageWorld :=
  ⟨withFree kernbase [0x80500000], pageProcs ⟨.running, 0x80304000, 0x80300000, 0, 0⟩, kernbase⟩

/-- The parent has one page, and its tables are at `0x80300000`, `0x80301000` and
`0x80302000`. -/
def leakWorld : PageWorld :=
  let m1 := writeWord loneWorld.mem.mem 0x80300000 (page2pte 0x80301000 ||| pteV)
  let m2 := writeWord m1 0x80301000 (page2pte 0x80302000 ||| pteV)
  ⟨{ loneWorld.mem with
      mem := writeWord m2 0x80302000 (page2pte 0x80303000 ||| (pteW ||| pteX ||| pteR ||| pteU |||
        pteV)) },
    pageProcs ⟨.running, 0x80304000, 0x80300000, 0, 4096⟩, kernbase⟩

theorem loneWorld_free : FreeList loneWorld.mem [0x80500000] :=
  withFree_freeList (List.nodup_singleton _) fun p hp => by
    rw [List.mem_singleton] at hp
    rw [hp]
    exact ⟨⟨by decide, by decide, by decide⟩, by decide⟩

theorem leakWorld_free : FreeList leakWorld.mem [0x80500000] := by
  refine loneWorld_free.congr _ fun q hq => ?_
  rw [List.mem_singleton] at hq
  rw [readWord_writeWord_of_disjoint _ _ _ _ (by omega),
    readWord_writeWord_of_disjoint _ _ _ _ (by omega),
    readWord_writeWord_of_disjoint _ _ _ _ (by omega)]

theorem loneWorld_lifetime : ∃ w', Lifetime (.fork 1) 2 loneWorld w' := by
  have hrun : ((ForkCall.fork 1).run loneWorld).value = some 2 := by decide +kernel
  obtain ⟨v, hv⟩ := Res.eq_ok_of_value hrun
  exact lifetime_exists loneWorld_free (by decide) hv

theorem leakWorld_fails : ∃ w', FailedCall (.fork 1) leakWorld w' := by
  have hrun : ((ForkCall.fork 1).run leakWorld).value = some (-1) := by decide +kernel
  obtain ⟨v, hv⟩ := Res.eq_ok_of_value hrun
  exact ⟨v, -1, by decide, hv⟩

end PageFaultOS
