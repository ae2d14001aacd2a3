import Mathlib.Tactic
import PageFaultOS.Mm.UserRange
import PageFaultOS.Proc.Exec
import PageFaultOS.Syscall.Entry

/-! `sys_execve` of `syscall/syscallproc.cpp`: the local array `argv`, the pages for the
arguments, and what becomes of both. The indices of `argv` that are used, the pages that are taken
for arguments and those that are freed are recorded. `vfscalAbPath` is declared, but not defined. -/

namespace PageFaultOS
open Exec Exec.Comp ByteMem

/-- What `exec` works on, the user's side of the process, the array `argv`, and the record: the
argument to `exec` is there once it is called. -/
structure ExecveWorld (σ : Type) where
  image : ExecWorld σ
  trapframe : ArgRegs
  user : Mem
  argv : Nat → Nat
  accessed : List Nat
  allocated : List Nat
  freed : List Nat
  passed : Option (Nat → Nat)

abbrev ExecveComp (σ : Type) := Comp (ExecveWorld σ)

/-- The string at `a`, which is in a buffer of `max` bytes. -/
def cstringAt (m : Mem) (a max : Nat) : CStr := (load m a max).takeWhile (· ≠ 0)

section
variable {σ : Type}

namespace ExecveWorld

/-- The process, with the kernel's memory `mem`. -/
def entry (w : ExecveWorld σ) (mem : Mem) : EntryState :=
  ⟨w.trapframe, BitVec.ofNat 64 w.image.proc.sz, w.user, mem⟩

def withMem (w : ExecveWorld σ) (m : MemState) : ExecveWorld σ :=
  { w with image := w.image.withMem m }

/-- The strings of `argv`, up to the null pointer. -/
def strings (w : ExecveWorld σ) : List CStr :=
  (((List.range MAXARG).map w.argv).takeWhile (· ≠ 0)).map fun a =>
    cstringAt w.image.mem.mem a pgsize

end ExecveWorld

/-- A fetch into a local variable, at address `0` of a memory of its own. -/
def fetchLocal {α : Type} (x : EntryComp Int) (value : Mem → α) : ExecveComp σ (Int × α) := fun w =>
  match x (w.entry fun _ => 0) with
  | .ok r s => .ok (r, value s.mem) w
  | .fault e _ => .fault e w

/-- A fetch into a page. -/
def fetchPage (x : EntryComp Int) : ExecveComp σ Int := fun w =>
  match x (w.entry w.image.mem.mem) with
  | .ok r s => .ok r (w.withMem { w.image.mem with mem := s.mem })
  | .fault e s => .fault e (w.withMem { w.image.mem with mem := s.mem })

/-- `argv[i]` -/
def argvAt (i : Nat) : ExecveComp σ Nat := do
  modify fun w => { w with accessed := w.accessed ++ [i] }
  let w ← read
  if i < MAXARG then pure (w.argv i) else fault (.undefined "argv")

/-- `argv[i] = v` -/
def setArgv (i v : Nat) : ExecveComp σ Unit := do
  modify fun w => { w with accessed := w.accessed ++ [i] }
  if i < MAXARG then modify fun w => { w with argv := Function.update w.argv i v }
  else fault (.undefined "argv")

def kallocArg : ExecveComp σ Nat := fun w =>
  match kalloc w.image.mem with
  | .ok page m => .ok page { w.withMem m with
      allocated := if page = 0 then w.allocated else w.allocated ++ [page] }
  | .fault e m => .fault e (w.withMem m)

def kfreeArg (page : Nat) : ExecveComp σ Unit := fun w =>
  match kfree page w.image.mem with
  | .ok _ m => .ok () { w.withMem m with freed := w.freed ++ [page] }
  | .fault e m => .fault e (w.withMem m)

def callExec (fs : ReadFile σ) (path : CStr) : ExecveComp σ Int := fun w =>
  match exec fs path w.strings w.image with
  | .ok r v => .ok r { w with image := v, passed := some w.argv }
  | .fault e v => .fault e { w with image := v, passed := some w.argv }

def fetchUarg (uargv : BitVec 64) (i : Nat) : ExecveComp σ (Int × BitVec 64) :=
  fetchLocal (fetchaddr (uargv + BitVec.ofNat 64 (8 * i)) 0) fun m => BitVec.ofNat 64 (readWord m 0)

/-- The part of a round for a pointer that is not null. -/
def fillPage (uarg : BitVec 64) (i : Nat) : ExecveComp σ (Nat ⊕ Bool) := do
  let page ← kallocArg
  setArgv i page
  let a ← argvAt i
  if a = 0 then pure (.inr false)
  else do
    let a ← argvAt i
    let r ← fetchPage (fetchstr uarg a (BitVec.ofNat 32 pgsize))
    if r < 0 then pure (.inr false) else pure (.inl (i + 1))

/-- One round of the loop that fills `argv`: `.inr true` for `break`, `.inr false` for
`goto bad`. -/
def fillRound (uargv : BitVec 64) (i : Nat) : ExecveComp σ (Nat ⊕ Bool) := do
  if MAXARG < i then pure (.inr false)
  else do
    let (r, uarg) ← if uargv ≠ 0 then fetchUarg uargv i else pure (0, 0)
    if r < 0 then pure (.inr false)
    else if uarg = 0 ∨ uargv = 0 then do
      setArgv i 0
      pure (.inr true)
    else fillPage uarg i

/-- `for (int i = 0; i <= MAXARG && argv[i] != 0; i++) kfree(argv[i]);` -/
def cleanRound (i : Nat) : ExecveComp σ (Nat ⊕ Unit) := do
  if ¬ i ≤ MAXARG then pure (.inr ())
  else do
    let a ← argvAt i
    if a = 0 then pure (.inr ())
    else do
      let a ← argvAt i
      kfreeArg a
      pure (.inl (i + 1))

def cleanArgs : ExecveComp σ Unit := loop cleanRound (MAXARG + 2) 0

variable (fs : ReadFile σ) (calAbPath : CStr → CStr)

/-- `sys_execve` behind the loop. -/
def execArgs (path : CStr) (filled : Bool) : ExecveComp σ Int :=
  if filled then do
    let ret ← callExec fs (calAbPath path)
    cleanArgs
    pure ret
  else do
    cleanArgs
    pure (-1)

def fillArgs (uargv : BitVec 64) : ExecveComp σ Bool := do
  modify fun w => { w with argv := fun _ => 0 }
  loop (fillRound uargv) (MAXARG + 2) 0

def sysExecve : ExecveComp σ Int := do
  let (r, path) ← fetchLocal (argstr 0 0 (BitVec.ofNat 32 MAXPATH)) fun m => cstringAt m 0 MAXPATH
  if r < 0 then pure (-1)
  else do
    let w ← read
    let uargv := w.trapframe.a1
    if path.length < 1 then pure (-1)
    else do
      let filled ← fillArgs uargv
      execArgs fs calAbPath path filled

/-- How `sys_execve` is to leave its array and its pages. -/
structure ExecveEnd (w : ExecveWorld σ) : Prop where
  inside : ∀ i ∈ w.accessed, i < MAXARG
  ended : ∀ argv, w.passed = some argv → ∃ n < MAXARG, argv n = 0
  freed : w.freed.Perm w.allocated

/-- However a call ends. -/
def EndsWell (run : Res (ExecveWorld σ) Int) : Prop :=
  run.Holds (fun _ w' => ExecveEnd w') (fun _ w' => ExecveEnd w')

def ExecveMeets (w : ExecveWorld σ) : Prop := EndsWell (sysExecve fs calAbPath w)

/-! ## The arguments of the user -/

/-- The address of the pointer with index `i`. -/
def argSlot (uargv : BitVec 64) (i : Nat) : Nat := (uargv + BitVec.ofNat 64 (8 * i)).toNat

/-- It passes the check of `fetchaddr`. -/
def SlotReadable (w : ExecveWorld σ) (uargv : BitVec 64) (i : Nat) : Prop :=
  argSlot uargv i + 8 < (BitVec.ofNat 64 w.image.proc.sz).toNat

def argPointer (w : ExecveWorld σ) (uargv : BitVec 64) (i : Nat) : BitVec 64 :=
  BitVec.ofNat 64 (readWord w.user (argSlot uargv i))

/-- The string at `a` passes the check of `fetchstr` and fits, with its `NUL`, into `max` bytes. -/
def Fetchable (w : ExecveWorld σ) (a : BitVec 64) (max : Nat) : Prop :=
  a + 8 < BitVec.ofNat 64 w.image.proc.sz ∧
    ∃ n < max, StringAt (w.entry fun _ => 0) a.toNat n

structure ArgFetched (w : ExecveWorld σ) (uargv : BitVec 64) (i : Nat) : Prop where
  readable : SlotReadable w uargv i
  pointer : argPointer w uargv i ≠ 0
  string : Fetchable w (argPointer w uargv i) pgsize

/-- `exec` returns, with `n` of the `free` pages taken for arguments. -/
def ExecReturns (w : ExecveWorld σ) (path : CStr) (free n : Nat) : Prop :=
  free = n ∨ w.image.proc.kpagetable ≠ 0 ∧
    ElfStops fs (calAbPath path) (free = n + 1) w.image.fs

/-- With `n` arguments in their pages, the loop stops at the next one so that all is well: it ends
and `exec` returns, or there is no page. Without a page taken nothing goes wrong. -/
def LoopEndsAt (w : ExecveWorld σ) (uargv : BitVec 64) (path : CStr) (free n : Nat) : Prop :=
  (n = 0 ∧ ¬ SlotReadable w uargv 0) ∨ SlotReadable w uargv n ∧
    (argPointer w uargv n = 0 ∧ (n = 0 ∨ ExecReturns fs calAbPath w path free n) ∨
      argPointer w uargv n ≠ 0 ∧ free = n)

/-- The arguments are fewer than `MAXARG`, and the loop gets to its end. -/
def ArgsStop (w : ExecveWorld σ) (uargv : BitVec 64) (path : CStr) (free : Nat) : Prop :=
  ∃ n < MAXARG, n ≤ free ∧ (∀ k < n, ArgFetched w uargv k) ∧
    LoopEndsAt fs calAbPath w uargv path free n

/-- The call starts, with the free pages `l`. -/
structure ExecveStart (w : ExecveWorld σ) (l : List Nat) : Prop where
  free : FreeList w.image.mem l
  accessed : w.accessed = []
  allocated : w.allocated = []
  freed : w.freed = []
  passed : w.passed = none

/-! ## The fetches -/

section Fetch
variable {w : ExecveWorld σ} {uargv : BitVec 64} {i : Nat}

theorem cstringAt_congr {m m' : Mem} {n : Nat} (max : Nat) {a b : Nat}
    (hsame : ∀ k ≤ n, m (a + k) = m' (b + k)) (hnul : m (a + n) = 0) (hn : n < max) :
    cstringAt m a max = cstringAt m' b max := by
  unfold cstringAt
  induction max generalizing a b n with
  | zero => exact absurd hn (Nat.not_lt_zero n)
  | succ max ih =>
    have hfirst := hsame 0 (Nat.zero_le n)
    rw [Nat.add_zero, Nat.add_zero] at hfirst
    rw [load_succ, load_succ, ← hfirst]
    cases n with
    | zero =>
      rw [Nat.add_zero] at hnul
      rw [hnul]
      rfl
    | succ n =>
      have hrest := ih (a := a + 1) (b := b + 1) (n := n) (fun k hk => by
        have hk' := hsame (k + 1) (by omega)
        rwa [Nat.add_comm k 1, ← Nat.add_assoc, ← Nat.add_assoc] at hk')
        (by rwa [Nat.add_comm n 1, ← Nat.add_assoc] at hnul) (by omega)
      rw [List.takeWhile_cons, List.takeWhile_cons, hrest]

theorem fetchaddr_faults {s : EntryState} {addr : BitVec 64} (ip : Nat)
    (h : ¬ addr.toNat + 8 < s.sz.toNat) : ∃ e t, fetchaddr addr ip s = .fault e t := by
  by_cases hbad : addr ≥ s.sz ∨ addr + 8 ≥ s.sz
  · exact ⟨_, s, fetchaddr_panics hbad ip⟩
  · exact fetchaddr_wraps (by bv_omega) (by bv_omega) h ip

theorem fetchstr_faults {s : EntryState} {addr : BitVec 64} {max : BitVec 32} (buf : Nat)
    (hmax : 0 < max.toInt)
    (h : ¬ (addr + 8 < s.sz ∧ ∃ n : Nat, StringAt s addr.toNat n ∧ (n : Int) < max.toInt)) :
    ∃ e t, fetchstr addr buf max s = .fault e t := by
  by_cases hbad : addr ≥ s.sz ∨ addr + 8 ≥ s.sz
  · exact ⟨_, s, fetchstr_panics hbad buf max⟩
  · have hnat := signExtend_toNat hmax
    have hnone : ¬ ∃ n, StringAt s addr.toNat n ∧ n < (max.signExtend 64).toNat := by
      rintro ⟨n, hn, hlt⟩
      exact h ⟨by bv_omega, n, hn, by omega⟩
    obtain ⟨t, hcopy⟩ := (copyinstr2Loop_run _ s buf addr).2 hnone
    have hrun : copyinstr2 buf addr (max.signExtend 64) s = .ok (-1) t := hcopy
    refine ⟨.panic "fetchstr: cannot fetch", t, ?_⟩
    simp only [fetchstr, read_bind, if_neg hbad]
    rw [bind_ok hrun]
    rfl

/-- What a copy writes. -/
theorem copied_outside {s : EntryState} {dst src n b : Nat} (h : b < dst ∨ dst + n ≤ b) :
    (s.withCopied dst src n).mem b = s.mem b := by
  show (if dst ≤ b ∧ b < dst + n then _ else s.mem b) = s.mem b
  rw [if_neg (by omega)]

theorem fetchUarg_readable (h : SlotReadable w uargv i) :
    fetchUarg uargv i w = .ok (0, argPointer w uargv i) w := by
  have hrun := fetchaddr_run (s := w.entry fun _ => 0) h 0
  unfold fetchUarg fetchLocal
  rw [hrun]
  have hword : readWord ((w.entry fun _ => 0).withCopied 0 (argSlot uargv i) 8).mem 0 =
      readWord w.user (argSlot uargv i) := by
    unfold readWord
    refine readLE_shift fun k hk => ?_
    show (if 0 ≤ 0 + k ∧ 0 + k < 0 + 8 then w.user (argSlot uargv i + (0 + k - 0)) else _) = _
    rw [if_pos (by omega), Nat.zero_add, Nat.sub_zero]
  show Res.ok (0, BitVec.ofNat 64 _) w = _
  rw [argPointer, ← hword]
  rfl

theorem fetchUarg_unreadable (h : ¬ SlotReadable w uargv i) :
    ∃ e, fetchUarg uargv i w = .fault e w := by
  obtain ⟨e, t, hrun⟩ := fetchaddr_faults (s := w.entry fun _ => 0) 0 h
  refine ⟨e, ?_⟩
  unfold fetchUarg fetchLocal
  rw [hrun]

theorem fetchPage_string {a : BitVec 64} (h : Fetchable w a pgsize) (page : Nat) :
    ∃ m, fetchPage (fetchstr a page (BitVec.ofNat 32 pgsize)) w =
        .ok 0 (w.withMem { w.image.mem with mem := m }) ∧
      ∀ b, b < page ∨ page + 4096 ≤ b → m b = w.image.mem.mem b := by
  obtain ⟨hpass, n, hn, hstr⟩ := h
  have hstr' : StringAt (w.entry w.image.mem.mem) a.toNat n := ⟨hstr.chars, hstr.nul, hstr.below⟩
  have hmax : (n : Int) < (BitVec.ofNat 32 pgsize).toInt := by
    have hint : (BitVec.ofNat 32 pgsize).toInt = 4096 := rfl
    have hsize : pgsize = 4096 := rfl
    omega
  have hrun : fetchstr a page (BitVec.ofNat 32 pgsize) (w.entry w.image.mem.mem) =
      .ok 0 ((w.entry w.image.mem.mem).withCopied page a.toNat (n + 1)) :=
    fetchstr_run hstr' hmax hpass
  refine ⟨((w.entry w.image.mem.mem).withCopied page a.toNat (n + 1)).mem, ?_, fun b hb => ?_⟩
  · unfold fetchPage
    rw [hrun]
  · have hsize : pgsize = 4096 := rfl
    exact copied_outside (by omega)

theorem fetchPage_none {a : BitVec 64} (h : ¬ Fetchable w a pgsize) (page : Nat) :
    ∃ e m, fetchPage (fetchstr a page (BitVec.ofNat 32 pgsize)) w =
      .fault e (w.withMem { w.image.mem with mem := m }) := by
  have hint : (BitVec.ofNat 32 pgsize).toInt = 4096 := rfl
  have hnone : ¬ (a + 8 < (w.entry w.image.mem.mem).sz ∧ ∃ n : Nat,
      StringAt (w.entry w.image.mem.mem) a.toNat n ∧
        (n : Int) < (BitVec.ofNat 32 pgsize).toInt) := by
    rintro ⟨hpass, n, hn, hlt⟩
    have hsize : pgsize = 4096 := rfl
    exact h ⟨hpass, n, by omega, hn.chars, hn.nul, hn.below⟩
  obtain ⟨e, t, hrun⟩ := fetchstr_faults page (by rw [hint]; decide) hnone
  refine ⟨e, t.mem, ?_⟩
  unfold fetchPage
  rw [hrun]

end Fetch

/-! ## The array -/

section Array
variable {w : ExecveWorld σ} {i v : Nat}

/-- The world with one more index recorded. -/
def ExecveWorld.access (w : ExecveWorld σ) (i : Nat) : ExecveWorld σ :=
  { w with accessed := w.accessed ++ [i] }

theorem argvAt_run (h : i < MAXARG) (w : ExecveWorld σ) :
    argvAt i w = .ok (w.argv i) (w.access i) := by
  unfold argvAt
  simp only [modify_bind, read_bind, if_pos h]
  rfl

/-- The world with an entry of the array stored. -/
def ExecveWorld.store (w : ExecveWorld σ) (i v : Nat) : ExecveWorld σ :=
  { w.access i with argv := Function.update w.argv i v }

theorem setArgv_run (h : i < MAXARG) (v : Nat) (w : ExecveWorld σ) :
    setArgv i v w = .ok () (w.store i v) := by
  unfold setArgv
  simp only [modify_bind, if_pos h]
  rfl

theorem argvAt_store (h : i < MAXARG) (v : Nat) (w : ExecveWorld σ) :
    argvAt i (w.store i v) = .ok v ((w.store i v).access i) := by
  rw [argvAt_run h]
  congr 1
  exact Function.update_self i v w.argv

theorem argvAt_again (h : i < MAXARG) (v : Nat) (w : ExecveWorld σ) :
    argvAt i ((w.store i v).access i) = .ok v (((w.store i v).access i).access i) := by
  rw [argvAt_run h]
  congr 1
  exact Function.update_self i v w.argv

theorem setArgv_beyond (h : ¬ i < MAXARG) (w : ExecveWorld σ) :
    setArgv i v w = .fault (.undefined "argv") (w.access i) := by
  unfold setArgv
  simp only [modify_bind, if_neg h]
  rfl

end Array

/-! ## The pages are freed -/

section Clean
variable {w : ExecveWorld σ} {pages l : List Nat}

/-- What the loop that frees leaves. -/
structure Cleaned (pages : List Nat) (w w' : ExecveWorld σ) : Prop where
  freed : w'.freed = w.freed ++ pages
  allocated : w'.allocated = w.allocated
  passed : w'.passed = w.passed
  accessed : ∀ i ∈ w'.accessed, i ∈ w.accessed ∨ i < MAXARG

/-- One page. -/
theorem cleanRound_page {i page : Nat} (hi : i < MAXARG) (hargv : w.argv i = page)
    (hpage : TakenPage w.image.mem l page) (hfree : FreeList w.image.mem l) :
    cleanRound i w = .ok (.inl (i + 1)) { ((w.access i).access i).withMem (freed w.image.mem page)
      with freed := w.freed ++ [page] } := by
  have hkfree : kfreeArg page ((w.access i).access i) =
      .ok () { ((w.access i).access i).withMem (freed w.image.mem page) with
        freed := w.freed ++ [page] } := by
    have hrun : kfree page ((w.access i).access i).image.mem = .ok () (freed w.image.mem page) :=
      (hpage.kfree hfree).1
    unfold kfreeArg
    rw [hrun]
    rfl
  have hread : argvAt i (w.access i) = .ok page ((w.access i).access i) :=
    (argvAt_run hi _).trans (by rw [← hargv]; rfl)
  unfold cleanRound
  rw [if_neg (not_not_intro hi.le), bind_ok (argvAt_run hi w), hargv, if_neg hpage.ne_zero,
    bind_ok hread, bind_ok hkfree]
  rfl

theorem cleanRound_end {i : Nat} (hi : i < MAXARG) (hargv : w.argv i = 0) :
    cleanRound i w = .ok (.inr ()) (w.access i) := by
  unfold cleanRound
  rw [if_neg (not_not_intro hi.le), bind_ok (argvAt_run hi w), hargv, if_pos rfl]
  rfl

theorem cleanLoop_run (rest : List Nat) : ∀ (w : ExecveWorld σ) (l : List Nat) (i fuel : Nat),
    rest.length < fuel → i + rest.length < MAXARG → FreeList w.image.mem l →
    (∀ p ∈ rest, TakenPage w.image.mem l p) → rest.Nodup →
    (∀ k ≤ rest.length, w.argv (i + k) = rest.getD k 0) →
    ∃ w', loop cleanRound fuel i w = .ok () w' ∧ Cleaned rest w w' := by
  induction rest with
  | nil =>
    intro w l i fuel hfuel hi hfree _ _ hargv
    obtain ⟨n, rfl⟩ : ∃ n, fuel = n + 1 := ⟨fuel - 1, by omega⟩
    have hnull := hargv 0 (Nat.le_refl _)
    refine ⟨_, loop_done (cleanRound_end hi hnull) n, (List.append_nil _).symm, rfl, rfl, ?_⟩
    intro k hk
    obtain hk | hk := List.mem_append.mp hk
    · exact .inl hk
    · exact .inr (by rw [List.mem_singleton.mp hk]; exact hi)
  | cons page rest ih =>
    intro w l i fuel hfuel hi hfree hpages hnodup hargv
    obtain ⟨n, rfl⟩ : ∃ n, fuel = n + 1 := ⟨fuel - 1, by omega⟩
    obtain ⟨hnew, hnodup⟩ := List.nodup_cons.mp hnodup
    have hpage := hpages page List.mem_cons_self
    rw [List.length_cons] at hfuel hi
    have hround := cleanRound_page (by omega) (hargv 0 (Nat.zero_le _)) hpage hfree
    have hpages' : ∀ p ∈ rest, TakenPage (freed w.image.mem page) (page :: l) p := by
      intro p hp
      obtain ⟨hmanaged, hzero, hfree'⟩ := hpages p (List.mem_cons_of_mem _ hp)
      refine ⟨hmanaged, hzero, fun hmem => ?_⟩
      obtain rfl | hmem := List.mem_cons.mp hmem
      · exact hnew hp
      · exact hfree' hmem
    have hargv' : ∀ k ≤ rest.length, w.argv (i + 1 + k) = rest.getD k 0 := by
      intro k hk
      have hnext := hargv (k + 1) (by rw [List.length_cons]; omega)
      rw [List.getD_cons_succ] at hnext
      rw [← hnext, Nat.add_assoc, Nat.add_comm 1]
    obtain ⟨w', hrun, hclean⟩ := ih
      { ((w.access i).access i).withMem (freed w.image.mem page) with freed := w.freed ++ [page] }
      (page :: l) (i + 1) n (by omega) (by omega) (hpage.kfree hfree).2 hpages' hnodup hargv'
    refine ⟨w', (loop_again hround n).trans hrun, ?_, hclean.allocated, hclean.passed, ?_⟩
    · rw [hclean.freed, List.append_assoc]
      rfl
    · intro k hk
      obtain hk | hk := hclean.accessed k hk
      · obtain hk | hk := List.mem_append.mp hk
        · obtain hk | hk := List.mem_append.mp hk
          · exact .inl hk
          · exact .inr (by rw [List.mem_singleton.mp hk]; omega)
        · exact .inr (by rw [List.mem_singleton.mp hk]; omega)
      · exact .inr hk

/-- All pages in `argv` are freed, each one once. -/
theorem cleanArgs_run (hfree : FreeList w.image.mem l)
    (hpages : ∀ p ∈ pages, TakenPage w.image.mem l p) (hnodup : pages.Nodup)
    (hargv : ∀ k, w.argv k = pages.getD k 0) (hlen : pages.length < MAXARG) :
    ∃ w', cleanArgs w = .ok () w' ∧ Cleaned pages w w' :=
  cleanLoop_run pages w l 0 _ (by omega) (by omega) hfree hpages hnodup
    fun k _ => by rw [Nat.zero_add]; exact hargv k

end Clean

/-! ## The loop that fills the array -/

/-- With `i` arguments in their pages, the first of the free pages `l`. -/
structure Filled (w₀ : ExecveWorld σ) (l : List Nat) (i : Nat) (w : ExecveWorld σ) : Prop where
  count : i ≤ l.length
  free : FreeList w.image.mem (l.drop i)
  kernelEnd : w.image.mem.kernelEnd = w₀.image.mem.kernelEnd
  proc : w.image.proc = w₀.image.proc
  fs : w.image.fs = w₀.image.fs
  user : w.user = w₀.user
  argv : ∀ k, w.argv k = (l.take i).getD k 0
  allocated : w.allocated = l.take i
  freed : w.freed = []
  accessed : ∀ k ∈ w.accessed, k < MAXARG
  passed : w.passed = none

section Fill
variable {w₀ w : ExecveWorld σ} {l : List Nat} {i : Nat} {uargv : BitVec 64}

theorem Filled.readable_iff (h : Filled w₀ l i w) (k : Nat) :
    SlotReadable w uargv k ↔ SlotReadable w₀ uargv k := by
  unfold SlotReadable
  rw [h.proc]

theorem Filled.pointer (h : Filled w₀ l i w) (k : Nat) :
    argPointer w uargv k = argPointer w₀ uargv k := by
  unfold argPointer
  rw [h.user]

theorem Filled.fetchable_iff (h : Filled w₀ l i w) (a : BitVec 64) (max : Nat) :
    Fetchable w a max ↔ Fetchable w₀ a max := by
  unfold Fetchable
  rw [h.proc]
  refine and_congr_right fun _ => exists_congr fun n => and_congr_right fun _ => ?_
  have hentry : ∀ v v' : ExecveWorld σ, v.user = v'.user → v.image.proc = v'.image.proc →
      StringAt (v.entry fun _ => 0) a.toNat n → StringAt (v'.entry fun _ => 0) a.toNat n := by
    intro v v' huser hproc hstr
    obtain ⟨hchars, hnul, hbelow⟩ := hstr
    refine ⟨fun k hk => ?_, ?_, ?_⟩
    · show v'.user (a.toNat + k) ≠ 0
      rw [← huser]
      exact hchars k hk
    · show v'.user (a.toNat + n) = 0
      rw [← huser]
      exact hnul
    · show _ < (BitVec.ofNat 64 v'.image.proc.sz).toNat
      rw [← hproc]
      exact hbelow
  exact ⟨hentry w w₀ h.user h.proc, hentry w₀ w h.user.symm h.proc.symm⟩

/-- One more index of the array. -/
theorem Filled.access (h : Filled w₀ l i w) {k : Nat} (hk : k < MAXARG) :
    Filled w₀ l i (w.access k) := by
  refine ⟨h.count, h.free, h.kernelEnd, h.proc, h.fs, h.user, h.argv, h.allocated, h.freed, ?_,
    h.passed⟩
  intro j hj
  obtain hj | hj := List.mem_append.mp hj
  · exact h.accessed j hj
  · rw [List.mem_singleton.mp hj]
    exact hk

/-- The pages of the arguments are taken. -/
theorem Filled.taken (h : Filled w₀ l i w) (hl : FreeList w₀.image.mem l) :
    (∀ p ∈ l.take i, TakenPage w.image.mem (l.drop i) p) ∧ (l.take i).Nodup := by
  have hnodup := hl.nodup
  rw [← List.take_append_drop i l] at hnodup
  obtain ⟨htake, -, hdisjoint⟩ := List.nodup_append.mp hnodup
  refine ⟨fun p hp => ⟨?_, ?_, fun hp' => hdisjoint p hp p hp' rfl⟩, htake⟩
  · rw [h.kernelEnd]
    exact hl.managed p (List.mem_of_mem_take hp)
  · exact hl.ne_zero (List.mem_of_mem_take hp)

/-- The null pointer behind the arguments. -/
theorem Filled.terminate (h : Filled w₀ l i w) (hi : i < MAXARG) :
    Filled w₀ l i (w.store i 0) := by
  obtain ⟨hcount, hfree, hend, hproc, hfs, huser, hargv, halloc, hfreed, hacc, hpassed⟩ :=
    h.access hi
  refine ⟨hcount, hfree, hend, hproc, hfs, huser, fun k => ?_, halloc, hfreed, hacc, hpassed⟩
  by_cases hk : k = i
  · subst hk
    rw [List.getD_eq_default _ _ (List.length_take_le _ _)]
    exact Function.update_self _ _ _
  · exact (Function.update_of_ne hk _ _).trans (hargv k)

theorem Filled.argv_end (h : Filled w₀ l i w) : w.argv i = 0 := by
  rw [h.argv, List.getD_eq_default _ _ (List.length_take_le _ _)]

/-- With pages taken and none freed the call must not end. -/
theorem Filled.not_end {v : ExecveWorld σ} (hcount : i ≤ l.length) (hi : i ≠ 0)
    (halloc : v.allocated = l.take i) (hfreed : v.freed = []) : ¬ ExecveEnd v := by
  intro hend
  have hlength := hend.freed.length_eq
  rw [halloc, hfreed, List.length_nil, List.length_take, Nat.min_eq_left hcount] at hlength
  exact hi hlength.symm

theorem Filled.end_iff (h : Filled w₀ l i w) : ExecveEnd w ↔ i = 0 := by
  constructor
  · intro hend
    by_contra hne
    exact Filled.not_end h.count hne h.allocated h.freed hend
  · rintro rfl
    refine ⟨h.accessed, fun argv hargv => ?_, ?_⟩
    · rw [h.passed] at hargv
      cases hargv
    · rw [h.allocated, h.freed, List.take_zero]

/-- The exit for a failure. -/
theorem execArgs_bad (h : Filled w₀ l i w) (hl : FreeList w₀.image.mem l) (hi : i < MAXARG)
    (path : CStr) : ∃ w', execArgs fs calAbPath path false w = .ok (-1) w' ∧ ExecveEnd w' := by
  obtain ⟨htaken, hnodup⟩ := h.taken hl
  have hlen : (l.take i).length < MAXARG := Nat.lt_of_le_of_lt (List.length_take_le _ _) hi
  obtain ⟨w', hrun, hclean⟩ := cleanArgs_run h.free htaken hnodup h.argv hlen
  refine ⟨w', bind_ok hrun _, fun k hk => ?_, fun argv hargv => ?_, ?_⟩
  · exact (hclean.accessed k hk).elim (h.accessed k) id
  · rw [hclean.passed, h.passed] at hargv
    cases hargv
  · rw [hclean.freed, hclean.allocated, h.freed, h.allocated, List.nil_append]

/-- An `exec` that returns has at most taken one page. -/
theorem exec_mem {path : CStr} {argv : List CStr} {v v' : ExecWorld σ} {r : Int}
    {pages : List Nat} (h : FreeList v.mem pages) (hrun : exec fs path argv v = .ok r v') :
    FreeList v'.mem pages.tail ∧ v'.mem.kernelEnd = v.mem.kernelEnd := by
  have hbody := (exec_returns hrun).1
  refine ⟨?_, execBody_kernelEnd h hbody⟩
  cases pages with
  | nil =>
    rw [execBody_empty h] at hbody
    cases hbody
    exact h
  | cons page pages => exact execBody_free h hbody

theorem execReturns_iff (h : Filled w₀ l i w) (path : CStr) (argv : List CStr) :
    (∃ r v, exec fs (calAbPath path) argv w.image = .ok r v) ↔
      ExecReturns fs calAbPath w₀ path l.length i := by
  have hbody : (∃ x v, execBody fs (calAbPath path) argv w.image = .ok x v) ↔ _ :=
    execBody_returns_iff argv h.free
  have hcount := h.count
  have hempty : l.drop i = [] ↔ l.length = i := by
    rw [List.drop_eq_nil_iff]
    omega
  have hone : ((l.drop i).length = 1) = (l.length = i + 1) := by
    rw [List.length_drop]
    exact propext (by omega)
  unfold ExecReturns
  rw [hempty, hone, h.proc, h.fs] at hbody
  rw [← hbody]
  constructor
  · rintro ⟨r, v, hrun⟩
    exact ⟨none, v, (exec_returns hrun).1⟩
  · rintro ⟨x, v, hrun⟩
    obtain ⟨rfl, -⟩ := execBody_fails hrun
    exact ⟨0, v, exec_of_fails hrun⟩

/-- The end of a call with all its arguments. -/
theorem execArgs_filled (h : Filled w₀ l i w) (hl : FreeList w₀.image.mem l) (hi : i < MAXARG)
    (path : CStr) : EndsWell (execArgs fs calAbPath path true w) ↔
      i = 0 ∨ ExecReturns fs calAbPath w₀ path l.length i := by
  have hended : ∃ n < MAXARG, w.argv n = 0 := ⟨i, hi, h.argv_end⟩
  obtain ⟨htaken, hnodup⟩ := h.taken hl
  have hlen : (l.take i).length < MAXARG := Nat.lt_of_le_of_lt (List.length_take_le _ _) hi
  rw [← execReturns_iff fs calAbPath h path w.strings]
  cases hexec : exec fs (calAbPath path) w.strings w.image with
  | fault e v =>
    have hcall : callExec fs (calAbPath path) w =
        .fault e { w with image := v, passed := some w.argv } := by
      unfold callExec
      rw [hexec]
    have hrun : execArgs fs calAbPath path true w =
        .fault e { w with image := v, passed := some w.argv } := bind_fault hcall _
    rw [hrun]
    constructor
    · intro hend
      by_contra hnot
      have hnot' : ¬ ExecveEnd { w with image := v, passed := some w.argv } :=
        Filled.not_end h.count (fun h0 => hnot (.inl h0)) h.allocated h.freed
      exact hnot' hend
    · rintro (rfl | ⟨r, v', hreturns⟩)
      · refine ⟨h.accessed, fun argv hargv => ?_, ?_⟩
        · cases hargv
          exact hended
        · show w.freed.Perm w.allocated
          rw [h.allocated, h.freed, List.take_zero]
      · cases hreturns
  | ok r v =>
    obtain ⟨hfree, hend⟩ := exec_mem fs h.free hexec
    have hcall : callExec fs (calAbPath path) w =
        .ok r { w with image := v, passed := some w.argv } := by
      unfold callExec
      rw [hexec]
    have htaken' : ∀ p ∈ l.take i, TakenPage v.mem (l.drop i).tail p := fun p hp =>
      ⟨hend ▸ (htaken p hp).managed, (htaken p hp).ne_zero,
        fun hmem => (htaken p hp).notFree (List.mem_of_mem_tail hmem)⟩
    obtain ⟨w', hclean, hcleaned⟩ :=
      cleanArgs_run (w := { w with image := v, passed := some w.argv }) hfree htaken' hnodup
        h.argv hlen
    have hrun : execArgs fs calAbPath path true w = .ok r w' := by
      refine (bind_ok hcall _).trans ?_
      rw [bind_ok hclean]
      rfl
    rw [hrun]
    refine iff_of_true ⟨fun k hk => ?_, fun argv hargv => ?_, ?_⟩ (.inr ⟨r, v, rfl⟩)
    · exact (hcleaned.accessed k hk).elim (h.accessed k) id
    · rw [hcleaned.passed] at hargv
      cases hargv
      exact hended
    · rw [hcleaned.freed, hcleaned.allocated]
      show (w.freed ++ l.take i).Perm w.allocated
      rw [h.freed, h.allocated, List.nil_append]

theorem fillRound_unreadable (hi : i ≤ MAXARG) (hu : uargv ≠ 0) (h : ¬ SlotReadable w uargv i) :
    ∃ e, fillRound uargv i w = .fault e w := by
  obtain ⟨e, hrun⟩ := fetchUarg_unreadable h
  refine ⟨e, ?_⟩
  unfold fillRound
  rw [if_neg (Nat.not_lt.mpr hi), if_pos hu, bind_fault hrun]

theorem fillRound_null (hi : i ≤ MAXARG) (hu : uargv ≠ 0) (h : SlotReadable w uargv i)
    (hnull : argPointer w uargv i = 0) :
    fillRound uargv i w = (setArgv i 0 >>= fun _ => pure (.inr true)) w := by
  have hrun := fetchUarg_readable h
  rw [hnull] at hrun
  unfold fillRound
  rw [if_neg (Nat.not_lt.mpr hi), if_pos hu, bind_ok hrun]
  rfl

theorem fillRound_pointer (hi : i ≤ MAXARG) (hu : uargv ≠ 0) (h : SlotReadable w uargv i)
    (hptr : argPointer w uargv i ≠ 0) :
    fillRound uargv i w = fillPage (argPointer w uargv i) i w := by
  have hrun := fetchUarg_readable h
  have hno : ¬ (argPointer w uargv i = 0 ∨ uargv = 0) := fun h => h.elim hptr hu
  unfold fillRound
  rw [if_neg (Nat.not_lt.mpr hi), if_pos hu, bind_ok hrun]
  show (if (0 : Int) < 0 then _ else if argPointer w uargv i = 0 ∨ uargv = 0 then _ else
    fillPage (argPointer w uargv i) i : ExecveComp σ (Nat ⊕ Bool)) w = _
  rw [if_neg (by decide), if_neg hno]

/-- Without a page the loop fails. -/
theorem fillPage_empty (h : Filled w₀ l i w) (hi : i < MAXARG) (hnone : l.length = i)
    (uarg : BitVec 64) : ∃ v, fillPage uarg i w = .ok (.inr false) v ∧ Filled w₀ l i v := by
  have hdrop : l.drop i = [] := List.drop_eq_nil_of_le hnone.le
  have hfree := h.free
  rw [hdrop] at hfree
  have hkalloc : kallocArg w = .ok 0 w := by
    unfold kallocArg
    rw [kalloc_empty hfree]
    rfl
  refine ⟨(w.store i 0).access i, ?_, (h.terminate hi).access hi⟩
  unfold fillPage
  rw [bind_ok hkalloc, bind_ok (setArgv_run hi 0 w), bind_ok (argvAt_store hi 0 w), if_pos rfl]
  rfl

/-- The world with a page for the next argument in the array. -/
def ExecveWorld.withPage (w : ExecveWorld σ) (i page : Nat) : ExecveWorld σ :=
  ((({ w.withMem (PageFaultOS.allocated w.image.mem page) with
    allocated := w.allocated ++ [page] }).store i page).access i).access i

theorem fillPage_page {page : Nat} {rest : List Nat} (h : Filled w₀ l i w) (hi : i < MAXARG)
    (hdrop : l.drop i = page :: rest) (uarg : BitVec 64) :
    fillPage uarg i w = (fetchPage (fetchstr uarg page (BitVec.ofNat 32 pgsize)) >>= fun r =>
      if r < 0 then pure (.inr false) else pure (.inl (i + 1))) (w.withPage i page) := by
  have hfree := h.free
  rw [hdrop] at hfree
  have hzero := hfree.ne_zero List.mem_cons_self
  have hkalloc : kallocArg w = .ok page { w.withMem (allocated w.image.mem page) with
      allocated := w.allocated ++ [page] } := by
    unfold kallocArg
    rw [(kalloc_cons hfree).1]
    dsimp only
    rw [if_neg hzero]
  unfold fillPage
  rw [bind_ok hkalloc, bind_ok (setArgv_run hi page _), bind_ok (argvAt_store hi page _),
    if_neg hzero, bind_ok (argvAt_again hi page _)]
  rfl

/-- With its string in the page. -/
theorem Filled.next {page : Nat} {rest : List Nat} (h : Filled w₀ l i w) (hi : i < MAXARG)
    (hdrop : l.drop i = page :: rest) {m : Mem}
    (hm : ∀ b, b < page ∨ page + 4096 ≤ b → m b = (PageFaultOS.allocated w.image.mem page).mem b) :
    Filled w₀ l (i + 1)
      ((w.withPage i page).withMem { PageFaultOS.allocated w.image.mem page with mem := m }) := by
  have hlt : i < l.length := by
    by_contra hge
    rw [List.drop_eq_nil_of_le (Nat.not_lt.mp hge)] at hdrop
    cases hdrop
  have hcons := List.drop_eq_getElem_cons hlt
  rw [hdrop] at hcons
  obtain ⟨hpage, hrest⟩ := List.cons.inj hcons
  have htake : l.take (i + 1) = l.take i ++ [page] := by
    rw [List.take_succ_eq_append_getElem hlt, hpage]
  have hfree := h.free
  rw [hdrop] at hfree
  obtain ⟨-, hfree'⟩ := kalloc_cons hfree
  have htaken : TakenPage (PageFaultOS.allocated w.image.mem page) rest page :=
    ⟨hfree.managed page List.mem_cons_self, hfree.ne_zero List.mem_cons_self,
      (List.nodup_cons.mp hfree.nodup).1⟩
  refine ⟨hlt, ?_, h.kernelEnd, h.proc, h.fs, h.user, fun k => ?_, ?_, h.freed, ?_, h.passed⟩
  · rw [← hrest]
    exact htaken.write hfree' m hm
  · rw [htake]
    have hlen : (l.take i).length = i := List.length_take_of_le hlt.le
    show Function.update w.argv i page k = _
    by_cases hk : k = i
    · subst hk
      rw [Function.update_self, List.getD_append_right _ _ _ _ hlen.le, hlen, Nat.sub_self]
      rfl
    · rw [Function.update_of_ne hk, h.argv]
      by_cases hki : k < i
      · rw [List.getD_append _ _ _ _ (by rw [hlen]; exact hki)]
      · rw [List.getD_eq_default _ _ (by rw [hlen]; omega), List.getD_eq_default]
        rw [List.length_append, hlen, List.length_singleton]
        omega
  · rw [htake]
    show w.allocated ++ [page] = _
    rw [h.allocated]
  · exact (((h.access hi).access hi).access hi).accessed

/-- From the pointer with index `i` on the arguments stop well. -/
def StopsFrom (w₀ : ExecveWorld σ) (uargv : BitVec 64) (path : CStr) (free i : Nat) : Prop :=
  ∃ n, i ≤ n ∧ n < MAXARG ∧ n ≤ free ∧ (∀ k, i ≤ k → k < n → ArgFetched w₀ uargv k) ∧
    LoopEndsAt fs calAbPath w₀ uargv path free n

theorem stopsFrom_here {path : CStr} {free : Nat} (hi : i < MAXARG) (hcount : i ≤ free)
    (h : ¬ ArgFetched w₀ uargv i) : StopsFrom fs calAbPath w₀ uargv path free i ↔
      LoopEndsAt fs calAbPath w₀ uargv path free i := by
  constructor
  · rintro ⟨n, hin, -, -, hfetched, hends⟩
    obtain rfl | hlt := Nat.eq_or_lt_of_le hin
    · exact hends
    · exact absurd (hfetched i (Nat.le_refl i) hlt) h
  · exact fun hends =>
      ⟨i, Nat.le_refl i, hi, hcount, fun k hk hk' => absurd hk (Nat.not_le.mpr hk'), hends⟩

theorem stopsFrom_next {path : CStr} {free : Nat} (h : ArgFetched w₀ uargv i) (hne : free ≠ i) :
    StopsFrom fs calAbPath w₀ uargv path free i ↔
      StopsFrom fs calAbPath w₀ uargv path free (i + 1) := by
  constructor
  · rintro ⟨n, hin, hn, hle, hfetched, hends⟩
    obtain rfl | hlt := Nat.eq_or_lt_of_le hin
    · obtain ⟨rfl, hno⟩ | ⟨-, ⟨hnull, -⟩ | ⟨-, hfree⟩⟩ := hends
      · exact absurd h.readable hno
      · exact absurd hnull h.pointer
      · exact absurd hfree hne
    · exact ⟨n, hlt, hn, hle, fun k hk => hfetched k (Nat.le_of_succ_le hk), hends⟩
  · rintro ⟨n, hin, hn, hle, hfetched, hends⟩
    refine ⟨n, Nat.le_of_succ_le hin, hn, hle, fun k hk hk' => ?_, hends⟩
    obtain rfl | hlt := Nat.eq_or_lt_of_le hk
    · exact h
    · exact hfetched k hlt hk'

/-- An index beyond the array. -/
theorem not_end_access (hi : ¬ i < MAXARG) (w : ExecveWorld σ) : ¬ ExecveEnd (w.access i) :=
  fun hend => hi (hend.inside i (List.mem_append_right _ (List.mem_singleton_self i)))

/-- The round at index `MAXARG` never ends well. -/
theorem fillRound_beyond (h : Filled w₀ l MAXARG w) (hu : uargv ≠ 0) :
    ∃ e v, fillRound uargv MAXARG w = .fault e v ∧ ¬ ExecveEnd v := by
  have hbeyond : ¬ MAXARG < MAXARG := Nat.lt_irrefl _
  by_cases hread : SlotReadable w uargv MAXARG
  swap
  · obtain ⟨e, hround⟩ := fillRound_unreadable (Nat.le_refl _) hu hread
    exact ⟨e, w, hround, fun hend => absurd (h.end_iff.mp hend) (by decide)⟩
  by_cases hnull : argPointer w uargv MAXARG = 0
  · refine ⟨.undefined "argv", w.access MAXARG, ?_, not_end_access hbeyond w⟩
    rw [fillRound_null (Nat.le_refl _) hu hread hnull]
    exact bind_fault (setArgv_beyond hbeyond w) _
  · have hkalloc : ∃ page v, kallocArg w = .ok page v := by
      unfold kallocArg
      obtain ⟨-, hrun⟩ | ⟨page, rest, -, hrun, -⟩ := kalloc_holds h.free
      · exact ⟨_, _, by rw [hrun]⟩
      · exact ⟨_, _, by rw [hrun]⟩
    obtain ⟨page, v, hrun⟩ := hkalloc
    refine ⟨.undefined "argv", v.access MAXARG, ?_, not_end_access hbeyond v⟩
    rw [fillRound_pointer (Nat.le_refl _) hu hread hnull]
    unfold fillPage
    rw [bind_ok hrun, bind_fault (setArgv_beyond hbeyond v)]

/-- The rest of the call, from the pointer with index `i` on. -/
theorem fill_iff (hl : FreeList w₀.image.mem l) (hu : uargv ≠ 0) (path : CStr) (d : Nat) :
    ∀ i w, i + d = MAXARG → Filled w₀ l i w →
      (EndsWell ((loop (fillRound uargv) (d + 2) i >>= execArgs fs calAbPath path) w) ↔
        StopsFrom fs calAbPath w₀ uargv path l.length i) := by
  induction d with
  | zero =>
    rintro i w rfl h
    obtain ⟨e, v, hround, hnot⟩ := fillRound_beyond h hu
    rw [bind_fault (loop_fault hround 1)]
    refine iff_of_false hnot ?_
    rintro ⟨n, hin, hn, -⟩
    exact absurd hn (Nat.not_lt.mpr hin)
  | succ d ih =>
    intro i w hd h
    have hi : i < MAXARG := by omega
    by_cases hread : SlotReadable w uargv i
    swap
    · -- the fetch of the pointer panics
      obtain ⟨e, hround⟩ := fillRound_unreadable hi.le hu hread
      rw [bind_fault (loop_fault hround _)]
      rw [h.readable_iff] at hread
      rw [stopsFrom_here fs calAbPath hi h.count fun hf => hread hf.readable]
      refine h.end_iff.trans ⟨fun h0 => ?_, ?_⟩
      · subst h0
        exact .inl ⟨rfl, hread⟩
      · rintro (⟨h0, -⟩ | ⟨hr, -⟩)
        · exact h0
        · exact absurd hr hread
    have hread₀ := (h.readable_iff i).mp hread
    by_cases hnull : argPointer w uargv i = 0
    · -- the end of the arguments
      have hround : fillRound uargv i w = .ok (.inr true) (w.store i 0) := by
        rw [fillRound_null hi.le hu hread hnull, bind_ok (setArgv_run hi 0 w)]
        rfl
      rw [h.pointer] at hnull
      rw [bind_ok (loop_done hround _), execArgs_filled fs calAbPath (h.terminate hi) hl hi,
        stopsFrom_here fs calAbPath hi h.count fun hf => hf.pointer hnull]
      constructor
      · exact fun hends => .inr ⟨hread₀, .inl ⟨hnull, hends⟩⟩
      · rintro (⟨h0, -⟩ | ⟨-, ⟨-, hends⟩ | ⟨hne, -⟩⟩)
        · exact .inl h0
        · exact hends
        · exact absurd hnull hne
    rw [h.pointer] at hnull
    have hptr : argPointer w uargv i ≠ 0 := by rwa [h.pointer]
    by_cases hlen : l.length = i
    · -- no page for the argument
      obtain ⟨v, hpage, hv⟩ := fillPage_empty h hi hlen (argPointer w uargv i)
      have hround := (fillRound_pointer hi.le hu hread hptr).trans hpage
      obtain ⟨w', hbad, hend⟩ := execArgs_bad fs calAbPath hv hl hi path
      rw [bind_ok (loop_done hround _), hbad]
      exact iff_of_true hend ⟨i, Nat.le_refl i, hi, h.count,
        fun k hk hk' => absurd hk (Nat.not_le.mpr hk'), .inr ⟨hread₀, .inr ⟨hnull, hlen⟩⟩⟩
    obtain ⟨page, rest, hdrop⟩ : ∃ page rest, l.drop i = page :: rest := by
      refine List.exists_cons_of_ne_nil fun hnil => ?_
      have hle := List.drop_eq_nil_iff.mp hnil
      exact hlen (Nat.le_antisymm hle h.count)
    have hround := (fillRound_pointer hi.le hu hread hptr).trans
      (fillPage_page h hi hdrop (argPointer w uargv i))
    by_cases hstr : Fetchable w (argPointer w uargv i) pgsize
    · obtain ⟨m, hfetch, hm⟩ := fetchPage_string (w := w.withPage i page) hstr page
      rw [bind_ok hfetch] at hround
      have hargs : ArgFetched w₀ uargv i :=
        ⟨hread₀, hnull, by rw [← h.pointer]; exact (h.fetchable_iff _ _).mp hstr⟩
      rw [stopsFrom_next fs calAbPath hargs hlen, bind_apply, loop_again hround, ← bind_apply]
      exact ih (i + 1) _ (by omega) (h.next hi hdrop hm)
    · -- the fetch of the string panics, and the page is lost
      obtain ⟨e, m, hfetch⟩ := fetchPage_none (w := w.withPage i page) hstr page
      rw [bind_fault hfetch] at hround
      have hmore : i < l.length := Nat.lt_of_le_of_ne h.count (Ne.symm hlen)
      have halloc : w.allocated ++ [page] = l.take (i + 1) := by
        have hcons := List.drop_eq_getElem_cons hmore
        rw [hdrop] at hcons
        rw [h.allocated, List.take_succ_eq_append_getElem hmore, (List.cons.inj hcons).1]
      rw [bind_fault (loop_fault hround _), stopsFrom_here fs calAbPath hi h.count fun hf =>
        hstr ((h.fetchable_iff _ _).mpr (by rw [h.pointer]; exact hf.string))]
      refine iff_of_false (Filled.not_end hmore (Nat.succ_ne_zero i) halloc h.freed) ?_
      rintro (⟨h0, hno⟩ | ⟨-, ⟨hzero, -⟩ | ⟨-, hfree⟩⟩)
      · rw [h0] at hread₀
        exact hno hread₀
      · exact hnull hzero
      · exact hlen hfree

/-- The empty array. -/
theorem ExecveStart.filled (h : ExecveStart w l) : Filled w l 0 { w with argv := fun _ => 0 } := by
  refine ⟨Nat.zero_le _, h.free, rfl, rfl, rfl, rfl, fun _ => rfl, h.allocated, h.freed, ?_,
    h.passed⟩
  intro k hk
  rw [show ({ w with argv := fun _ => 0 } : ExecveWorld σ).accessed = [] from h.accessed] at hk
  exact absurd hk List.not_mem_nil

/-- The loop, from its start. -/
theorem fillArgs_iff (h : ExecveStart w l) (hu : uargv ≠ 0) (path : CStr) :
    EndsWell ((fillArgs uargv >>= execArgs fs calAbPath path) w) ↔
      ArgsStop fs calAbPath w uargv path l.length := by
  have hrun : (fillArgs uargv >>= execArgs fs calAbPath path) w =
      (loop (fillRound uargv) (MAXARG + 2) 0 >>= execArgs fs calAbPath path)
        { w with argv := fun _ => 0 } := rfl
  rw [hrun, fill_iff fs calAbPath h.free hu path MAXARG 0 _ (Nat.zero_add _) h.filled]
  constructor
  · rintro ⟨n, -, hn, hle, hfetched, hends⟩
    exact ⟨n, hn, hle, fun k hk => hfetched k (Nat.zero_le k) hk, hends⟩
  · rintro ⟨n, hn, hle, hfetched, hends⟩
    exact ⟨n, Nat.zero_le n, hn, hle, fun k _ hk => hfetched k hk, hends⟩

/-- Without an array of pointers `exec` is called at once. -/
theorem fillArgs_null (h : ExecveStart w l) (path : CStr) :
    EndsWell ((fillArgs 0 >>= execArgs fs calAbPath path) w) := by
  have hzero : 0 < MAXARG := by decide
  have hround : fillRound 0 0 { w with argv := fun _ => 0 } =
      .ok (.inr true) (({ w with argv := fun _ => 0 } : ExecveWorld σ).store 0 0) := by
    have hset : @fillRound σ 0 0 = (setArgv 0 0 >>= fun _ => pure (.inr true)) := rfl
    rw [hset, bind_ok (setArgv_run hzero 0 _)]
    rfl
  have hrun : (fillArgs 0 >>= execArgs fs calAbPath path) w =
      execArgs fs calAbPath path true
        (({ w with argv := fun _ => 0 } : ExecveWorld σ).store 0 0) :=
    bind_ok (loop_done hround (MAXARG + 1)) _
  rw [hrun]
  exact (execArgs_filled fs calAbPath (h.filled.terminate hzero) h.free hzero path).mpr (.inl rfl)

end Fill

section Call
variable {w : ExecveWorld σ} {l : List Nat}

/-- The path of the call. -/
def ExecveWorld.path (w : ExecveWorld σ) : CStr := cstringAt w.user w.trapframe.a0.toNat MAXPATH

theorem fetchPath_string (h : Fetchable w w.trapframe.a0 MAXPATH) :
    fetchLocal (argstr 0 0 (BitVec.ofNat 32 MAXPATH)) (fun m => cstringAt m 0 MAXPATH) w =
      .ok (0, w.path) w := by
  obtain ⟨hpass, n, hn, hstr⟩ := h
  have hmax : (n : Int) < (BitVec.ofNat 32 MAXPATH).toInt := by
    have hint : (BitVec.ofNat 32 MAXPATH).toInt = 64 := rfl
    have hsize : MAXPATH = 64 := rfl
    omega
  have hrun : argstr 0 0 (BitVec.ofNat 32 MAXPATH) (w.entry fun _ => 0) =
      .ok 0 ((w.entry fun _ => 0).withCopied 0 w.trapframe.a0.toNat (n + 1)) :=
    (argstr_run rfl 0 _).trans (fetchstr_run hstr hmax hpass)
  have hcopied : ∀ k ≤ n, ((w.entry fun _ => 0).withCopied 0 w.trapframe.a0.toNat (n + 1)).mem
      (0 + k) = w.user (w.trapframe.a0.toNat + k) := by
    intro k hk
    show (if 0 ≤ 0 + k ∧ 0 + k < 0 + (n + 1) then
      w.user (w.trapframe.a0.toNat + (0 + k - 0)) else _) = _
    rw [if_pos (by omega), Nat.zero_add, Nat.sub_zero]
  have hpath : cstringAt ((w.entry fun _ => 0).withCopied 0 w.trapframe.a0.toNat (n + 1)).mem 0
      MAXPATH = w.path :=
    cstringAt_congr MAXPATH hcopied ((hcopied n (Nat.le_refl n)).trans hstr.nul) hn
  unfold fetchLocal
  rw [hrun]
  show Res.ok (0, cstringAt _ 0 MAXPATH) w = _
  rw [hpath]

theorem fetchPath_none (h : ¬ Fetchable w w.trapframe.a0 MAXPATH) : ∃ e,
    fetchLocal (argstr 0 0 (BitVec.ofNat 32 MAXPATH)) (fun m => cstringAt m 0 MAXPATH) w =
      .fault e w := by
  have hint : (BitVec.ofNat 32 MAXPATH).toInt = 64 := rfl
  have hnone : ¬ (w.trapframe.a0 + 8 < (w.entry fun _ => 0).sz ∧ ∃ n : Nat,
      StringAt (w.entry fun _ => 0) w.trapframe.a0.toNat n ∧
        (n : Int) < (BitVec.ofNat 32 MAXPATH).toInt) := by
    rintro ⟨hpass, n, hn, hlt⟩
    have hsize : MAXPATH = 64 := rfl
    exact h ⟨hpass, n, by omega, hn⟩
  obtain ⟨e, t, hfault⟩ := fetchstr_faults 0 (by rw [hint]; decide) hnone
  have hrun : argstr 0 0 (BitVec.ofNat 32 MAXPATH) (w.entry fun _ => 0) = .fault e t :=
    (argstr_run rfl 0 _).trans hfault
  refine ⟨e, ?_⟩
  unfold fetchLocal
  rw [hrun]

/-- Before the loop there is nothing to free. -/
theorem ExecveStart.ends (h : ExecveStart w l) : ExecveEnd w := by
  refine ⟨fun i hi => ?_, fun argv hargv => ?_, ?_⟩
  · rw [h.accessed] at hi
    exact absurd hi List.not_mem_nil
  · rw [h.passed] at hargv
    cases hargv
  · rw [h.allocated, h.freed]

theorem sysExecve_tail (h : Fetchable w w.trapframe.a0 MAXPATH) :
    sysExecve fs calAbPath w = (if w.path.length < 1 then pure (-1) else
      fillArgs w.trapframe.a1 >>= execArgs fs calAbPath w.path) w :=
  bind_ok (fetchPath_string h) _

/-- The call leaves its array and its pages well if and only if it fills fewer than `MAXARG`
entries and gets to its end, or takes no page. -/
theorem execve_meets_iff (h : ExecveStart w l) : ExecveMeets fs calAbPath w ↔
    (Fetchable w w.trapframe.a0 MAXPATH → w.path ≠ [] → w.trapframe.a1 ≠ 0 →
      ArgsStop fs calAbPath w w.trapframe.a1 w.path l.length) := by
  unfold ExecveMeets
  by_cases hstr : Fetchable w w.trapframe.a0 MAXPATH
  swap
  · obtain ⟨e, hfetch⟩ := fetchPath_none hstr
    have hrun : sysExecve fs calAbPath w = .fault e w := bind_fault hfetch _
    rw [hrun]
    exact iff_of_true h.ends fun hstr' => absurd hstr' hstr
  rw [sysExecve_tail fs calAbPath hstr]
  by_cases hpath : w.path = []
  · have hlen : w.path.length < 1 := by
      rw [hpath]
      exact Nat.one_pos
    rw [if_pos hlen]
    exact iff_of_true h.ends fun _ hne => absurd hpath hne
  have hlen : ¬ w.path.length < 1 := fun hlt =>
    hpath (List.length_eq_zero_iff.mp (Nat.lt_one_iff.mp hlt))
  rw [if_neg hlen]
  by_cases hu : w.trapframe.a1 = 0
  · rw [hu]
    exact iff_of_true (fillArgs_null fs calAbPath h w.path) fun _ _ hne => absurd rfl hne
  · rw [fillArgs_iff fs calAbPath h hu]
    exact ⟨fun hstop _ _ _ => hstop, fun hstop => hstop hstr hpath hu⟩

end Call

end

/-- The `n` pointers from address `256` on, all to the string at `16`. -/
def userArgs (n : Nat) : Mem := fun a =>
  if a = 16 ∨ 256 ≤ a ∧ a < 256 + 8 * n ∧ a % 8 = 0 then 16 else 0

def argPages : List Nat := (List.range 40).map fun i => 0x80400000 + 4096 * i

/-- A process of one page that calls with `n` arguments. -/
def callWorld (n : Nat) : ExecveWorld Unit where
  image := ⟨withFree 0x80200000 argPages, ⟨0x80300000, 0x80301000, 4096, 0x80302000, []⟩, 0, ()⟩
  trapframe := ⟨16, 256, 0, 0, 0, 0, 0, 0⟩
  user := userArgs n
  argv := fun _ => 0
  accessed := []
  allocated := []
  freed := []
  passed := none

section
variable {n : Nat}

theorem callWorld_start (n : Nat) : ExecveStart (callWorld n) argPages := by
  refine ⟨withFree_freeList (by decide) fun p hp => ?_, rfl, rfl, rfl, rfl⟩
  obtain ⟨i, hi, rfl⟩ := List.mem_map.mp hp
  have hlt := List.mem_range.mp hi
  have hphys : phystop = 0x80600000 := rfl
  exact ⟨⟨by omega, by omega, by omega⟩, by omega⟩

theorem callWorld_fetchable {max : Nat} (hmax : 1 < max) :
    Fetchable (callWorld n) 16 max := by
  have hpass : (16 : BitVec 64) + 8 < BitVec.ofNat 64 (callWorld n).image.proc.sz := by
    show (16 : BitVec 64) + 8 < BitVec.ofNat 64 4096
    decide
  refine ⟨hpass, 1, hmax, fun i hi => ?_, ?_, ?_⟩
  · obtain rfl : i = 0 := by omega
    show userArgs n 16 ≠ 0
    unfold userArgs
    rw [if_pos (.inl rfl)]
    decide
  · show userArgs n 17 = 0
    unfold userArgs
    rw [if_neg (by omega)]
  · show 17 < (BitVec.ofNat 64 4096).toNat
    decide

theorem callWorld_path : (callWorld n).path = [16] := by
  have hfirst : userArgs n 16 = 16 := if_pos (.inl rfl)
  have hnul : userArgs n 17 = 0 := if_neg (by omega)
  have hload : load (userArgs n) 16 64 = 16 :: 0 :: load (userArgs n) 18 62 := by
    rw [load_succ, load_succ, hfirst, hnul]
  show (load (userArgs n) 16 64).takeWhile (· ≠ 0) = [16]
  rw [hload]
  rfl

theorem callWorld_readable {k : Nat} (hk : k < 33) : SlotReadable (callWorld n) 256 k := by
  have hslot : ∀ k < 33, argSlot 256 k + 8 < (BitVec.ofNat 64 4096).toNat := by decide
  exact hslot k hk

end

/-- One argument, and a file that is no ELF file. -/
theorem execve_meets_one : ExecveMeets (memFile zeroFile) id (callWorld 1) := by
  have hpointer : argPointer (callWorld 1) 256 0 = 16 := by decide +kernel
  have hnull : argPointer (callWorld 1) 256 1 = 0 := by decide +kernel
  refine (execve_meets_iff (memFile zeroFile) id (callWorld_start 1)).mpr fun _ _ _ => ?_
  refine ⟨1, by decide, by decide, fun k hk => ?_, .inr ⟨callWorld_readable (by decide), .inl
    ⟨hnull, .inr (.inr ⟨by decide, zeroFile_stops _ _⟩)⟩⟩⟩
  obtain rfl : k = 0 := by omega
  refine ⟨callWorld_readable (by decide), ?_, ?_⟩
  · exact hpointer.trans_ne (by decide)
  · show Fetchable (callWorld 1) (argPointer (callWorld 1) 256 0) pgsize
    rw [hpointer]
    exact callWorld_fetchable (by decide)

/-- With `MAXARG` arguments the null pointer is stored behind the array. -/
theorem execve_beyond_argv : ¬ ExecveMeets (memFile zeroFile) id (callWorld 32) := by
  have hpointers : ∀ k < 32, argPointer (callWorld 32) 256 k ≠ 0 := by decide +kernel
  have hstart := callWorld_start 32
  unfold ExecveMeets
  rw [sysExecve_tail _ _ (callWorld_fetchable (by decide)), callWorld_path, if_neg (by decide)]
  show ¬ EndsWell ((fillArgs 256 >>= execArgs (memFile zeroFile) id [16]) (callWorld 32))
  rw [fillArgs_iff _ _ hstart (by decide)]
  rintro ⟨n, hn, -, -, ⟨rfl, hno⟩ | ⟨-, ⟨hzero, -⟩ | ⟨-, hfree⟩⟩⟩
  · exact hno (callWorld_readable (by decide))
  · exact hpointers n hn hzero
  · have hlen : argPages.length = 40 := by decide
    have hmax : MAXARG = 32 := rfl
    omega

end PageFaultOS
