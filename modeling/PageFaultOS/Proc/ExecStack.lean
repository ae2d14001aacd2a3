import Mathlib.Tactic
import PageFaultOS.Mm.UserRange
import PageFaultOS.Proc.Exec

/-! The part of `exec` that puts the arguments on the stack, with its calls of `copyout` and its
stores to `ustack` recorded. The stack is one page, `[sz - PGSIZE, sz)`. `sp` is compared with the
start of the page only after it was lowered, as an unsigned number. -/

namespace PageFaultOS
open Exec Exec.Comp ByteMem

/-- Memory, the calls of `copyout` so far, the array `ustack`, and the indices stored to. -/
structure StackWorld where
  mem : MemState
  calls : List (Nat × List UInt8)
  ustack : Nat → Nat
  written : List Nat

abbrev StackComp := Comp StackWorld

def StackWorld.called (w : StackWorld) (dst : Nat) (src : List UInt8) (m : MemState) :
    StackWorld :=
  { w with mem := m, calls := w.calls ++ [(dst, src)] }

def callCopyout (pagetable dst : Nat) (src : List UInt8) : StackComp Int := fun w =>
  match copyoutAt pagetable dst src w.mem with
  | .ok r m => .ok r (w.called dst src m)
  | .fault e m => .fault e (w.called dst src m)

def StackWorld.withUstack (w : StackWorld) (i v : Nat) : StackWorld :=
  { w with ustack := Function.update w.ustack i v, written := w.written ++ [i] }

def setUstack (i v : Nat) : StackComp Unit := modify fun w => w.withUstack i v

/-- The loop over the argument strings, with those of `argv` to go. -/
def pushArgv (pagetable stackbase : Nat) : List CStr → Nat → Nat → StackComp (Option Nat)
  | [], argc, sp => do
    setUstack argc 0
    pure (some sp)
  | arg :: argv, argc, sp => do
    if MAXARG ≤ argc then pure none
    else do
      let sp := pushDown sp (arg.length + 1)
      if sp < stackbase then pure none
      else do
        let r ← callCopyout pagetable sp (arg ++ [0])
        if r < 0 then pure none
        else do
          setUstack argc sp
          pushArgv pagetable stackbase argv (argc + 1) sp

/-- The first `n` entries in memory. -/
def ustackBytes (ustack : Nat → Nat) (n : Nat) : List UInt8 :=
  ((List.range n).map ustack).flatMap fun v => leBytes v 8

def pushUstack (pagetable stackbase argc sp : Nat) : StackComp (Option (Nat × Nat)) := do
  let sp := pushDown sp (8 * (argc + 1))
  if sp < stackbase then pure none
  else do
    let w ← read
    let r ← callCopyout pagetable sp (ustackBytes w.ustack (argc + 1))
    if r < 0 then pure none
    else pure (some (argc, sp))

/-- From `sp = sz` on: `argc` and `sp`. -/
def pushAll (pagetable sz : Nat) (argv : List CStr) : StackComp (Option (Nat × Nat)) := do
  let stackbase := u64 (sz + (2 ^ 64 - pgsize))
  match ← pushArgv pagetable stackbase argv 0 sz with
  | none => pure none
  | some sp => pushUstack pagetable stackbase argv.length sp

/-- The two calls have no byte in common. -/
def CallsApart (c d : Nat × List UInt8) : Prop :=
  c.1 + c.2.length ≤ d.1 ∨ d.1 + d.2.length ≤ c.1

/-- What is on the stack in the end. -/
structure Pushed (pagetable sz : Nat) (argv : List CStr) (argc sp : Nat) (w : StackWorld) :
    Prop where
  count : argc = argv.length
  inside : ∀ c ∈ w.calls, sz - pgsize ≤ c.1 ∧ c.1 + c.2.length ≤ sz
  apart : w.calls.Pairwise CallsApart
  aligned : sp % 16 = 0
  pointers : ∃ addrs : List Nat,
    userBytes w.mem.mem pagetable sp (8 * (argc + 1)) =
      (addrs ++ [0]).flatMap (fun v => leBytes v 8) ∧
    List.Forall₂ (fun a s => userBytes w.mem.mem pagetable a (s.length + 1) = s ++ [0]) addrs argv

/-- `ustack` is not initialised. -/
def stackStart (σ : MemState) (ustack : Nat → Nat) : StackWorld := ⟨σ, [], ustack, []⟩

/-- The arguments are pushed, or `exec` goes to its failure exit. -/
def PushMeets (pagetable sz : Nat) (argv : List CStr) (σ : MemState) (ustack : Nat → Nat) : Prop :=
  (pushAll pagetable sz argv (stackStart σ ustack)).Holds
    (fun r w => (∀ i ∈ w.written, i < MAXARG + 1) ∧
      ∀ argc sp, r = some (argc, sp) → Pushed pagetable sz argv argc sp w)
    (fun _ _ => False)

def roundUp16 (n : Nat) : Nat := (n + 15) / 16 * 16

/-- The bytes of the strings on the stack. -/
def argBytes (argv : List CStr) : Nat := (argv.map fun s => roundUp16 (s.length + 1)).sum

/-- The bytes of all that is pushed, up to the argument that is one too many. -/
def stackBytes (argv : List CStr) : Nat :=
  argBytes (argv.take MAXARG) +
    if argv.length ≤ MAXARG then roundUp16 (8 * (argv.length + 1)) else 0

/-! ## The stack pointer -/

theorem pushDown_fits {sp n : Nat} (h16 : sp % 16 = 0) (hsp : sp < 2 ^ 64) (hn : n ≤ sp) :
    pushDown sp n = sp - roundUp16 n ∧ roundUp16 n ≤ sp := by
  have hsum : u64 (sp + (2 ^ 64 - n)) = sp - n := by
    unfold u64
    omega
  unfold roundUp16
  simp only [pushDown, hsum]
  omega

/-- A pointer that is lowered below `0` ends up above all user addresses. -/
theorem pushDown_wraps {sp n : Nat} (hn : sp < n) (hle : n ≤ 2 ^ 32) :
    2 ^ 63 ≤ pushDown sp n ∧ pushDown sp n < 2 ^ 64 := by
  have hsum : u64 (sp + (2 ^ 64 - n)) = sp + (2 ^ 64 - n) := by
    unfold u64
    omega
  simp only [pushDown, hsum]
  omega

theorem le_roundUp16 (n : Nat) : n ≤ roundUp16 n := by
  unfold roundUp16
  omega

theorem argBytes_cons (s : CStr) (argv : List CStr) :
    argBytes (s :: argv) = roundUp16 (s.length + 1) + argBytes argv := by
  unfold argBytes
  rw [List.map_cons, List.sum_cons]

theorem argBytes_append (xs ys : List CStr) : argBytes (xs ++ ys) = argBytes xs + argBytes ys := by
  unfold argBytes
  rw [List.map_append, List.sum_append]

theorem ustackBytes_length (ustack : Nat → Nat) (n : Nat) :
    (ustackBytes ustack n).length = 8 * n := by
  unfold ustackBytes leBytes
  simp [List.length_flatMap, Function.comp_def]
  omega

/-! ## One call of `copyout` -/

section Call
variable {m m' : Mem} {pagetable base va : Nat} {src : List UInt8} {σ : MemState}

theorem passed_page (h : Passed m pagetable base) (hv : va / 4096 * 4096 = base) :
    Passed m pagetable va := by
  obtain ⟨⟨hbelow, hfound, hentry⟩, hframe⟩ := h
  subst hv
  rw [maxva_eq] at hbelow
  rw [pteAddr_page] at hfound
  rw [pteOf_page] at hentry
  refine ⟨⟨?_, hfound, hentry⟩, ?_⟩
  · rw [maxva_eq]
    omega
  · rwa [frame, pteOf_page] at hframe

theorem framesDistinct_page (hbase : base % 4096 = 0) : FramesDistinct m pagetable base 4096 :=
  fun v w _ _ _ _ _ => by omega

/-- A call for a part of a page that is mapped. -/
theorem copyout_passed (hal : pagetable % 4096 = 0) (hbase : base % 4096 = 0)
    (h : Passed σ.mem pagetable base)
    (hout : NotInTable σ.mem pagetable (frame σ.mem pagetable base)) (hle : base ≤ va)
    (hend : va + src.length ≤ base + 4096) :
    ∃ σ', copyout pagetable va src σ = .ok 0 σ' ∧ CopiedTo pagetable va src σ.mem σ'.mem := by
  have hbelow := h.1.below
  rw [maxva_eq] at hbelow
  have hpage : ∀ v, va ≤ v → v < va + src.length → v / 4096 * 4096 = base := by
    intro v hv hv'
    omega
  refine copyout_range pageRounds σ va src ?_ ⟨hal, ?_, fun v hv hv' => ?_⟩ (fun v w => ?_)
    fun v hv hv' => ?_
  · unfold pageRounds
    omega
  · rw [maxva_eq]
    omega
  · exact passed_page h (hpage v hv hv')
  · intro hv hv' hw hw' _
    have hv'' := hpage v hv hv'
    have hw'' := hpage w hw hw'
    omega
  · have hframe : frame σ.mem pagetable v = frame σ.mem pagetable base :=
      frame_page (by rw [← hpage v hv hv', Nat.mul_div_cancel _ (by decide)])
    rw [hframe]
    exact hout

/-- A call for a page whose frame is `0` fails. -/
theorem copyout_refused (hal : pagetable % 4096 = 0) (h : Refused σ.mem pagetable base)
    (hva : pgrounddown va = base) (hbase : base % 4096 = 0) (hsrc : 0 < src.length) :
    copyout pagetable va src σ = .ok (-1) σ := by
  have hround : copyoutRound pagetable (va, src) σ = .ok (.inr (-1)) σ := by
    obtain ⟨_, hget⟩ | ⟨hnot, _⟩ := kGetKaddr_page (σ := σ) hal hbase
    · rw [h.2] at hget
      simp only [copyoutRound, hva]
      rw [if_neg (not_not_intro hsrc), bind_ok hget, if_pos rfl]
      rfl
    · exact absurd h.1 hnot
  unfold copyout
  rw [pageRounds]
  exact loop_done hround _

/-- A call for a page without an entry panics. -/
theorem copyout_unlooked (hal : pagetable % 4096 = 0) (hva : pgrounddown va = base)
    (hbase : base % 4096 = 0) (h : ¬ Looked σ.mem pagetable base) (hsrc : 0 < src.length) :
    ∃ e σ', copyout pagetable va src σ = .fault e σ' := by
  obtain ⟨hlooked, _⟩ | ⟨_, msg, hget⟩ := kGetKaddr_page (σ := σ) hal hbase
  · exact absurd hlooked h
  · have hround : copyoutRound pagetable (va, src) σ = .fault (.panic msg) σ := by
      simp only [copyoutRound, hva]
      rw [if_neg (not_not_intro hsrc), bind_fault hget]
    refine ⟨.panic msg, σ, ?_⟩
    unfold copyout
    rw [pageRounds]
    exact loop_fault hround _

/-- What has been copied is there. -/
theorem CopiedTo.bytes (h : CopiedTo pagetable va src m m') :
    userBytes m' pagetable va src.length = src := by
  refine List.ext_getElem userBytes_length fun i hi hi' => ?_
  rw [userBytes_getElem, ← h.stored i hi', ← userAddr_same h.table]
  rfl

/-- What lies elsewhere in the page is as before. -/
theorem CopiedTo.bytes_apart (h : CopiedTo pagetable va src m m') (hbase : base % 4096 = 0)
    (hle : base ≤ va) (hend : va + src.length ≤ base + 4096) {a n : Nat} (ha : base ≤ a)
    (han : a + n ≤ base + 4096) (hapart : a + n ≤ va ∨ va + src.length ≤ a) :
    userBytes m' pagetable a n = userBytes m pagetable a n := by
  refine List.ext_getElem (by rw [userBytes_length, userBytes_length]) fun i hi hi' => ?_
  rw [userBytes_length] at hi
  rw [userBytes_getElem, userBytes_getElem]
  have hother : m' (userAddr m pagetable (a + i)) = m (userAddr m pagetable (a + i)) := by
    refine h.others _ fun j hj => ?_
    obtain ⟨x, rfl⟩ := Nat.exists_eq_add_of_le hle
    obtain ⟨y, rfl⟩ := Nat.exists_eq_add_of_le ha
    rw [Nat.add_assoc, Nat.add_assoc]
    exact (framesDistinct_page hbase).userAddr_ne (by omega) (by omega) (by omega)
  have hsame := userAddr_same h.table (a + i)
  exact (congrArg m' hsame).trans hother

end Call

/-! ## The calls so far -/

/-- The stack page is mapped, to a frame that is no page of the table. -/
structure StackPage (m : Mem) (pagetable base : Nat) : Prop where
  null : pagetable ≠ 0
  aligned : pagetable % 4096 = 0
  start : base % 4096 = 0
  passed : Passed m pagetable base
  outside : NotInTable m pagetable (frame m pagetable base)

theorem StackPage.same {m m' : Mem} {pagetable base : Nat} (h : StackPage m pagetable base)
    (hsame : TableSame m m' pagetable) : StackPage m' pagetable base := by
  refine ⟨h.null, h.aligned, h.start, ⟨(hsame.looked base).mpr h.passed.1, ?_⟩, ?_⟩
  · rw [frame, hsame.pteOf]
    exact h.passed.2
  · rw [hsame.notIn_iff, frame, hsame.pteOf]
    exact h.outside

/-- What has been copied so far lies from `sp` on in the page, and it is still there. -/
structure CallLog (pagetable base sp : Nat) (w : StackWorld) : Prop where
  page : StackPage w.mem.mem pagetable base
  low : base ≤ sp
  high : sp ≤ base + 4096
  inside : ∀ c ∈ w.calls, sp ≤ c.1 ∧ c.1 + c.2.length ≤ base + 4096
  apart : w.calls.Pairwise CallsApart
  stored : ∀ c ∈ w.calls, userBytes w.mem.mem pagetable c.1 c.2.length = c.2

section Log
variable {pagetable base sp dst : Nat} {w : StackWorld}

/-- One more call below `sp`. -/
theorem CallLog.push (h : CallLog pagetable base sp w) (src : List UInt8) (hlow : base ≤ dst)
    (hend : dst + src.length ≤ sp) :
    ∃ m, callCopyout pagetable dst src w = .ok 0 (w.called dst src m) ∧
      CallLog pagetable base dst (w.called dst src m) := by
  have hhigh := h.high
  obtain ⟨σ', hrun, hcopied⟩ := copyout_passed h.page.aligned h.page.start h.page.passed
    h.page.outside hlow (by omega : dst + src.length ≤ base + 4096)
  have hcall : callCopyout pagetable dst src w = .ok 0 (w.called dst src σ') := by
    unfold callCopyout copyoutAt
    rw [if_neg fun hnull => h.page.null hnull.1, hrun]
  refine ⟨σ', hcall, h.page.same hcopied.table, hlow, by omega, ?_, ?_, ?_⟩
  · intro c hc
    obtain hc | hc := List.mem_append.mp hc
    · obtain ⟨hsp, hc'⟩ := h.inside c hc
      exact ⟨by omega, hc'⟩
    · obtain rfl := List.mem_singleton.mp hc
      exact ⟨Nat.le_refl dst, by dsimp only; omega⟩
  · refine List.pairwise_append.mpr ⟨h.apart, List.pairwise_singleton _ _, fun c hc d hd => ?_⟩
    obtain rfl := List.mem_singleton.mp hd
    have hsp := (h.inside c hc).1
    exact .inr (by dsimp only; omega)
  · intro c hc
    obtain hc | hc := List.mem_append.mp hc
    · obtain ⟨hsp, hc'⟩ := h.inside c hc
      exact (hcopied.bytes_apart h.page.start hlow (by omega) (by omega) hc'
        (.inr (by omega))).trans (h.stored c hc)
    · obtain rfl := List.mem_singleton.mp hc
      exact hcopied.bytes

/-- A call through the table at `NULL`. -/
theorem callCopyout_null (w : StackWorld) (dst : Nat) {src : List UInt8} (hsrc : 0 < src.length) :
    ∃ e w', callCopyout 0 dst src w = .fault e w' := by
  have hcopy : copyoutAt 0 dst src = walkNull (pgrounddown dst) := if_pos ⟨rfl, hsrc⟩
  unfold callCopyout
  cases hrun : copyoutAt 0 dst src w.mem with
  | ok r m =>
    rw [hcopy] at hrun
    exact absurd hrun (walkNull_faults _ _)
  | fault e m => exact ⟨e, _, rfl⟩

/-- A store to `ustack` is none to memory. -/
theorem CallLog.withUstack (h : CallLog pagetable base sp w) (i v : Nat) :
    CallLog pagetable base sp (w.withUstack i v) :=
  ⟨h.page, h.low, h.high, h.inside, h.apart, h.stored⟩

/-- A call far above the page panics. -/
theorem CallLog.wrapped (h : CallLog pagetable base sp w) {src : List UInt8}
    (hsrc : 0 < src.length) (hdst : 2 ^ 63 ≤ dst) (hlt : dst < 2 ^ 64) :
    ∃ e w', callCopyout pagetable dst src w = .fault e w' := by
  have hpage := pgrounddown_eq hlt
  have hunlooked : ¬ Looked w.mem.mem pagetable (dst / 4096 * 4096) := by
    intro hlooked
    have hbelow := hlooked.below
    rw [maxva_eq] at hbelow
    omega
  obtain ⟨e, σ', hrun⟩ :=
    copyout_unlooked h.page.aligned hpage (Nat.mul_mod_left _ _) hunlooked hsrc
  refine ⟨e, w.called dst src σ', ?_⟩
  unfold callCopyout copyoutAt
  rw [if_neg fun hnull => h.page.null hnull.1, hrun]

end Log

/-! ## The arguments -/

/-- The strings `done` have been pushed, to the addresses `addrs`. -/
structure ArgsDone (pagetable base : Nat) (done : List CStr) (addrs : List Nat) (sp : Nat)
    (w : StackWorld) : Prop where
  log : CallLog pagetable base sp w
  spot : sp + argBytes done = base + 4096
  aligned : sp % 16 = 0
  count : done.length ≤ MAXARG
  ustack : (List.range done.length).map w.ustack = addrs
  calls : w.calls = List.zipWith (fun a s => (a, s ++ [0])) addrs done
  written : ∀ i ∈ w.written, i < done.length

/-- The end of the loop: `ustack` has its `0`. -/
structure ArgsPushed (pagetable base : Nat) (argv : List CStr) (addrs : List Nat) (sp : Nat)
    (w : StackWorld) : Prop where
  log : CallLog pagetable base sp w
  spot : sp + argBytes argv = base + 4096
  aligned : sp % 16 = 0
  count : argv.length ≤ MAXARG
  ustack : (List.range (argv.length + 1)).map w.ustack = addrs ++ [0]
  calls : w.calls = List.zipWith (fun a s => (a, s ++ [0])) addrs argv
  written : ∀ i ∈ w.written, i < MAXARG + 1

section Args
variable {pagetable base sp : Nat} {done argv : List CStr} {addrs : List Nat} {arg : CStr}
  {w : StackWorld}

theorem range_map_update (f : Nat → Nat) (n v : Nat) :
    (List.range (n + 1)).map (Function.update f n v) = (List.range n).map f ++ [v] := by
  rw [List.range_succ, List.map_append, List.map_singleton, Function.update_self]
  congr 1
  refine List.map_congr_left fun i hi => Function.update_of_ne ?_ _ _
  have hlt := List.mem_range.mp hi
  omega

theorem ArgsDone.finish (h : ArgsDone pagetable base done addrs sp w) :
    ArgsPushed pagetable base done addrs sp (w.withUstack done.length 0) := by
  refine ⟨h.log.withUstack _ _, h.spot, h.aligned, h.count, ?_, h.calls, fun i hi => ?_⟩
  · rw [← h.ustack]
    exact range_map_update _ _ _
  · have hcount := h.count
    obtain hi | hi := List.mem_append.mp hi
    · have hlt := h.written i hi
      omega
    · have heq := List.mem_singleton.mp hi
      omega

/-- An argument that fits goes below the others. -/
theorem ArgsDone.push (h : ArgsDone pagetable base done addrs sp w)
    (hcount : done.length < MAXARG) (hfits : base + roundUp16 (arg.length + 1) ≤ sp) :
    ∃ m, callCopyout pagetable (sp - roundUp16 (arg.length + 1)) (arg ++ [0]) w =
        .ok 0 (w.called (sp - roundUp16 (arg.length + 1)) (arg ++ [0]) m) ∧
      ArgsDone pagetable base (done ++ [arg]) (addrs ++ [sp - roundUp16 (arg.length + 1)])
        (sp - roundUp16 (arg.length + 1))
        ((w.called (sp - roundUp16 (arg.length + 1)) (arg ++ [0]) m).withUstack done.length
          (sp - roundUp16 (arg.length + 1))) := by
  have hround := le_roundUp16 (arg.length + 1)
  have hspot := h.spot
  have haligned := h.aligned
  have hlength : (arg ++ [0]).length = arg.length + 1 := List.length_append
  have hlow : base ≤ sp - roundUp16 (arg.length + 1) := by omega
  obtain ⟨m, hcall, hlog⟩ := h.log.push (arg ++ [0]) hlow (by omega)
  refine ⟨m, hcall, hlog.withUstack _ _, ?_, ?_, ?_, ?_, ?_, fun i hi => ?_⟩
  · rw [argBytes_append, argBytes_cons]
    show _ + (_ + (_ + 0)) = _
    omega
  · unfold roundUp16
    omega
  · rw [List.length_append]
    exact hcount
  · rw [List.length_append, ← h.ustack]
    exact range_map_update _ _ _
  · have haddrs : addrs.length = done.length := by
      rw [← h.ustack, List.length_map, List.length_range]
    show w.calls ++ _ = _
    rw [h.calls, List.zipWith_append haddrs]
    rfl
  · rw [List.length_append]
    obtain hi | hi := List.mem_append.mp hi
    · exact Nat.lt_succ_of_lt (h.written i hi)
    · rw [List.mem_singleton.mp hi]
      exact Nat.lt_succ_self _

/-- Where the page starts at `0`, `n` bytes fit below `sp`. -/
def Below (base sp n : Nat) : Prop := base = 0 → n ≤ sp

/-- The loop over the arguments: it is done, it fails, or `sp` goes below `0` and it panics. -/
theorem pushArgv_run (argv : List CStr) (hargs : ∀ s ∈ argv, s.length + 1 ≤ 4096)
    (h : ArgsDone pagetable base done addrs sp w) :
    (Below base sp (argBytes (argv.take (MAXARG - done.length))) ∧
      ((∃ addrs' sp' w', pushArgv pagetable base argv done.length sp w = .ok (some sp') w' ∧
          ArgsPushed pagetable base (done ++ argv) addrs' sp' w') ∨
        (¬ (base = 0 ∧ (done ++ argv).length ≤ MAXARG) ∧
          ∃ w', pushArgv pagetable base argv done.length sp w = .ok none w' ∧
            ∀ i ∈ w'.written, i < MAXARG + 1))) ∨
    (¬ Below base sp (argBytes (argv.take (MAXARG - done.length))) ∧
      ∃ e w', pushArgv pagetable base argv done.length sp w = .fault e w') := by
  induction argv generalizing done addrs sp w with
  | nil =>
    refine .inl ⟨fun _ => ?_, .inl ⟨addrs, sp, w.withUstack done.length 0, rfl, ?_⟩⟩
    · rw [List.take_nil]
      exact Nat.zero_le sp
    · rw [List.append_nil]
      exact h.finish
  | cons arg argv ih =>
    have hlow := h.log.low
    have hhigh := h.log.high
    have hwritten : ∀ i ∈ w.written, i < MAXARG + 1 := fun i hi => by
      have hlt := h.written i hi
      have hcount := h.count
      omega
    have harg := hargs arg List.mem_cons_self
    have hbelow := h.log.page.passed.1.below
    have hstart := h.log.page.start
    rw [maxva_eq] at hbelow
    by_cases hmax : MAXARG ≤ done.length
    · -- one argument too many
      refine .inl ⟨fun _ => ?_, .inr ⟨fun hlen => ?_, w, ?_, hwritten⟩⟩
      · rw [Nat.sub_eq_zero_of_le hmax, List.take_zero]
        exact Nat.zero_le sp
      · have hlen' := hlen.2
        rw [List.length_append, List.length_cons] at hlen'
        omega
      · rw [pushArgv, if_pos hmax]
        rfl
    have htake : argBytes ((arg :: argv).take (MAXARG - done.length)) =
        roundUp16 (arg.length + 1) + argBytes (argv.take (MAXARG - (done ++ [arg]).length)) := by
      have hsucc : MAXARG - done.length = MAXARG - (done ++ [arg]).length + 1 := by
        rw [List.length_append, List.length_singleton]
        omega
      rw [hsucc, List.take_succ_cons, argBytes_cons]
    rw [htake]
    by_cases hfits : arg.length + 1 ≤ sp
    · obtain ⟨hdown, hround⟩ := pushDown_fits h.aligned (by omega) hfits
      by_cases hbase : sp - roundUp16 (arg.length + 1) < base
      · refine .inl ⟨fun h0 => by omega, .inr ⟨fun h0 => by omega, w, ?_, hwritten⟩⟩
        rw [pushArgv, if_neg hmax, hdown, if_pos hbase]
        rfl
      · have hfits' : base + roundUp16 (arg.length + 1) ≤ sp := by omega
        obtain ⟨m, hcall, hdone⟩ := h.push (Nat.lt_of_not_le hmax) hfits'
        have hnext : pushArgv pagetable base (arg :: argv) done.length sp w =
            pushArgv pagetable base argv (done ++ [arg]).length
              (sp - roundUp16 (arg.length + 1))
              ((w.called (sp - roundUp16 (arg.length + 1)) (arg ++ [0]) m).withUstack done.length
                (sp - roundUp16 (arg.length + 1))) := by
          rw [pushArgv, if_neg hmax, hdown, if_neg hbase, bind_ok hcall, if_neg (by decide),
            List.length_append]
          rfl
        have happend : done ++ arg :: argv = done ++ [arg] ++ argv := by
          rw [List.append_assoc, List.singleton_append]
        have hrest : Below base sp (roundUp16 (arg.length + 1) +
              argBytes (argv.take (MAXARG - (done ++ [arg]).length))) ↔
            Below base (sp - roundUp16 (arg.length + 1))
              (argBytes (argv.take (MAXARG - (done ++ [arg]).length))) := by
          unfold Below
          exact imp_congr_right fun _ => by omega
        rw [hnext, happend, hrest]
        exact ih (fun s hs => hargs s (List.mem_cons_of_mem _ hs)) hdone
    · -- only a page that starts at `0` is so low
      have hzero : base = 0 := by omega
      have hsp : ¬ pushDown sp (arg.length + 1) < base := by omega
      obtain ⟨hwrap, hlt⟩ := pushDown_wraps (Nat.lt_of_not_le hfits) (by omega)
      have hsrc : 0 < (arg ++ [0]).length := by
        rw [List.length_append]
        exact Nat.succ_pos _
      obtain ⟨e, w', hcall⟩ := h.log.wrapped hsrc hwrap hlt
      have hround := le_roundUp16 (arg.length + 1)
      refine .inr ⟨fun hbelow' => ?_, e, w', ?_⟩
      · have hle := hbelow' hzero
        omega
      · rw [pushArgv, if_neg hmax, if_neg hsp, bind_fault hcall]

/-- `ustack` on the stack. -/
theorem pushUstack_run (h : ArgsPushed pagetable base argv addrs sp w) :
    (Below base sp (roundUp16 (8 * (argv.length + 1))) ∧
      ((∃ sp' w', pushUstack pagetable base argv.length sp w = .ok (some (argv.length, sp')) w' ∧
          (∀ i ∈ w'.written, i < MAXARG + 1) ∧
          Pushed pagetable (base + 4096) argv argv.length sp' w') ∨
        pushUstack pagetable base argv.length sp w = .ok none w)) ∨
    (¬ Below base sp (roundUp16 (8 * (argv.length + 1))) ∧
      ∃ e w', pushUstack pagetable base argv.length sp w = .fault e w') := by
  have hlow := h.log.low
  have hhigh := h.log.high
  have hcount := h.count
  have hmax : MAXARG = 32 := rfl
  have hbelow := h.log.page.passed.1.below
  have hstart := h.log.page.start
  rw [maxva_eq] at hbelow
  have hlength := ustackBytes_length w.ustack (argv.length + 1)
  have hround := le_roundUp16 (8 * (argv.length + 1))
  by_cases hfits : 8 * (argv.length + 1) ≤ sp
  · obtain ⟨hdown, hle⟩ := pushDown_fits h.aligned (by omega) hfits
    refine .inl ⟨fun _ => hle, ?_⟩
    by_cases hbase : sp - roundUp16 (8 * (argv.length + 1)) < base
    · refine .inr ?_
      unfold pushUstack
      rw [hdown, if_pos hbase]
      rfl
    · have hlow' : base ≤ sp - roundUp16 (8 * (argv.length + 1)) := by omega
      obtain ⟨m, hcall, hlog⟩ :=
        h.log.push (ustackBytes w.ustack (argv.length + 1)) hlow' (by omega)
      have haddrs : addrs.length = argv.length := by
        have hlen := congrArg List.length h.ustack
        rw [List.length_map, List.length_range, List.length_append, List.length_singleton] at hlen
        omega
      have hstored := hlog.stored
      rw [StackWorld.called, h.calls] at hstored
      refine .inl ⟨sp - roundUp16 (8 * (argv.length + 1)), w.called _ _ m, ?_, h.written,
        rfl, ?_, hlog.apart, ?_, addrs, ?_, ?_⟩
      · unfold pushUstack
        rw [hdown, if_neg hbase, read_bind, bind_ok hcall, if_neg (by decide)]
        rfl
      · intro c hc
        obtain ⟨hle', hend⟩ := hlog.inside c hc
        exact ⟨by unfold pgsize; omega, hend⟩
      · have haligned := h.aligned
        unfold roundUp16
        omega
      · have hlast := hstored (_, _) (List.mem_append_right _ (List.mem_singleton_self _))
        dsimp only at hlast
        rwa [hlength, ustackBytes, h.ustack] at hlast
      · refine List.forall₂_iff_zip.mpr ⟨haddrs, fun {a s} hmem => ?_⟩
        have hcall' : (a, s ++ [0]) ∈ List.zipWith (fun a s => (a, s ++ [0])) addrs argv := by
          rw [← List.map_uncurry_zip_eq_zipWith]
          exact List.mem_map.mpr ⟨(a, s), hmem, rfl⟩
        have hbytes := hstored _ (List.mem_append_left _ hcall')
        dsimp only at hbytes
        rwa [List.length_append] at hbytes
  · have hzero : base = 0 := by omega
    have hsp : ¬ pushDown sp (8 * (argv.length + 1)) < base := by omega
    obtain ⟨hwrap, hlt⟩ := pushDown_wraps (Nat.lt_of_not_le hfits) (by omega)
    have hsrc : 0 < (ustackBytes w.ustack (argv.length + 1)).length := by omega
    obtain ⟨e, w', hcall⟩ := h.log.wrapped hsrc hwrap hlt
    refine .inr ⟨fun hbelow' => ?_, e, w', ?_⟩
    · have hle := hbelow' hzero
      omega
    · unfold pushUstack
      rw [if_neg hsp, read_bind, bind_fault hcall]

end Args

/-! ## The whole part -/

section Whole
variable {pagetable sz base : Nat} {argv : List CStr} {σ : MemState} {ustack : Nat → Nat}

theorem stackbase_eq (hlt : base + 4096 < 2 ^ 64) :
    u64 (base + 4096 + (2 ^ 64 - pgsize)) = base := by
  unfold u64 pgsize
  omega

/-- The first call is for a part of the stack page. -/
theorem pushAll_first (pagetable : Nat) (σ : MemState) (ustack : Nat → Nat)
    (hlt : base + 4096 < 2 ^ 64) (hbase : base % 4096 = 0) (hargs : ∀ s ∈ argv, s.length + 1 ≤ 4096) :
    ∃ w va src, w.mem = σ ∧ (∀ i ∈ w.written, i < MAXARG + 1) ∧ 0 < src.length ∧ base ≤ va ∧
      va + src.length ≤ base + 4096 ∧
      (∀ e w', callCopyout pagetable va src w = .fault e w' →
        pushAll pagetable (base + 4096) argv (stackStart σ ustack) = .fault e w') ∧
      ∀ w', callCopyout pagetable va src w = .ok (-1) w' →
        pushAll pagetable (base + 4096) argv (stackStart σ ustack) = .ok none w' := by
  have hsp : (base + 4096) % 16 = 0 := by omega
  cases argv with
  | nil =>
    obtain ⟨hdown, hround⟩ := pushDown_fits hsp hlt (by omega : 8 * (0 + 1) ≤ base + 4096)
    have h16 : roundUp16 (8 * (0 + 1)) = 16 := rfl
    rw [h16] at hdown
    have hargv : pushArgv pagetable base [] 0 (base + 4096) (stackStart σ ustack) =
        .ok (some (base + 4096)) ((stackStart σ ustack).withUstack 0 0) := rfl
    have hall : pushAll pagetable (base + 4096) [] (stackStart σ ustack) =
        pushUstack pagetable base 0 (base + 4096) ((stackStart σ ustack).withUstack 0 0) := by
      simp only [pushAll, stackbase_eq hlt]
      rw [bind_ok hargv]
      rfl
    have hlength := ustackBytes_length ((stackStart σ ustack).withUstack 0 0).ustack (0 + 1)
    have hlow : ¬ base + 4096 - 16 < base := by omega
    refine ⟨(stackStart σ ustack).withUstack 0 0, base + 4096 - 16,
      ustackBytes ((stackStart σ ustack).withUstack 0 0).ustack (0 + 1), rfl, fun i hi => ?_,
      ?_, ?_, ?_, fun e w' hcall => ?_, fun w' hcall => ?_⟩
    · rw [List.mem_singleton.mp hi]
      exact Nat.succ_pos _
    · omega
    · omega
    · omega
    · rw [hall]
      unfold pushUstack
      rw [hdown, if_neg hlow, read_bind, bind_fault hcall]
    · rw [hall]
      unfold pushUstack
      rw [hdown, if_neg hlow, read_bind, bind_ok hcall]
      rfl
  | cons arg argv =>
    have harg := hargs arg List.mem_cons_self
    obtain ⟨hdown, hround⟩ := pushDown_fits hsp hlt (by omega : arg.length + 1 ≤ base + 4096)
    have hle : roundUp16 (arg.length + 1) ≤ 4096 := by
      unfold roundUp16
      omega
    have hge := le_roundUp16 (arg.length + 1)
    have hlow : ¬ base + 4096 - roundUp16 (arg.length + 1) < base := by omega
    have hlength : (arg ++ [0]).length = arg.length + 1 := List.length_append
    refine ⟨stackStart σ ustack, base + 4096 - roundUp16 (arg.length + 1), arg ++ [0], rfl,
      nofun, by omega, by omega, by omega, fun e w' hcall => ?_, fun w' hcall => ?_⟩
    · have hargv : pushArgv pagetable base (arg :: argv) 0 (base + 4096) (stackStart σ ustack) =
          .fault e w' := by
        rw [pushArgv, if_neg (by decide), hdown, if_neg hlow, bind_fault hcall]
      simp only [pushAll, stackbase_eq hlt]
      rw [bind_fault hargv]
    · have hargv : pushArgv pagetable base (arg :: argv) 0 (base + 4096) (stackStart σ ustack) =
          .ok none w' := by
        rw [pushArgv, if_neg (by decide), hdown, if_neg hlow, bind_ok hcall]
        rfl
      simp only [pushAll, stackbase_eq hlt]
      rw [bind_ok hargv]
      rfl

/-- A run that panics is not what `exec` is for. -/
theorem not_pushMeets {e : Fault} {w : StackWorld}
    (h : pushAll pagetable sz argv (stackStart σ ustack) = .fault e w) :
    ¬ PushMeets pagetable sz argv σ ustack := by
  unfold PushMeets
  rw [h]
  exact id

theorem pushMeets_none {w : StackWorld}
    (h : pushAll pagetable sz argv (stackStart σ ustack) = .ok none w)
    (hwritten : ∀ i ∈ w.written, i < MAXARG + 1) : PushMeets pagetable sz argv σ ustack := by
  unfold PushMeets
  rw [h]
  exact ⟨hwritten, nofun⟩

/-- Where the stack page is mapped only a page at `0` is too small. -/
theorem pushAll_mapped (ustack : Nat → Nat) (h : StackPage σ.mem pagetable base)
    (hargs : ∀ s ∈ argv, s.length + 1 ≤ 4096) :
    (PushMeets pagetable (base + 4096) argv σ ustack ∧
      Below base (base + 4096) (stackBytes argv)) ∨
    (¬ PushMeets pagetable (base + 4096) argv σ ustack ∧
      ¬ Below base (base + 4096) (stackBytes argv)) := by
  have hbelow := h.passed.1.below
  have hstart := h.start
  rw [maxva_eq] at hbelow
  have hbase : u64 (base + 4096 + (2 ^ 64 - pgsize)) = base := stackbase_eq (by omega)
  have hdone : ArgsDone pagetable base [] [] (base + 4096) (stackStart σ ustack) :=
    ⟨⟨h, by omega, Nat.le_refl _, nofun, List.Pairwise.nil, nofun⟩, rfl, by omega,
      Nat.zero_le _, rfl, rfl, nofun⟩
  obtain ⟨hlow, ⟨addrs, sp, w, hrun, hpushed⟩ | ⟨hmany, w, hrun, hwritten⟩⟩ | ⟨hlow, e, w, hrun⟩ :=
    pushArgv_run argv hargs hdone
  · have hspot := hpushed.spot
    have hcount := hpushed.count
    rw [List.nil_append] at hspot hcount hpushed
    have hbytes : stackBytes argv = argBytes argv + roundUp16 (8 * (argv.length + 1)) := by
      unfold stackBytes
      rw [List.take_of_length_le hcount, if_pos hcount]
    have hall : pushAll pagetable (base + 4096) argv (stackStart σ ustack) =
        pushUstack pagetable base argv.length sp w := by
      simp only [pushAll, hbase]
      exact (bind_ok hrun _).trans rfl
    have hiff : Below base sp (roundUp16 (8 * (argv.length + 1))) ↔
        Below base (base + 4096) (stackBytes argv) := by
      unfold Below
      exact imp_congr_right fun _ => by omega
    rw [← hiff]
    obtain ⟨hlow', ⟨sp', w', hpush, hwritten, hmeets⟩ | hpush⟩ | ⟨hlow', e, w', hpush⟩ :=
      pushUstack_run hpushed
    · refine .inl ⟨?_, hlow'⟩
      unfold PushMeets
      rw [hall, hpush]
      refine ⟨hwritten, fun argc sp'' heq => ?_⟩
      cases heq
      exact hmeets
    · exact .inl ⟨pushMeets_none (hall.trans hpush) hpushed.written, hlow'⟩
    · exact .inr ⟨not_pushMeets (hall.trans hpush), hlow'⟩
  · have hall : pushAll pagetable (base + 4096) argv (stackStart σ ustack) = .ok none w := by
      simp only [pushAll, hbase]
      exact (bind_ok hrun _).trans rfl
    refine .inl ⟨pushMeets_none hall hwritten, fun hzero => ?_⟩
    have hlen : ¬ argv.length ≤ MAXARG := fun hle => hmany ⟨hzero, hle⟩
    unfold stackBytes
    rw [if_neg hlen]
    exact hlow hzero
  · have hall : pushAll pagetable (base + 4096) argv (stackStart σ ustack) = .fault e w := by
      simp only [pushAll, hbase]
      exact bind_fault hrun _
    refine .inr ⟨not_pushMeets hall, fun hfits => hlow fun hzero => ?_⟩
    have hle := hfits hzero
    unfold stackBytes at hle
    exact Nat.le_trans (Nat.le_add_right _ _) hle

/-- `exec` pushes its arguments, or fails, just where it has a page table with an entry for the
stack page, and where this is page `0`, there is room for all that it pushes. -/
theorem push_meets_iff (hal : pagetable % 4096 = 0) (hsz : sz % 4096 = 0) (hpage : pgsize ≤ sz)
    (hlt : sz < 2 ^ 64) (hargs : ∀ s ∈ argv, s.length + 1 ≤ pgsize)
    (hout : Passed σ.mem pagetable (sz - pgsize) →
      NotInTable σ.mem pagetable (frame σ.mem pagetable (sz - pgsize))) :
    PushMeets pagetable sz argv σ ustack ↔
      pagetable ≠ 0 ∧ Looked σ.mem pagetable (sz - pgsize) ∧
        (sz = pgsize → frame σ.mem pagetable 0 ≠ 0 → stackBytes argv ≤ pgsize) := by
  obtain ⟨base, rfl⟩ := Nat.exists_eq_add_of_le' hpage
  have hsub : base + pgsize - pgsize = base := Nat.add_sub_cancel _ _
  have hsize : pgsize = 4096 := rfl
  rw [hsub] at hout ⊢
  rw [hsize] at hsz hlt hargs ⊢
  have hbase : base % 4096 = 0 := by omega
  obtain ⟨w, va, src, hmem, hwritten, hsrc, hle, hend, hfault, hfail⟩ :=
    pushAll_first pagetable σ ustack hlt hbase hargs
  have hva : pgrounddown va = base := by
    rw [pgrounddown_eq (by omega)]
    omega
  by_cases hnull : pagetable = 0
  · subst hnull
    obtain ⟨e, w', hcall⟩ := callCopyout_null w va hsrc
    exact iff_of_false (not_pushMeets (hfault e w' hcall)) fun h => h.1 rfl
  have hrun : callCopyout pagetable va src w = match copyout pagetable va src w.mem with
      | .ok r m => .ok r (w.called va src m)
      | .fault e m => .fault e (w.called va src m) := by
    unfold callCopyout copyoutAt
    rw [if_neg fun h => hnull h.1]
  by_cases hlooked : Looked σ.mem pagetable base
  swap
  · rw [← hmem] at hlooked
    obtain ⟨e, m, hcopy⟩ := copyout_unlooked hal hva hbase hlooked hsrc
    rw [hcopy] at hrun
    exact iff_of_false (not_pushMeets (hfault _ _ hrun)) fun h => hlooked (hmem ▸ h.2.1)
  by_cases hframe : frame σ.mem pagetable base = 0
  · have hrefused : Refused w.mem.mem pagetable base := hmem ▸ ⟨hlooked, hframe⟩
    rw [copyout_refused hal hrefused hva hbase hsrc] at hrun
    refine iff_of_true (pushMeets_none (hfail _ hrun) hwritten) ⟨hnull, hlooked, ?_⟩
    intro hzero hne
    have hzero' : base = 0 := by omega
    rw [hzero'] at hframe
    exact absurd hframe hne
  · have hstack : StackPage σ.mem pagetable base :=
      ⟨hnull, hal, hbase, ⟨hlooked, hframe⟩, hout ⟨hlooked, hframe⟩⟩
    obtain ⟨hmeets, hfits⟩ | ⟨hnot, hfits⟩ := pushAll_mapped ustack hstack hargs
    · refine iff_of_true hmeets ⟨hnull, hlooked, fun hzero _ => ?_⟩
      have hzero' : base = 0 := by omega
      have hle' := hfits hzero'
      omega
    · refine iff_of_false hnot fun h => hfits fun hzero => ?_
      subst hzero
      have hle' := h.2.2 rfl hframe
      omega

end Whole

/-! ## `exec` without the record -/

section Forget
variable {pagetable base sz : Nat} {argv : List CStr} {w w' : StackWorld}

theorem callCopyout_eq {dst : Nat} {src : List UInt8} {r : Int}
    (h : callCopyout pagetable dst src w = .ok r w') :
    copyoutAt pagetable dst src w.mem = .ok r w'.mem ∧ w'.ustack = w.ustack := by
  unfold callCopyout at h
  cases hrun : copyoutAt pagetable dst src w.mem with
  | ok r' m =>
    rw [hrun] at h
    cases h
    exact ⟨rfl, rfl⟩
  | fault e m =>
    rw [hrun] at h
    cases h

/-- The loop of `exec`, whose `ustack` is a list. -/
theorem pushArgs_of_pushArgv {argc sp : Nat} {x : Option Nat}
    (h : pushArgv pagetable base argv argc sp w = .ok x w') :
    pushArgs pagetable base argv sp ((List.range argc).map w.ustack) w.mem =
      .ok (x.map fun sp => (sp, (List.range (argc + argv.length + 1)).map w'.ustack)) w'.mem := by
  induction argv generalizing argc sp w with
  | nil =>
    cases h
    show Res.ok (some (sp, (List.range argc).map w.ustack ++ [0])) w.mem = _
    rw [← range_map_update w.ustack argc 0]
    rfl
  | cons arg argv ih =>
    have hlength : ((List.range argc).map w.ustack).length = argc := by
      rw [List.length_map, List.length_range]
    rw [pushArgv] at h
    rw [pushArgs, hlength]
    split at h
    case isTrue hmax =>
      rw [if_pos hmax]
      cases h
      rfl
    case isFalse hmax =>
      rw [if_neg hmax]
      dsimp only at h ⊢
      split at h
      case isTrue hsp =>
        rw [if_pos hsp]
        cases h
        rfl
      case isFalse hsp =>
        rw [if_neg hsp]
        obtain ⟨r, v, hcall, hrest⟩ := bind_eq_ok.mp h
        obtain ⟨hcopy, hustack⟩ := callCopyout_eq hcall
        rw [bind_ok hcopy]
        split at hrest
        case isTrue hr =>
          rw [if_pos hr]
          cases hrest
          rfl
        case isFalse hr =>
          rw [if_neg hr]
          have hentry : (List.range (argc + 1)).map
              (v.withUstack argc (pushDown sp (arg.length + 1))).ustack =
              (List.range argc).map w.ustack ++ [pushDown sp (arg.length + 1)] := by
            rw [← hustack]
            exact range_map_update _ _ _
          have hloop := ih hrest
          rw [hentry] at hloop
          refine hloop.trans ?_
          rw [List.length_cons, Nat.add_assoc argc 1, Nat.add_comm 1]

/-- What `exec` pushes. -/
theorem pushStack_of_pushAll {x : Option (Nat × Nat)} (h : pushAll pagetable sz argv w = .ok x w') :
    pushStack pagetable sz argv w.mem = .ok x w'.mem := by
  obtain ⟨y, v, hargv, hrest⟩ := bind_eq_ok.mp h
  have hargs := pushArgs_of_pushArgv hargv
  unfold pushStack
  refine (bind_ok hargs _).trans ?_
  cases y with
  | none =>
    cases hrest
    rfl
  | some sp =>
    have hlength : ((List.range (0 + argv.length + 1)).map v.ustack).length = argv.length + 1 := by
      rw [List.length_map, List.length_range, Nat.zero_add]
    simp only [Option.map_some, hlength]
    simp only [pushUstack] at hrest
    split at hrest
    case isTrue hsp =>
      rw [if_pos hsp]
      cases hrest
      rfl
    case isFalse hsp =>
      rw [if_neg hsp]
      rw [read_bind] at hrest
      obtain ⟨r, u, hcall, hrest⟩ := bind_eq_ok.mp hrest
      obtain ⟨hcopy, -⟩ := callCopyout_eq hcall
      rw [ustackBytes] at hcopy
      rw [Nat.zero_add, bind_ok hcopy]
      split at hrest
      case isTrue hr =>
        rw [if_pos hr]
        cases hrest
        rfl
      case isFalse hr =>
        rw [if_neg hr]
        cases hrest
        rfl

end Forget

/-! ## A stack in page `0` -/

theorem forkMachine_stack : StackPage forkMachine.mem 0x80300000 0 := by
  have hframe : frame forkMachine.mem 0x80300000 0 = 0x80303000 := by
    rw [frame, forkMachine_pte (by decide)]
    decide
  have hmapped := forkMachine_start.mapped 0 (by decide)
  refine ⟨by decide, by decide, by decide, ⟨⟨by decide, hmapped.1, fun h0 => hmapped.2 ?_⟩, ?_⟩,
    fun is his hreach => ?_⟩
  · rw [h0]
    rfl
  · rw [hframe]
    decide
  · rw [hframe] at hreach
    have hpath := (forkMachine_path.reach_iff his 0x80303).mp hreach
    omega

theorem stackBytes_pair (s t : CStr) :
    stackBytes [s, t] = roundUp16 (s.length + 1) + roundUp16 (t.length + 1) + 32 := by
  have hlen : [s, t].length ≤ MAXARG := by
    rw [List.length_cons, List.length_singleton]
    decide
  have hustack : roundUp16 (8 * ([s, t].length + 1)) = 32 := by
    rw [List.length_cons, List.length_singleton]
    decide
  have hnil : argBytes [] = 0 := rfl
  unfold stackBytes
  rw [List.take_of_length_le hlen, if_pos hlen, hustack, argBytes_cons, argBytes_cons, hnil]
  omega

/-- Arguments that do not fit into the page. -/
theorem push_overflow {argv : List CStr} (hargs : ∀ s ∈ argv, s.length + 1 ≤ 4096)
    (hbytes : 4096 < stackBytes argv) (ustack : Nat → Nat) :
    ¬ PushMeets 0x80300000 4096 argv forkMachine ustack := by
  obtain ⟨-, hlow⟩ | ⟨hnot, -⟩ := pushAll_mapped ustack forkMachine_stack hargs
  · exact absurd (hlow rfl) (Nat.not_le.mpr hbytes)
  · exact hnot

theorem push_meets_one : PushMeets 0x80300000 4096 [[97]] forkMachine fun _ => 0 := by
  have hbase : 4096 - pgsize = 0 := rfl
  have hlooked := forkMachine_stack.passed.1
  have hout := forkMachine_stack.outside
  rw [← hbase] at hlooked hout
  exact (push_meets_iff (by decide) (by decide) (by decide) (by decide) (by decide)
    fun _ => hout).mpr ⟨by decide, hlooked, fun _ _ => by decide⟩

/-- Two strings of `4000` and `200` bytes. `sp` is not below `0`, so it is never too low. -/
theorem push_wraps :
    ¬ PushMeets 0x80300000 4096 [List.replicate 4000 97, List.replicate 200 98] forkMachine
      fun _ => 0 := by
  refine push_overflow (fun s hs => ?_) ?_ _
  · obtain rfl | rfl := List.mem_pair.mp hs
    · rw [List.length_replicate]
      decide
    · rw [List.length_replicate]
      decide
  · rw [stackBytes_pair, List.length_replicate, List.length_replicate]
    decide

end PageFaultOS
