import Mathlib.Tactic
import PageFaultOS.Lib.Run
import PageFaultOS.Lib.Rv64

/-! `pswitch` of `proc/switch.S`: kernel threads as coroutines. Each one that is switched to goes on
behind its own last call, whatever the others have done since. -/

namespace PageFaultOS
open ByteMem Rv64

/-- `struct context`: the callee-saved registers and where they are. -/
def contextRegs : List (Reg × Nat) :=
  [(.ra, 0), (.sp, 8), (.s0, 16), (.s1, 24), (.s2, 32), (.s3, 40), (.s4, 48), (.s5, 56), (.s6, 64),
   (.s7, 72), (.s8, 80), (.s9, 88), (.s10, 96), (.s11, 104)]

def contextBytes : Nat := 112

def pswitch : List Instr := saves .a0 contextRegs ++ (restores .a1 contextRegs ++ [.jr .ra])

/-- The contexts of the kernel's threads, in memory that is mapped one to one, and the code of
`pswitch`. -/
structure Contexts (P : Platform) (ι : Type) where
  entry : Word
  context : ι → Nat
  Kern : Rv64.Mode → (Csr → Word) → Mem → Prop
  code : CodeAt P Kern entry pswitch
  data : ∀ csrs m, Kern .supervisor csrs m → ∀ i off, off % 8 = 0 → off + 8 ≤ contextBytes → ∀ acc,
    P.data acc .supervisor csrs m (BitVec.ofNat 64 (context i) + BitVec.ofNat 64 off) =
      some (context i + off)
  keeps : ∀ csrs m m', Kern .supervisor csrs m → ∀ i, (∀ b, b < context i ∨
    context i + contextBytes ≤ b → m' b = m b) → Kern .supervisor csrs m'
  apart : ∀ i j, i ≠ j → context i + contextBytes ≤ context j ∨ context j + contextBytes ≤ context i

/-- The hart with the thread that runs on it, and what each thread had in its registers when
it last called `pswitch`. -/
structure Threads (ι : Type) where
  hart : Machine
  cur : ι
  regs : ι → Reg → Word

variable {P : Platform} {ι : Type}

/-- The context of thread `i` in memory. -/
def Contexts.holds (C : Contexts P ι) (i : ι) (m : Mem) (regs : Reg → Word) : Prop :=
  ∀ q ∈ contextRegs, readWord m (C.context i + q.2) = (regs q.1).toNat

inductive SwitchAct (ι : Type) where
  | run
  | switch (j : ι)

/-- What the threads do: the one that runs changes what it likes but the contexts of the others,
and it calls `pswitch` with its own context and another's. -/
inductive SwitchStep [DecidableEq ι] (C : Contexts P ι) : Threads ι → SwitchAct ι → Threads ι → Prop where
  | run {s t : Threads ι} (hcur : t.cur = s.cur) (hregs : t.regs = s.regs)
      (hmode : t.hart.mode = .supervisor) (hkern : C.Kern .supervisor t.hart.csrs t.hart.mem)
      (hmem : ∀ i, i ≠ s.cur → ∀ b, C.context i ≤ b → b < C.context i + contextBytes →
        t.hart.mem b = s.hart.mem b) : SwitchStep C s .run t
  | switch {s t : Threads ι} {j : ι} (hj : j ≠ s.cur) (hpc : s.hart.pc = C.entry)
      (ha0 : s.hart.regs .a0 = BitVec.ofNat 64 (C.context s.cur))
      (ha1 : s.hart.regs .a1 = BitVec.ofNat 64 (C.context j))
      (hrun : run P pswitch.length s.hart = some t.hart) (hcur : t.cur = j)
      (hregs : t.regs = Function.update s.regs s.cur s.hart.regs) : SwitchStep C s (.switch j) t

/-- Threads that have not run yet hold what they start with. -/
def SwitchStart (C : Contexts P ι) (s : Threads ι) : Prop :=
  s.hart.mode = .supervisor ∧ C.Kern .supervisor s.hart.csrs s.hart.mem ∧
    ∀ i, i ≠ s.cur → C.holds i s.hart.mem (s.regs i)

structure Contexts.Inv (C : Contexts P ι) (s : Threads ι) : Prop where
  mode : s.hart.mode = .supervisor
  kern : C.Kern .supervisor s.hart.csrs s.hart.mem
  saved : ∀ i, i ≠ s.cur → C.holds i s.hart.mem (s.regs i)

theorem contextRegs_layout : Rv64.Layout contextRegs contextBytes := by
  refine ⟨by decide, by decide, ?_⟩
  decide

section
variable {C : Contexts P ι} {s t : Threads ι} {i j : ι} {m m' : Mem}

theorem Contexts.area {csrs : Csr → Word} (h : C.Kern .supervisor csrs m) (i : ι) :
    Area P .supervisor csrs m (BitVec.ofNat 64 (C.context i)) (C.context i) contextBytes := by
  intro m' hm' off hoff hfit acc
  exact C.data csrs m' (C.keeps csrs m m' h i hm') i off hoff hfit acc

/-- A context is a matter of its own bytes. -/
theorem Contexts.holds_congr {regs : Reg → Word} (h : C.holds i m regs)
    (hm : ∀ b, C.context i ≤ b → b < C.context i + contextBytes → m' b = m b) :
    C.holds i m' regs := by
  intro q hq
  have hfit := contextRegs_layout.fits q hq
  rw [← h q hq]
  exact readWord_congr fun b _ _ => hm b (by omega) (by omega)

/-- `pswitch` puts the registers of the old thread into its context and loads those of the new one, and
returns to where the new one called it. -/
theorem pswitch_swaps {s : Machine} {regs : Reg → Word} (hmode : s.mode = .supervisor)
    (hkern : C.Kern .supervisor s.csrs s.mem) (hij : j ≠ i) (hpc : s.pc = C.entry)
    (ha0 : s.regs .a0 = BitVec.ofNat 64 (C.context i))
    (ha1 : s.regs .a1 = BitVec.ofNat 64 (C.context j)) (hj : C.holds j s.mem regs) :
    ∃ t, run P pswitch.length s = some t ∧ t.mode = .supervisor ∧ t.csrs = s.csrs ∧
      t.pc = evenPc (regs .ra) ∧ (∀ r ∈ contextRegs.map Prod.fst, t.regs r = regs r) ∧
      C.holds i t.mem s.regs ∧ C.Kern .supervisor t.csrs t.mem ∧
      ∀ b, b < C.context i ∨ C.context i + contextBytes ≤ b → t.mem b = s.mem b := by
  have hcode := C.code
  rw [← hpc] at hcode
  obtain ⟨hsaves, hcode⟩ := codeAt_append.mp hcode
  obtain ⟨hrest, hret, -⟩ := codeAt_append.mp hcode
  have harea : Area P s.mode s.csrs s.mem (s.regs .a0) (C.context i) contextBytes := by
    rw [hmode, ha0]
    exact C.area hkern i
  obtain ⟨s₁, hrun₁, hmode₁, hcsrs₁, hregs₁, hmem₁, hpc₁⟩ :=
    run_saves contextRegs_layout hsaves harea fun m' hm' => by
      rw [hmode]
      exact C.keeps _ _ _ hkern i hm'
  have hout : ∀ b, b < C.context i ∨ C.context i + contextBytes ≤ b → s₁.mem b = s.mem b := by
    intro b hb
    rw [hmem₁, saved_outside_area contextRegs_layout _ hb]
  have hkern₁ : C.Kern .supervisor s₁.csrs s₁.mem := by
    rw [hcsrs₁]
    exact C.keeps _ _ _ hkern i hout
  have hj₁ : C.holds j s₁.mem regs := by
    apply Contexts.holds_congr hj
    intro b hb hb'
    apply hout
    have := C.apart i j (Ne.symm hij)
    omega
  have harea₁ : Area P s₁.mode s₁.csrs s₁.mem (s₁.regs .a1) (C.context j) contextBytes := by
    rw [hmode₁, hmode, hregs₁, ha1]
    exact C.area hkern₁ j
  have hkernMode₁ : C.Kern s₁.mode s₁.csrs s₁.mem := by
    rw [hmode₁, hmode]
    exact hkern₁
  have hother : Reg.a1 ∉ contextRegs.map Prod.fst := by decide
  rw [← hpc₁] at hrest hret
  obtain ⟨s₂, hrun₂, hmode₂, hcsrs₂, hregs₂, hmem₂, hpc₂⟩ :=
    run_restores contextRegs_layout hrest harea₁ hkernMode₁ fun q hq he =>
      absurd (he ▸ List.mem_map_of_mem hq) hother
  have hloaded : ∀ r ∈ contextRegs.map Prod.fst, s₂.regs r = regs r := by
    intro r hr
    obtain ⟨q, hq, rfl⟩ := List.mem_map.mp hr
    rw [hregs₂, loaded_of_mem contextRegs_layout _ hq, hj₁ q hq, BitVec.ofNat_toNat,
      BitVec.setWidth_eq]
  have hkern₂ : C.Kern s₂.mode s₂.csrs s₂.mem := by
    rw [hmode₂, hcsrs₂, hmem₂]
    exact hkernMode₁
  rw [← hpc₂] at hret
  have hrun₃ : run P 1 s₂ = some { s₂ with pc := evenPc (s₂.regs .ra) } :=
    run_fetched hret hkern₂ rfl
  have hlen : pswitch.length = contextRegs.length + (contextRegs.length + 1) := by decide
  refine ⟨{ s₂ with pc := evenPc (s₂.regs .ra) }, by rw [hlen, run_add hrun₁, run_add hrun₂, hrun₃],
    ?_, hcsrs₂.trans hcsrs₁, ?_, hloaded, ?_, ?_, ?_⟩
  · exact hmode₂.trans (hmode₁.trans hmode)
  · rw [hloaded .ra (by decide)]
  · intro q hq
    show readWord s₂.mem _ = _
    rw [hmem₂, hmem₁, readWord_saved contextRegs_layout s.regs hq]
  · show C.Kern .supervisor s₂.csrs s₂.mem
    rw [hcsrs₂, hmem₂]
    exact hkern₁
  · intro b hb
    show s₂.mem b = _
    rw [hmem₂, hout b hb]

/-- One step keeps every context but the running thread's. -/
theorem switchStep_inv [DecidableEq ι] {a : SwitchAct ι} (h : C.Inv s) (hstep : SwitchStep C s a t) : C.Inv t := by
  cases hstep with
  | run hcur hregs hmode hkern hmem =>
    refine ⟨hmode, hkern, fun i hi => ?_⟩
    rw [hcur] at hi
    rw [hregs]
    exact Contexts.holds_congr (h.saved i hi) (hmem i hi)
  | switch hj hpc ha0 ha1 hrun hcur hregs =>
    obtain ⟨u, hu, hmode, -, -, -, hsaved, hkern, hout⟩ :=
      pswitch_swaps h.mode h.kern hj hpc ha0 ha1 (h.saved _ hj)
    cases hu.symm.trans hrun
    refine ⟨hmode, hkern, fun i _ => ?_⟩
    rw [hregs]
    by_cases hi : i = s.cur
    · subst hi
      rw [Function.update_self]
      exact hsaved
    · rw [Function.update_of_ne hi]
      apply Contexts.holds_congr (h.saved i hi)
      intro b hb hb'
      apply hout
      have := C.apart i s.cur hi
      omega

/-- In every run of the threads, a call of `pswitch` ends, and the thread it switches to goes on at the
return address, on the stack and with the saved registers that it had when it last called
`pswitch` itself. -/
theorem coroutine_resumes [DecidableEq ι] (h : Run.Reach (SwitchStart C) (SwitchStep C) Run.anyStep s)
    (hj : j ≠ s.cur) (hpc : s.hart.pc = C.entry)
    (ha0 : s.hart.regs .a0 = BitVec.ofNat 64 (C.context s.cur))
    (ha1 : s.hart.regs .a1 = BitVec.ofNat 64 (C.context j)) :
    ∃ t, run P pswitch.length s.hart = some t ∧ t.pc = evenPc (s.regs j .ra) ∧
      (∀ r ∈ contextRegs.map Prod.fst, t.regs r = s.regs j r) ∧ t.csrs = s.hart.csrs ∧
      ∀ b, b < C.context s.cur ∨ C.context s.cur + contextBytes ≤ b → t.mem b = s.hart.mem b := by
  have hinv : C.Inv s := by
    apply h.invariant
    · intro u hu
      exact ⟨hu.1, hu.2.1, hu.2.2⟩
    · intro u a t hu _ hstep
      exact switchStep_inv hu hstep
  obtain ⟨t, hrun, -, hcsrs, hret, hregs, -, -, hout⟩ :=
    pswitch_swaps hinv.mode hinv.kern hj hpc ha0 ha1 (hinv.saved j hj)
  exact ⟨t, hrun, hret, hregs, hcsrs, hout⟩

end

/-- The scheduler's context and a process's. -/
def smallContexts : Contexts (flat 0x80023000 pswitch) Bool where
  entry := 0x80023000
  context i := if i then 0x80500000 else 0x80600000
  Kern _ _ _ := True
  code := flat_codeAt (by decide)
  data := by
    intro csrs m _ i off _ hoff acc
    have hbytes : contextBytes = 112 := rfl
    show some (BitVec.ofNat 64 _ + BitVec.ofNat 64 off).toNat = _
    rw [← BitVec.ofNat_add, BitVec.toNat_ofNat]
    cases i
    · exact congrArg some (Nat.mod_eq_of_lt (by simp; omega))
    · exact congrArg some (Nat.mod_eq_of_lt (by simp; omega))
  keeps _ _ _ _ _ _ := trivial
  apart := by decide

/-- The scheduler switches to a process that starts at `0x80021000`. -/
def smallThreads : Threads Bool where
  hart :=
    { mode := .supervisor
      pc := 0x80023000
      regs := fun r => if r = .a0 then 0x80600000 else if r = .a1 then 0x80500000 else 7
      csrs := fun _ => 0
      mem := wordsAt [(0x80500000, 0x80021000)] }
  cur := false
  regs _ r := if r = .ra then 0x80021000 else 0

theorem smallThreads_start : SwitchStart smallContexts smallThreads := by
  refine ⟨rfl, trivial, fun i hi => ?_⟩
  have hi' : i = true := by simpa [smallThreads] using hi
  subst hi'
  intro q hq
  have hwords : ∀ q ∈ contextRegs, (0x80500000 + q.2) % 8 = 0 ∧
      (([(0x80500000, 0x80021000)].find? fun w => w.1 = 0x80500000 + q.2).map Prod.snd).getD 0 =
        (smallThreads.regs true q.1).toNat := by decide
  exact (readWord_wordsAt (by decide) (hwords q hq).1).trans (hwords q hq).2

theorem coroutine_resumes_small : ∃ t, run (flat 0x80023000 pswitch) pswitch.length
    smallThreads.hart = some t ∧ t.pc = 0x80021000 := by
  obtain ⟨t, hrun, hpc, -⟩ := coroutine_resumes (j := true) (.start smallThreads_start) (by decide)
    rfl rfl rfl
  exact ⟨t, hrun, hpc.trans (by decide)⟩

end PageFaultOS
