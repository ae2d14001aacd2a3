import Mathlib.Tactic
import PageFaultOS.Lib.Exec

/-! The harts, locks and process table that the kernel's synchronisation works on,
and the interrupt nesting of `trap/intr.cpp`. `h` is the hart that runs the code,
which the source reads from `tp`. -/

namespace PageFaultOS
open Exec Exec.Comp

/-- What a `void *` channel points to: an entry of the process table or something else. -/
inductive Addr where
  | null
  | proc (i : Nat)
  | other (a : Nat)
  deriving DecidableEq, Repr

/-- A spinlock: the one of a process table entry, or another one. -/
inductive LockId where
  | proc (i : Nat)
  | other (a : Nat)
  deriving DecidableEq, Repr

/-- `cpu` is the hart whose `struct cpu` the lock points to. -/
structure Spinlock where
  locked : Bool
  cpu : Option Nat
  deriving DecidableEq, Repr

structure Cpu where
  proc : Option Nat
  noff : Int
  intena : Bool
  deriving DecidableEq, Repr

inductive ProcState where
  | unused | sleeping | runnable | running | zombie
  deriving DecidableEq, Repr

structure Vma where
  addr : Nat
  length : Nat
  shared : Bool
  file : Nat
  deriving DecidableEq, Repr

structure Proc where
  state : ProcState
  parent : Option Nat
  chan : Addr
  xstate : Int
  workDir : List UInt8
  ofile : Nat → Option Nat
  vma : Nat → Option Vma

/-- `sie h` is bit `SIE` of `sstatus` on hart `h`. -/
structure Kern where
  sie : Nat → Bool
  cpus : Nat → Cpu
  locks : LockId → Spinlock
  procTable : Nat → Proc
  initproc : Option Nat

abbrev KernComp := Comp Kern

def intMax : Int := 2 ^ 31 - 1

def intMin : Int := -2 ^ 31

def setSie (h : Nat) (b : Bool) : KernComp Unit :=
  modify fun σ => { σ with sie := Function.update σ.sie h b }

def intrGet (h : Nat) : KernComp Bool := do
  let σ ← read
  pure (σ.sie h)

def intrOff (h : Nat) : KernComp Unit := setSie h false

def intrOn (h : Nat) : KernComp Unit := setSie h true

def setCpu (h : Nat) (f : Cpu → Cpu) : KernComp Unit :=
  modify fun σ => { σ with cpus := Function.update σ.cpus h (f (σ.cpus h)) }

def pushOff (h : Nat) : KernComp Unit := do
  let old ← intrGet h
  intrOff h
  let σ ← read
  if (σ.cpus h).noff = 0 then
    setCpu h fun c => { c with intena := old }
  if (σ.cpus h).noff = intMax then
    fault (.undefined "noff += 1")
  else
    setCpu h fun c => { c with noff := c.noff + 1 }

def popOff (h : Nat) : KernComp Unit := do
  if ← intrGet h then
    Comp.panic "pop_off - interruptible"
  else do
    let σ ← read
    if (σ.cpus h).noff > 1 then
      Comp.panic "pop_off"
    else if (σ.cpus h).noff = intMin then
      fault (.undefined "noff --")
    else do
      setCpu h fun c => { c with noff := c.noff - 1 }
      let σ ← read
      if (σ.cpus h).noff = 1 ∧ (σ.cpus h).intena then
        intrOn h

/-! ## What one call does -/

/-- The state after `push_off`. -/
def pushed (σ : Kern) (h : Nat) : Kern :=
  { σ with
    sie := Function.update σ.sie h false
    cpus := Function.update σ.cpus h
      { σ.cpus h with
        noff := (σ.cpus h).noff + 1
        intena := if (σ.cpus h).noff = 0 then σ.sie h else (σ.cpus h).intena } }

theorem pushOff_eq (σ : Kern) (h : Nat) (hmax : (σ.cpus h).noff ≠ intMax) :
    pushOff h σ = .ok () (pushed σ h) := by
  unfold pushOff
  by_cases h0 : (σ.cpus h).noff = 0
  · have h0' : ¬ (0 : Int) = intMax := by decide
    simp [intrGet, intrOff, setSie, setCpu, pushed, h0, h0', bind_apply]
  · simp [intrGet, intrOff, setSie, setCpu, pushed, h0, hmax, bind_apply]

theorem pushOff_max (σ : Kern) (h : Nat) (hmax : (σ.cpus h).noff = intMax) :
    pushOff h σ = .fault (.undefined "noff += 1")
      { σ with sie := Function.update σ.sie h false } := by
  have h0 : ¬ intMax = 0 := by decide
  simp [pushOff, intrGet, intrOff, setSie, hmax, h0, bind_apply]

/-- The state after a `pop_off` that does not panic. -/
def popped (σ : Kern) (h : Nat) : Kern :=
  { σ with cpus := Function.update σ.cpus h { σ.cpus h with noff := (σ.cpus h).noff - 1 } }

theorem popOff_one (σ : Kern) (h : Nat) (hsie : σ.sie h = false)
    (hnoff : (σ.cpus h).noff = 1) : popOff h σ = .ok () (popped σ h) := by
  have hmin : ¬ (1 : Int) = intMin := by decide
  simp [popOff, intrGet, setCpu, popped, hsie, hnoff, hmin, bind_apply]

theorem popOff_deep (σ : Kern) (h : Nat) (hsie : σ.sie h = false)
    (hnoff : 1 < (σ.cpus h).noff) : popOff h σ = .fault (.panic "pop_off") σ := by
  simp [popOff, intrGet, hsie, hnoff, bind_apply]

/-! ## Nested calls -/

inductive IntrCall where
  | pushOff
  | popOff
  deriving DecidableEq, Repr

def IntrCall.run (h : Nat) : IntrCall → KernComp Unit
  | .pushOff => PageFaultOS.pushOff h
  | .popOff => PageFaultOS.popOff h

/-- Hart `h` makes the calls one after the other. -/
def runCalls (h : Nat) : List IntrCall → KernComp Unit
  | [] => pure ()
  | c :: calls => c.run h >>= fun _ => runCalls h calls

/-- The number of unmatched `push_off`s after `calls`, from `d` of them; `none` when
some `pop_off` matches no earlier `push_off`. -/
def unmatched : Nat → List IntrCall → Option Nat
  | d, [] => some d
  | d, .pushOff :: calls => unmatched (d + 1) calls
  | 0, .popOff :: _ => none
  | d + 1, .popOff :: calls => unmatched d calls

/-- Interrupts as the nesting promises them, with `d` unmatched calls and interrupts
`ie` before the outermost. -/
structure Nested (h : Nat) (ie : Bool) (d : Nat) (σ : Kern) : Prop where
  off : 0 < d → σ.sie h = false
  restored : d = 0 → σ.sie h = ie

/-- Every state the calls go through, from `σ` with `d` of them unmatched, is reached
without a panic and has its interrupts as promised. -/
def NestedRun (h : Nat) (ie : Bool) (d : Nat) (σ : Kern) (calls : List IntrCall) : Prop :=
  ∀ made, made <+: calls →
    ∃ σ' e, runCalls h made σ = .ok () σ' ∧ unmatched d made = some e ∧ Nested h ie e σ'

/-- Each `push_off` is made below depth `2 ^ 31 - 1`, and each `pop_off` at depth one
with interrupts off from before the outermost `push_off`. -/
def Shallow (ie : Bool) : Nat → List IntrCall → Prop
  | _, [] => True
  | d, .pushOff :: calls => (d : Int) < intMax ∧ Shallow ie (d + 1) calls
  | d, .popOff :: calls => d = 1 ∧ ie = false ∧ Shallow ie (d - 1) calls

/-- The hart's fields with `d` unmatched calls, as long as no call went wrong. -/
private structure AtDepth (h : Nat) (ie : Bool) (d : Nat) (σ : Kern) : Prop where
  nested : Nested h ie d σ
  noff : (σ.cpus h).noff = d
  bound : (d : Int) ≤ intMax
  intena : 0 < d → (σ.cpus h).intena = ie

private theorem AtDepth.pushed {h d : Nat} {ie : Bool} {σ : Kern} (hat : AtDepth h ie d σ)
    (hd : (d : Int) < intMax) : AtDepth h ie (d + 1) (pushed σ h) := by
  refine ⟨⟨fun _ => ?_, fun h0 => by omega⟩, ?_, by omega, fun _ => ?_⟩
  · simp [PageFaultOS.pushed]
  · simp [PageFaultOS.pushed, hat.noff]
  · rcases Nat.eq_zero_or_pos d with rfl | hpos
    · simp [PageFaultOS.pushed, hat.noff, hat.nested.restored rfl]
    · have hne : ¬ d = 0 := by omega
      simp [PageFaultOS.pushed, hat.noff, hne, hat.intena hpos]

private theorem AtDepth.popped {h : Nat} {σ : Kern} (hat : AtDepth h false 1 σ) :
    AtDepth h false 0 (popped σ h) := by
  refine ⟨⟨fun h0 => by omega, fun _ => hat.nested.off Nat.one_pos⟩, ?_, by decide,
    fun h0 => by omega⟩
  simp [PageFaultOS.popped, hat.noff]

private theorem forall_prefix_cons {α : Type} {a : α} {l : List α} {P : List α → Prop} :
    (∀ m, m <+: a :: l → P m) ↔ P [] ∧ ∀ m, m <+: l → P (a :: m) := by
  constructor
  · intro hall
    exact ⟨hall [] (List.nil_prefix ..), fun m hm => hall _ (List.cons_prefix_cons.mpr ⟨rfl, hm⟩)⟩
  · rintro ⟨hnil, hcons⟩ m hm
    rcases List.prefix_cons_iff.mp hm with rfl | ⟨m', rfl, hm'⟩
    · exact hnil
    · exact hcons m' hm'

/-- A call that returns: the run is good when its start and the rest are. -/
private theorem nestedRun_cons {h d e : Nat} {ie : Bool} {σ σ' : Kern} {c : IntrCall}
    {calls : List IntrCall} (hstart : Nested h ie d σ) (hrun : c.run h σ = .ok () σ')
    (hdepth : ∀ made, unmatched d (c :: made) = unmatched e made) :
    NestedRun h ie d σ (c :: calls) ↔ NestedRun h ie e σ' calls := by
  unfold NestedRun
  rw [forall_prefix_cons]
  simp only [runCalls, bind_ok hrun, hdepth]
  exact ⟨fun hall => hall.2, fun hall => ⟨⟨σ, d, rfl, rfl, hstart⟩, hall⟩⟩

private theorem not_nestedRun_of_fault {h d : Nat} {ie : Bool} {σ s : Kern} {c : IntrCall}
    {f : Fault} {calls : List IntrCall} (hrun : c.run h σ = .fault f s) :
    ¬ NestedRun h ie d σ (c :: calls) := by
  intro hall
  obtain ⟨σ', e, hok, _⟩ := hall [c] (List.cons_prefix_cons.mpr ⟨rfl, List.nil_prefix ..⟩)
  rw [runCalls, bind_fault hrun] at hok
  cases hok

private theorem nestedRun_iff_of_atDepth {h : Nat} {ie : Bool} {calls : List IntrCall} :
    ∀ {d : Nat} {σ : Kern}, AtDepth h ie d σ → unmatched d calls ≠ none →
      (NestedRun h ie d σ calls ↔ Shallow ie d calls) := by
  induction calls with
  | nil =>
    intro d σ hat _
    simp only [Shallow, iff_true]
    intro made hmade
    rw [List.prefix_nil.mp hmade]
    exact ⟨σ, d, rfl, rfl, hat.nested⟩
  | cons c calls ih =>
    intro d σ hat hmatched
    cases c with
    | pushOff =>
      by_cases hmax : (d : Int) = intMax
      · have hrun : IntrCall.pushOff.run h σ = .fault (.undefined "noff += 1") _ :=
          pushOff_max σ h (hat.noff.trans hmax)
        have hd : ¬ (d : Int) < intMax := by omega
        simp only [Shallow, hd, false_and, iff_false]
        exact not_nestedRun_of_fault hrun
      · have hd : (d : Int) < intMax := lt_of_le_of_ne hat.bound hmax
        have hrun : IntrCall.pushOff.run h σ = .ok () (pushed σ h) :=
          pushOff_eq σ h (by rw [hat.noff]; exact hmax)
        rw [nestedRun_cons hat.nested hrun fun _ => rfl, ih (hat.pushed hd) hmatched]
        simp only [Shallow, hd, true_and]
    | popOff =>
      cases d with
      | zero => exact absurd rfl hmatched
      | succ d =>
        have hsie := hat.nested.off (Nat.succ_pos d)
        rcases Nat.eq_zero_or_pos d with rfl | hpos
        · have hrun : IntrCall.popOff.run h σ = .ok () (popped σ h) :=
            popOff_one σ h hsie (by rw [hat.noff]; rfl)
          cases ie with
          | false =>
            rw [nestedRun_cons hat.nested hrun fun _ => rfl, ih hat.popped hmatched]
            simp [Shallow]
          | true =>
            simp only [Shallow, Bool.true_eq_false, false_and, and_false, iff_false]
            intro hall
            obtain ⟨σ', e, hok, he, hnested⟩ :=
              hall [.popOff] (List.cons_prefix_cons.mpr ⟨rfl, List.nil_prefix ..⟩)
            rw [runCalls, bind_ok hrun] at hok
            cases hok
            cases he
            have hon := hnested.restored rfl
            rw [popped, hsie] at hon
            cases hon
        · have hrun : IntrCall.popOff.run h σ = .fault (.panic "pop_off") σ :=
            popOff_deep σ h hsie (by rw [hat.noff]; omega)
          have hd : ¬ d + 1 = 1 := by omega
          simp only [Shallow, hd, false_and, iff_false]
          exact not_nestedRun_of_fault hrun

/-- A run of `push_off` and `pop_off` in which every `pop_off` has a match goes as the
nesting promises just when it is shallow. -/
theorem nestedRun_iff_shallow (h : Nat) (σ : Kern) (calls : List IntrCall)
    (hstart : (σ.cpus h).noff = 0) (hmatched : unmatched 0 calls ≠ none) :
    NestedRun h (σ.sie h) 0 σ calls ↔ Shallow (σ.sie h) 0 calls :=
  nestedRun_iff_of_atDepth
    ⟨⟨fun h0 => by omega, fun _ => rfl⟩, hstart, by decide, fun h0 => by omega⟩ hmatched

/-- The kernel at boot: interrupts on, nothing nested. -/
def bootKern : Kern where
  sie := fun _ => true
  cpus := fun _ => ⟨none, 0, false⟩
  locks := fun _ => ⟨false, none⟩
  procTable := fun _ => ⟨.unused, none, .null, 0, [], fun _ => none, fun _ => none⟩
  initproc := none

theorem nestedRun_iff_shallow_boot :
    NestedRun 0 true 0 bootKern [.pushOff] ↔ Shallow true 0 [.pushOff] :=
  nestedRun_iff_shallow 0 bootKern [.pushOff] rfl (by decide)

/-- The second of two nested critical sections cannot be left. -/
theorem nested_pair_panics : ¬ ∀ (h : Nat) (σ : Kern) (calls : List IntrCall),
    (σ.cpus h).noff = 0 → unmatched 0 calls ≠ none → NestedRun h (σ.sie h) 0 σ calls := by
  intro hall
  obtain ⟨σ', e, hok, _⟩ := hall 0 bootKern [.pushOff, .pushOff, .popOff, .popOff] rfl
    (by decide) [.pushOff, .pushOff, .popOff] (by decide)
  have h1 : IntrCall.pushOff.run 0 bootKern = .ok () (pushed bootKern 0) :=
    pushOff_eq bootKern 0 (by decide)
  have h2 : IntrCall.pushOff.run 0 (pushed bootKern 0) =
      .ok () (pushed (pushed bootKern 0) 0) :=
    pushOff_eq _ 0 (by decide)
  have h3 : IntrCall.popOff.run 0 (pushed (pushed bootKern 0) 0) =
      .fault (.panic "pop_off") (pushed (pushed bootKern 0) 0) :=
    popOff_deep _ 0 (by decide) (by decide)
  rw [runCalls, bind_ok h1, runCalls, bind_ok h2, runCalls, bind_fault h3] at hok
  cases hok

end PageFaultOS
