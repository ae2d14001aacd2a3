import Mathlib.Tactic
import PageFaultOS.Lib.Run
import PageFaultOS.Lib.Grants
import PageFaultOS.Fs.Path
import PageFaultOS.Fs.FileTable

/-! `allocFileHandle` and `freeFileHandle` of `fs/vfs.cpp` under any interleaving of `vfsopen`,
`vfschdir` and `vfscreatePipe`. A process can be interrupted between any two accesses to the
table; while one holds `fileTableLock` the others only wait for the lock. -/

namespace PageFaultOS
open Grants

/-- Who calls `allocFileHandle`: `vfscreatePipe` does it twice, the second time with the first
file in hand. `pi` is what `new pipe` returns. -/
inductive Opener where
  | vfsopen (path : CStr) (flags : Nat) (fs : FsOpen)
  | vfschdir (fs : FsOpen)
  | pipe0 (pi : Option Nat)
  | pipe1 (pi : Option Nat) (f0 : Nat)

/-- Where a process is. In `scan` it holds the lock and looks at entry `i`; in `mark` it has
given the lock up, and `fp->ref = 1` is next. -/
inductive HandlePc where
  | idle
  | acquire (k : Opener)
  | scan (k : Opener) (i : Nat)
  | mark (k : Opener) (i : Nat)
  | back (k : Opener) (i : Nat)
  | fill (path : CStr) (flags : Nat) (i : Nat)
  | regist (l : List Nat)
  | free (l : List Nat)
  | panic

structure HandleWorld where
  fileTable : Nat → File
  ofile : Nat → Nat → Option Nat
  holder : Option Nat
  pc : Nat → HandlePc
  log : List (Event Nat Nat)

namespace HandleWorld

def goto (w : HandleWorld) (p : Nat) (pc : HandlePc) : HandleWorld :=
  { w with pc := Function.update w.pc p pc }

def withFile (w : HandleWorld) (i : Nat) (f : File) : HandleWorld :=
  { w with fileTable := Function.update w.fileTable i f }

/-- `fp->ref == 0 && fp->type == fp->FD_NONE` -/
def LooksFree (w : HandleWorld) (i : Nat) : Prop :=
  (w.fileTable i).ref = 0 ∧ (w.fileTable i).type = .none

instance (w : HandleWorld) (i : Nat) : Decidable (w.LooksFree i) :=
  inferInstanceAs (Decidable (_ ∧ _))

/-- What a caller does with the file that `allocFileHandle` has returned. -/
def resume (w : HandleWorld) (p i : Nat) : Opener → HandleWorld
  | .vfsopen path flags fs => match fs.open (w.fileTable i) with
    | none => w.goto p (.free [i])
    | some f => (w.withFile i f).goto p (.fill path flags i)
  -- a directory becomes the current one before its file is freed
  | .vfschdir fs => match fs.open (w.fileTable i) with
    | none => w.goto p .idle
    | some f => (w.withFile i f).goto p (.free [i])
  | .pipe0 pi => w.goto p (.acquire (.pipe1 pi i))
  | .pipe1 none f0 => w.goto p (.free [f0, i])
  | .pipe1 (some pi) f0 =>
    let w := w.withFile f0 { w.fileTable f0 with
      type := .pipe, readable := true, writable := false, pip := some pi }
    (w.withFile i { w.fileTable i with
      type := .pipe, readable := false, writable := true, pip := some pi }).goto p (.regist [f0, i])

/-- The next step of process `p`, if it is in a call and need not wait. -/
def run (w : HandleWorld) (p : Nat) : Option HandleWorld :=
  match w.pc p with
  | .idle | .panic => none
  | .acquire k =>
    if w.holder = none then some ({ w with holder := some p }.goto p (.scan k 0)) else none
  | .scan k i =>
    if i < NFILE then
      if w.LooksFree i then some ({ w with holder := none }.goto p (.mark k i))
      else some (w.goto p (.scan k (i + 1)))
    else some (w.goto p .panic)
  | .mark k i => some ({ w.withFile i { w.fileTable i with ref := 1 } with
      log := .grant p i :: w.log }.goto p (.back k i))
  | .back k i => some (w.resume p i k)
  | .fill path flags i => some ((w.withFile i { w.fileTable i with
      filepath := path
      readable := flags &&& oWriteonly = 0
      writable := flags &&& oWriteonly ≠ 0 ∨ flags &&& oRdwr ≠ 0 }).goto p (.regist [i]))
  | .regist [] => some (w.goto p .idle)
  | .regist (i :: l) => match (List.range NOFILE).find? fun fd => w.ofile p fd = none with
    | some fd => some ({ w with
        ofile := Function.update w.ofile p (Function.update (w.ofile p) fd (some i)) }.goto p
          (.regist l))
    | none => some (w.goto p .panic)
  | .free [] => some (w.goto p .idle)
  | .free (i :: l) => some ({ w.withFile i File.zero with
      log := .giveBack i :: w.log }.goto p (.free l))

/-- Process `p` has found entry `i` and not marked it yet. -/
def Pending (w : HandleWorld) (p i : Nat) : Prop := ∃ k, w.pc p = .mark k i

end HandleWorld

inductive HandleAction where
  | vfsopen (p : Nat) (path : CStr) (flags : Nat) (fs : FsOpen)
  | vfschdir (p : Nat) (fs : FsOpen)
  | createPipe (p : Nat) (pi : Option Nat)
  | run (p : Nat)

/-- A process that is idle enters a call. -/
def HandleWorld.enter (w : HandleWorld) (p : Nat) (k : Opener) : Option HandleWorld :=
  match w.pc p with
  | .idle => some (w.goto p (.acquire k))
  | _ => none

def handleStep (w : HandleWorld) : HandleAction → Option HandleWorld
  | .vfsopen p path flags fs => w.enter p (.vfsopen path flags fs)
  | .vfschdir p fs => w.enter p (.vfschdir fs)
  | .createPipe p pi => w.enter p (.pipe0 pi)
  | .run p => w.run p

/-- Any table, with nobody in a call. -/
structure HandleStart (w : HandleWorld) : Prop where
  idle : ∀ p, w.pc p = .idle
  free : w.holder = none
  log : w.log = []

/-- A process that finds a free entry is the only one that has found it: no other is between its
release of the lock and its `fp->ref = 1` with that entry. -/
def FindsAlone (w : HandleWorld) : HandleAction → Prop
  | .run p => ∀ k i, w.pc p = .scan k i → w.LooksFree i → ∀ q, q ≠ p → ¬ w.Pending q i
  | _ => True

/-! ## The invariant -/

def HandleOk (w : HandleWorld) : Prop := Ok w.LooksFree w.Pending w.log

section Steps
variable {w w' : HandleWorld} {p q i : Nat} {pc : HandlePc}

def HandlePc.marks : HandlePc → Bool
  | .mark .. => true
  | _ => false

/-- A process that goes elsewhere has nothing pending. -/
theorem pending_goto (hpc : pc.marks = false) (h : (w.goto p pc).Pending q i) :
    w.Pending q i ∧ q ≠ p := by
  obtain ⟨k, hk⟩ := h
  by_cases hq : q = p
  · subst hq
    simp only [HandleWorld.goto, Function.update_self] at hk
    rw [hk] at hpc
    cases hpc
  · simp only [HandleWorld.goto, Function.update_of_ne hq] at hk
    exact ⟨⟨k, hk⟩, hq⟩

theorem looksFree_withFile {f : File} {k : Nat} (h : (w.withFile i f).LooksFree k) :
    k = i ∧ f.ref = 0 ∧ f.type = .none ∨ k ≠ i ∧ w.LooksFree k := by
  by_cases hk : k = i
  · subst hk
    simp only [HandleWorld.LooksFree, HandleWorld.withFile, Function.update_self] at h
    exact .inl ⟨rfl, h⟩
  · simp only [HandleWorld.LooksFree, HandleWorld.withFile, Function.update_of_ne hk] at h
    exact .inr ⟨hk, h⟩

theorem HandleOk.goto (h : HandleOk w) (pc : HandlePc) (hpc : pc.marks = false) :
    HandleOk (w.goto p pc) :=
  Ok.mono h (fun _ _ hq => (pending_goto hpc hq).1) fun _ hf _ => hf

/-- A file that does not look free unless it did before. -/
theorem HandleOk.withFile (h : HandleOk w) {f : File}
    (hf : f.ref = 0 → f.type = .none → w.LooksFree i) : HandleOk (w.withFile i f) := by
  refine Ok.mono h (fun _ _ hq => hq) fun k hk _ => ?_
  rcases looksFree_withFile hk with ⟨rfl, href, htype⟩ | ⟨_, hk⟩
  · exact hf href htype
  · exact hk

/-- A file with a type. -/
theorem HandleOk.typed (h : HandleOk w) {f : File} (hf : f.type ≠ .none) :
    HandleOk (w.withFile i f) := h.withFile fun _ htype => absurd htype hf

theorem fsOpen_typed {fs : FsOpen} {f g : File} (h : fs.open f = some g) : g.type ≠ .none := by
  cases fs with
  | device =>
    cases h
    simp
  | entry size directory =>
    cases h
    simp
  | failed => cases h

/-- The callers open and free, and do not make an entry in use look free. -/
theorem handleOk_resume (h : HandleOk w) (k : Opener) : HandleOk (w.resume p i k) := by
  cases k with
  | vfsopen path flags fs =>
    simp only [HandleWorld.resume]
    cases hopen : fs.open (w.fileTable i) with
    | none => exact h.goto (.free [i]) rfl
    | some f => exact (h.typed (fsOpen_typed hopen)).goto (.fill path flags i) rfl
  | vfschdir fs =>
    simp only [HandleWorld.resume]
    cases hopen : fs.open (w.fileTable i) with
    | none => exact h.goto .idle rfl
    | some f => exact (h.typed (fsOpen_typed hopen)).goto (.free [i]) rfl
  | pipe0 pi => exact h.goto _ rfl
  | pipe1 pi f0 =>
    cases pi with
    | none => exact h.goto _ rfl
    | some pi => exact ((h.typed (by simp)).typed (by simp)).goto _ rfl

/-- An entry that is found is pending for `p` alone. -/
theorem handleOk_find (h : HandleOk w) {k : Opener} (hfree : w.LooksFree i)
    (halone : ∀ q, q ≠ p → ¬ w.Pending q i) :
    HandleOk ({ w with holder := none }.goto p (.mark k i)) := by
  refine Ok.find h hfree halone fun q j hq => ?_
  obtain ⟨k', hk'⟩ := hq
  by_cases hqp : q = p
  · subst hqp
    simp only [HandleWorld.goto, Function.update_self] at hk'
    cases hk'
    exact .inl ⟨rfl, rfl⟩
  · simp only [HandleWorld.goto, Function.update_of_ne hqp] at hk'
    exact .inr ⟨k', hk'⟩

theorem handleOk_mark (h : HandleOk w) {k : Opener} (hpc : w.pc p = .mark k i) :
    HandleOk ({ w.withFile i { w.fileTable i with ref := 1 } with
      log := .grant p i :: w.log }.goto p (.back k i)) := by
  refine Ok.handOut h ⟨k, hpc⟩ (fun hfree => ?_) (fun _ _ hq => pending_goto rfl hq)
    fun j hj hfree => ?_
  · rcases looksFree_withFile hfree with ⟨_, href, _⟩ | ⟨hne, _⟩
    · exact one_ne_zero href
    · exact hne rfl
  · rcases looksFree_withFile hfree with ⟨heq, _⟩ | ⟨_, hfree⟩
    · exact absurd heq hj
    · exact hfree

theorem handleOk_free (h : HandleOk w) (l : List Nat) :
    HandleOk ({ w.withFile i File.zero with log := .giveBack i :: w.log }.goto p (.free l)) := by
  refine Ok.giveBack h i (fun _ _ hq => (pending_goto rfl hq).1) fun j hj hfree => ?_
  rcases looksFree_withFile hfree with ⟨heq, _⟩ | ⟨_, hfree⟩
  · exact absurd heq hj
  · exact hfree

theorem handleOk_run (h : HandleOk w) (hok : FindsAlone w (.run p)) (hrun : w.run p = some w') :
    HandleOk w' := by
  unfold HandleWorld.run at hrun
  cases hpc : w.pc p with
  | idle => simp [hpc] at hrun
  | panic => simp [hpc] at hrun
  | acquire k =>
    simp only [hpc] at hrun
    split at hrun
    · cases hrun
      exact HandleOk.goto (w := { w with holder := some p }) h _ rfl
    · cases hrun
  | scan k i =>
    simp only [hpc] at hrun
    split at hrun
    · split at hrun
      case isTrue hfree =>
        cases hrun
        exact handleOk_find h hfree (hok k i hpc hfree)
      case isFalse =>
        cases hrun
        exact h.goto _ rfl
    · cases hrun
      exact h.goto _ rfl
  | mark k i =>
    simp only [hpc] at hrun
    cases hrun
    exact handleOk_mark h hpc
  | back k i =>
    simp only [hpc] at hrun
    cases hrun
    exact handleOk_resume h k
  | fill path flags i =>
    simp only [hpc] at hrun
    cases hrun
    refine HandleOk.goto ?_ _ rfl
    exact h.withFile fun href htype => ⟨href, htype⟩
  | regist l =>
    cases l with
    | nil =>
      simp only [hpc] at hrun
      cases hrun
      exact h.goto _ rfl
    | cons i l =>
      simp only [hpc] at hrun
      split at hrun
      · cases hrun
        exact HandleOk.goto (w := { w with ofile := _ }) h _ rfl
      · cases hrun
        exact h.goto _ rfl
  | free l =>
    cases l with
    | nil =>
      simp only [hpc] at hrun
      cases hrun
      exact h.goto _ rfl
    | cons i l =>
      simp only [hpc] at hrun
      cases hrun
      exact handleOk_free h l

theorem handleOk_enter (h : HandleOk w) {k : Opener} (henter : w.enter p k = some w') :
    HandleOk w' := by
  unfold HandleWorld.enter at henter
  cases hpc : w.pc p with
  | idle =>
    simp only [hpc] at henter
    cases henter
    exact h.goto _ rfl
  | _ => simp [hpc] at henter

theorem handleOk_step {a : HandleAction} (h : HandleOk w) (hok : FindsAlone w a)
    (hstep : handleStep w a = some w') : HandleOk w' := by
  cases a with
  | vfsopen p path flags fs => exact handleOk_enter h hstep
  | vfschdir p fs => exact handleOk_enter h hstep
  | createPipe p pi => exact handleOk_enter h hstep
  | run p => exact handleOk_run h hok hstep

theorem handleOk_start (h : HandleStart w) : HandleOk w := by
  unfold HandleOk
  rw [h.log]
  refine ok_start fun p i hp => ?_
  obtain ⟨k, hk⟩ := hp
  rw [h.idle p] at hk
  cases hk

end Steps

/-- In every run in which each entry is found by one process at a time, no two calls of
`allocFileHandle` return the same entry without a `freeFileHandle` of it between them. -/
theorem handles_exclusive {w : HandleWorld}
    (h : Run.Reach HandleStart (fun w a w' => handleStep w a = some w') FindsAlone w) :
    Exclusive w.log :=
  (h.invariant (fun _ => handleOk_start) fun _ _ _ hI hok hstep =>
    handleOk_step hI hok hstep).exclusive

/-- An empty table, with nobody in a call. -/
def emptyHandles : HandleWorld :=
  ⟨fun _ => File.zero, fun _ _ => none, none, fun _ => .idle, []⟩

theorem emptyHandles_start : HandleStart emptyHandles := ⟨fun _ => rfl, rfl, rfl⟩

/-- Process 1 is interrupted in front of its `fp->ref = 1`, and process 2 opens a file. -/
def raceActions : List HandleAction :=
  [.vfsopen 1 [47, 97] 0 .device, .run 1, .run 1,
    .vfsopen 2 [47, 98] 0 .device, .run 2, .run 2, .run 2, .run 1]

/-- Both get the first entry. -/
theorem handles_race : ∃ w, Run.Reach HandleStart (fun w a w' => handleStep w a = some w')
      Run.anyStep w ∧ w.log = [.grant 1 0, .grant 2 0] ∧ ¬ Exclusive w.log := by
  have hstart : Run.Reach HandleStart (fun w a w' => handleStep w a = some w') Run.anyStep
      emptyHandles := .start emptyHandles_start
  have h := hstart.runSome raceActions rfl
  refine ⟨_, h, rfl, ?_⟩
  exact not_exclusive_grant ⟨[], 2, [], rfl, List.not_mem_nil⟩

/-- Process 1 alone. -/
theorem handles_exclusive_alone : ∃ w : HandleWorld, w.log = [.grant 1 0] ∧
    Exclusive w.log := by
  have h0 : Run.Reach HandleStart (fun w a w' => handleStep w a = some w') FindsAlone
      emptyHandles := .start emptyHandles_start
  have h1 := h0.next (a := HandleAction.vfsopen 1 [47, 97] 0 .device) trivial rfl
  have h2 := h1.next (a := HandleAction.run 1) (fun _ _ hpc => by cases hpc) rfl
  have h3 := h2.next (a := HandleAction.run 1) (fun k i hpc hfree q hq hpend => by
    obtain ⟨k', hk'⟩ := hpend
    simp [HandleWorld.goto, emptyHandles, Function.update_of_ne hq] at hk') rfl
  have h4 := h3.next (a := HandleAction.run 1) (fun _ _ hpc => by cases hpc) rfl
  exact ⟨_, rfl, handles_exclusive h4⟩

end PageFaultOS
