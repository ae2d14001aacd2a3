import Mathlib.Tactic
import PageFaultOS.Mm.UserCopy
import PageFaultOS.Fs.Path
import PageFaultOS.Fs.FileTable
import PageFaultOS.Fs.Mount
import PageFaultOS.Proc.ExitWait
import PageFaultOS.Proc.Lifetime
import PageFaultOS.Proc.Pipe

/-! The spinlocks that a call takes and gives back: `wait`, `wait4` and `allocproc` of
`proc/proc.cpp`, `registFileHandle`, the pipes of `proc/pipe.cpp` and `vfsmount` and `vfsumount`
of `fs/vfs.cpp`, on one hart, with `kmem.lock` around what `kalloc` and `kfree` do to the free
list. While the hart waits for a lock the others do whatever they like to the rest of the
kernel. -/

namespace PageFaultOS
open Exec Exec.Comp ByteMem

def kmemLock : LockId := .other 0
def mountedFsLock : LockId := .other 1

/-- The lock of the pipe at `a`. -/
def pipeLock (a : Nat) : LockId := .other (2 + a)

/-- `&nread` and `&nwrite` of the pipe at `a`. -/
def nreadChan (a : Nat) : Addr := .other (2 * a)
def nwriteChan (a : Nat) : Addr := .other (2 * a + 1)

/-- The fields of `struct proc` that `Proc` leaves out. `name` and `context` have nothing to do
with a lock. -/
structure LockProc where
  pid : Int
  killed : Bool
  trapframe : Nat
  pagetable : Nat
  sz : Nat

/-- A `FileSystem` at `addr`. -/
structure MountedFs where
  addr : Nat
  mountPos : CStr
  specialDev : CStr

structure LockWorld where
  kern : Kern
  mem : MemState
  proc : Nat → LockProc
  pipe : Nat → Pipe
  mountedFS : Nat → Option MountedFs
  /-- The linker's `trampoline`. -/
  trampolineCode : Nat

abbrev LockComp := Comp LockWorld

/-- `others l` is what the other harts do while this one waits for `l`. `procBelow` says whether
the array `proc` lies below the end of `procTable`, which the loop of `allocproc` tests. -/
structure OtherHarts where
  others : LockId → LockWorld → LockWorld
  pswitch : KernComp Nat
  procBelow : Bool

/-- The other harts leave the `struct cpu` of hart `h`, its interrupts and its locks alone. -/
structure OtherHarts.Spare (env : OtherHarts) (h : Nat) : Prop where
  cpus : ∀ l w, (env.others l w).kern.cpus h = w.kern.cpus h
  sie : ∀ l w, (env.others l w).kern.sie h = w.kern.sie h
  holds : ∀ l w l', (env.others l w).kern.Holds h l' ↔ w.kern.Holds h l'

inductive FileSystemType where
  | fat32 | sysfs | devfs | procfs | unknown
  deriving DecidableEq, Repr

/-- A bound for the loops that have none. -/
def callRounds : Nat := 2 ^ 32

/-- The four bytes of an `int`. -/
def intBytes (x : Int) : List UInt8 :=
  (List.range 4).map fun k => UInt8.ofNat ((x % 2 ^ 32).toNat / 256 ^ k)

/-- The part of `kalloc` that has the lock. -/
def takeRun : MemComp Nat := do
  let σ ← read
  let r := σ.freelist
  if r ≠ 0 then
    modify fun σ => { σ with
      freelist := readWord σ.mem r, npages := u64 (σ.npages + (2 ^ 64 - 1)) }
  pure r

/-- The part of `kfree` that has the lock. -/
def giveRun (pa : Nat) : MemComp Unit := do
  let σ ← read
  setWord pa σ.freelist
  modify fun σ => { σ with freelist := pa, npages := u64 (σ.npages + 1) }

namespace LockWorld
variable (env : OtherHarts) (h : Nat)

def onKern {α : Type} (x : KernComp α) : LockComp α := fun w =>
  match x w.kern with
  | .ok a σ => .ok a { w with kern := σ }
  | .fault f σ => .fault f { w with kern := σ }

def onMem {α : Type} (x : MemComp α) : LockComp α := fun w =>
  match x w.mem with
  | .ok a σ => .ok a { w with mem := σ }
  | .fault f σ => .fault f { w with mem := σ }

def setProc (i : Nat) (f : LockProc → LockProc) : LockComp Unit :=
  modify fun w => { w with proc := Function.update w.proc i (f (w.proc i)) }

def setPipe (a : Nat) (f : Pipe → Pipe) : LockComp Unit :=
  modify fun w => { w with pipe := Function.update w.pipe a (f (w.pipe a)) }

def setMounted (i : Nat) (fs : Option MountedFs) : LockComp Unit :=
  modify fun w => { w with mountedFS := Function.update w.mountedFS i fs }

def acquire (l : LockId) : LockComp Unit := do
  onKern (acquireEnter h l)
  modify (env.others l)
  if ← onKern (testAndSet l) then
    fault .diverge
  else
    onKern (lockCpu h l)

def release (l : LockId) : LockComp Unit := onKern (PageFaultOS.release h l)

def runningProc : LockComp Nat := onKern (PageFaultOS.runningProc h)

def kalloc : LockComp Nat := do
  acquire env h kmemLock
  let r ← onMem takeRun
  release h kmemLock
  if r ≠ 0 then
    onMem (memset r 5 pgsize)
  pure r

def kfree (pa : Nat) : LockComp Unit := do
  let w ← read
  if pa % pgsize ≠ 0 ∨ pa < w.mem.kernelEnd ∨ phystop < pa then
    Comp.panic "kfree: invalid physical address"
  else do
    onMem (memset pa 1 pgsize)
    acquire env h kmemLock
    onMem (giveRun pa)
    release h kmemLock

/-! ## `wait`, `wait4` -/

/-- The locks that `freeProcPagetable` takes are left out: its callers hold two themselves and
do not get past the next `release`. -/
def freeproc (p : Nat) : LockComp Unit := do
  let w ← read
  let q := w.proc p
  if q.trapframe ≠ 0 then
    kfree env h q.trapframe
  setProc p fun q => { q with trapframe := 0 }
  if q.pagetable ≠ 0 then
    onMem (freeProcPagetable q.pagetable q.sz)
  setProc p fun q => { q with pagetable := 0, sz := 0, killed := false }
  onKern (PageFaultOS.setProc p freeprocEntry)

/-- `vaddr != 0 && copyout(...) < 0`. -/
def statusFails (p child vaddr : Nat) : LockComp Bool := do
  if vaddr = 0 then
    pure false
  else do
    let w ← read
    let r ← onMem (copyout (w.proc p).pagetable vaddr (intBytes (w.kern.procTable child).xstate))
    pure (decide (r < 0))

/-- A zombie is found; `r` is what the call is to return. -/
def reap (p child vaddr : Nat) (r : Int) : LockComp Int := do
  if ← statusFails p child vaddr then
    release h (.proc child)
    release h (.proc p)
    pure (-1)
  else do
    freeproc env h child
    release h (.proc child)
    release h (.proc p)
    pure r

/-- One round of the inner loop of `wait`: it goes on, it comes to its end with `havechild`,
or the call returns. -/
def waitScan (p vaddr : Nat) : Nat × Bool → LockComp ((Nat × Bool) ⊕ (Bool ⊕ Int)) :=
    fun (child, havechild) => do
  if ¬ child < NPROC then
    pure (.inr (.inl havechild))
  else do
    let w ← read
    if (w.kern.procTable child).parent = some p then do
      acquire env h (.proc child)
      let w ← read
      if (w.kern.procTable child).state = .zombie then do
        let r ← reap env h p child vaddr (w.proc child).pid
        pure (.inr (.inr r))
      else do
        release h (.proc child)
        pure (.inl (child + 1, true))
    else
      pure (.inl (child + 1, havechild))

/-- One round of the outer loop, on the hart on which the process is. -/
def waitRound (p vaddr : Nat) : Nat → LockComp (Nat ⊕ (Nat × Int)) := fun h => do
  match ← loop (waitScan env h p vaddr) (NPROC + 1) (0, false) with
  | .inr r => pure (.inr (h, r))
  | .inl havechild =>
    if ¬ havechild then
      pure (.inr (h, -1))
    else do
      let q ← runningProc h
      let h' ← onKern (sleep h (.proc p) (.proc q) env.pswitch)
      pure (.inl h')

/-- A call returns the hart on which it comes back, and its result. -/
def wait (vaddr : Nat) : LockComp (Nat × Int) := do
  let p ← runningProc h
  acquire env h (.proc p)
  loop (waitRound env p vaddr) callRounds h

def wait4Round (p child vaddr : Nat) (pid : Int) : Nat → LockComp (Nat ⊕ (Nat × Int)) :=
    fun h => do
  acquire env h (.proc child)
  onKern (PageFaultOS.setProc child fun q => { q with xstate := shiftXstate q.xstate })
  let w ← read
  if (w.kern.procTable child).state = .zombie then do
    let r ← reap env h p child vaddr pid
    pure (.inr (h, r))
  else do
    release h (.proc child)
    let q ← runningProc h
    let h' ← onKern (sleep h (.proc p) (.proc q) env.pswitch)
    pure (.inl h')

def wait4 (pid : Int) (vaddr : Nat) : LockComp (Nat × Int) := do
  if (NPROC : Int) ≤ pid then
    pure (h, -1)
  else do
    let p ← runningProc h
    if pid < 0 then
      fault (.undefined "procTable")
    else do
      let child := pid.toNat
      acquire env h (.proc child)
      let w ← read
      if (w.kern.procTable child).parent ≠ some p then do
        release h (.proc child)
        pure (h, -1)
      else do
        release h (.proc child)
        acquire env h (.proc p)
        loop (wait4Round env p child vaddr pid) callRounds h

/-! ## `allocproc`, `registFileHandle` -/

/-- Behind the label `found`. -/
def allocprocFound (p : Nat) : LockComp (Option Nat) := do
  let frame ← kalloc env h
  setProc p fun q => { q with trapframe := frame }
  if frame = 0 then do
    release h (.proc p)
    pure none
  else do
    let w ← read
    let pagetable ← onMem (procPagetable w.trampolineCode frame)
    setProc p fun q => { q with pagetable := pagetable }
    onMem (memset frame 0 trapframeBytes)
    release h (.proc p)
    pure (some p)

/-- The test of the loop, `proc < &procTable[NPROC]`, is about another array. -/
def allocprocRound (p : Nat) : LockComp (Nat ⊕ Option Nat) := do
  if env.procBelow = false then
    pure (.inr none)
  else if ¬ p < NPROC then
    fault (.undefined "procTable")
  else do
    acquire env h (.proc p)
    let w ← read
    if (w.kern.procTable p).state = .unused then do
      let r ← allocprocFound env h p
      pure (.inr r)
    else do
      release h (.proc p)
      pure (.inl (p + 1))

def allocproc : LockComp (Option Nat) := loop (allocprocRound env h) (NPROC + 1) 1

def setOfile (p fd : Nat) (fp : Option Nat) : LockComp Unit :=
  onKern (PageFaultOS.setProc p fun q => { q with ofile := Function.update q.ofile fd fp })

def registFileHandle (fp : Nat) (fd : Int) : LockComp Int := do
  if (NFILE : Int) < fd then
    pure (-1)
  else do
    let p ← runningProc h
    acquire env h (.proc p)
    let w ← read
    if fd < 0 then
      match (List.range NOFILE).find? fun i => (w.kern.procTable p).ofile i = none with
      | some i => do
        setOfile p i (some fp)
        release h (.proc p)
        pure i
      | none => Comp.panic "registFileHandle"
    else if (w.kern.procTable p).ofile fd.toNat = none then do
      setOfile p fd.toNat (some fp)
      release h (.proc p)
      pure fd
    else do
      release h (.proc p)
      pure (-1)

/-! ## Pipes -/

/-- The `while` loop of `piperead`, which `killed` leaves with `false`. -/
def pipereadWait (a p : Nat) : Nat → LockComp (Nat ⊕ (Nat × Bool)) := fun h => do
  let w ← read
  if (w.pipe a).nread = (w.pipe a).nwrite ∧ (w.pipe a).writeable then
    if (w.proc p).killed then
      pure (.inr (h, false))
    else do
      let h' ← onKern (sleep h (nreadChan a) (pipeLock a) env.pswitch)
      pure (.inl h')
  else
    pure (.inr (h, true))

def pipereadByte (a p addr : Nat) (n : Int) (i : Nat) : LockComp (Nat ⊕ Int) := do
  if ¬ (i : Int) < n then
    pure (.inr i)
  else do
    let w ← read
    if (w.pipe a).nread = (w.pipe a).nwrite then
      pure (.inr i)
    else do
      let ch := (w.pipe a).buf ((w.pipe a).nread.toNat % PIPESIZE)
      setPipe a fun q => { q with nread := q.nread + 1 }
      let r ← onMem (copyout (w.proc p).pagetable (u64 (addr + i)) [ch])
      if r = -1 then
        pure (.inr i)
      else
        pure (.inl (i + 1))

def piperead (a addr : Nat) (n : Int) : LockComp (Nat × Int) := do
  let p ← runningProc h
  acquire env h (pipeLock a)
  let (h, go) ← loop (pipereadWait env a p) callRounds h
  if ¬ go then do
    release h (pipeLock a)
    pure (h, -1)
  else do
    let i ← loop (pipereadByte a p addr n) callRounds 0
    onKern (wakeup (nwriteChan a))
    release h (pipeLock a)
    pure (h, i)

/-- The `while` loop of `pipewrite`. -/
def pipewriteWait (a p : Nat) : Nat → LockComp (Nat ⊕ (Nat × Bool)) := fun h => do
  let w ← read
  if (w.pipe a).nwrite = (w.pipe a).nread + 512 then
    if (w.pipe a).readable = false ∨ (w.proc p).killed then
      pure (.inr (h, false))
    else do
      onKern (wakeup (nreadChan a))
      let h' ← onKern (sleep h (nwriteChan a) (pipeLock a) env.pswitch)
      pure (.inl h')
  else
    pure (.inr (h, true))

/-- One round of the `for` loop, which ends with `none` where the call is to return `-1`. -/
def pipewriteByte (a p addr : Nat) (n : Int) :
    Nat × Nat → LockComp ((Nat × Nat) ⊕ (Nat × Option Nat)) := fun (h, i) => do
  if ¬ (i : Int) < n then
    pure (.inr (h, some i))
  else do
    let (h, go) ← loop (pipewriteWait env a p) callRounds h
    if ¬ go then
      pure (.inr (h, none))
    else do
      let w ← read
      let (r, ch) ← onMem (copyin (w.proc p).pagetable (u64 (addr + i)) 1)
      if r = -1 then
        pure (.inr (h, some i))
      else do
        setPipe a fun q => { q with
          buf := Function.update q.buf (q.nwrite.toNat % PIPESIZE) (ch.headD 0)
          nwrite := q.nwrite + 1 }
        pure (.inl (h, i + 1))

def pipewrite (a addr : Nat) (n : Int) : LockComp (Nat × Int) := do
  let p ← runningProc h
  acquire env h (pipeLock a)
  match ← loop (pipewriteByte env a p addr n) callRounds (h, 0) with
  | (h, none) => do
    release h (pipeLock a)
    pure (h, -1)
  | (h, some i) => do
    onKern (wakeup (nreadChan a))
    release h (pipeLock a)
    pure (h, i)

/-! ## `vfsmount`, `vfsumount` -/

/-- `oldpath` behind a `./`. -/
def skipDot (path : CStr) : CStr := if path.take 2 = [46, 47] then path.drop 2 else path

/-- A path that does not fit into the buffer is written behind its end. -/
def getAbPath (path : CStr) : LockComp CStr := do
  let p ← runningProc h
  let w ← read
  if (skipDot path).head? = some 47 then
    if (skipDot path).length < MAXPATH then
      pure (skipDot path)
    else
      fault (.undefined "path buffer")
  else do
    let q ← runningProc h
    acquire env h (.proc q)
    let newpath := (w.kern.procTable p).workDir ++ skipDot path
    if newpath.length < MAXPATH then do
      let q ← runningProc h
      release h (.proc q)
      pure newpath
    else
      fault (.undefined "path buffer")

/-- `new` is `kalloc`, and the object is written where it says. -/
def createFileSystem (type : FileSystemType) : LockComp Nat := do
  if type = .devfs ∨ type = .fat32 then do
    let fs ← kalloc env h
    if fs = 0 then
      fault (.undefined "null file system")
    else
      pure fs
  else
    Comp.panic "create file system"

/-- `DeviceFS::init` does nothing. -/
def vfsmount (type : FileSystemType) (mountPoint specialDev : CStr) : LockComp Int := do
  let absolutMp ← getAbPath env h mountPoint
  let fs ← createFileSystem env h type
  acquire env h mountedFsLock
  let w ← read
  match (List.range NFILESYSTEM).find? fun i => (w.mountedFS i).isNone with
  | some i => do
    release h mountedFsLock
    setMounted i (some ⟨fs, absolutMp, specialDev⟩)
    pure 0
  | none => do
    release h mountedFsLock
    Comp.panic "mount file system"

/-- `strncmp` over the longer of the two strings compares them whole; `delete` is `kfree`. -/
def vfsumount (mpdir : CStr) : LockComp Int := do
  let absolutMp ← getAbPath env h mpdir
  acquire env h mountedFsLock
  let w ← read
  match (List.range NFILESYSTEM).findSome? fun i =>
      (w.mountedFS i).bind fun fs => if fs.mountPos = absolutMp then some (i, fs) else none with
  | some (i, fs) => do
    setMounted i none
    release h mountedFsLock
    kfree env h fs.addr
    pure 0
  | none => do
    release h mountedFsLock
    pure (-1)

/-! ## The locks of a hart -/

/-- Where the call returns, `Q` holds of its result and of the state it leaves. -/
abbrev Leaves {α : Type} (x : LockComp α) (w : LockWorld) (Q : α → LockWorld → Prop) : Prop :=
  (x w).Holds Q fun _ _ => True

section
variable {h p : Nat} {env : OtherHarts} {held : List LockId} {l : LockId} {w : LockWorld}

theorem Leaves.bind {α β : Type} {x : LockComp α} {f : α → LockComp β}
    {P : α → LockWorld → Prop} {Q : β → LockWorld → Prop} (hx : Leaves x w P)
    (hf : ∀ a w', P a w' → Leaves (f a) w' Q) : Leaves (x >>= f) w Q :=
  Res.holds_bind hx hf

theorem onKern_holds {α : Type} {x : KernComp α} {Q : α → Kern → Prop}
    (hx : (x w.kern).Holds Q fun _ _ => True) :
    Leaves (onKern x) w fun a w' => Q a w'.kern := by
  unfold Leaves onKern
  cases hr : x w.kern with
  | ok a σ =>
    rw [hr] at hx
    exact hx
  | fault f σ => trivial

theorem onMem_holds {α : Type} (x : MemComp α) :
    Leaves (onMem x) w fun _ w' => w'.kern = w.kern := by
  unfold Leaves onMem
  cases x w.mem with
  | ok a σ => rfl
  | fault f σ => trivial

/-- What belongs to the hart is as it was. -/
theorem entry_same {σ σ' : Kern} (hentry : Entry h p held σ) (hcpus : σ'.cpus h = σ.cpus h)
    (hsie : σ'.sie h = σ.sie h) (hholds : ∀ l, σ'.Holds h l ↔ σ.Holds h l) :
    Entry h p held σ' := by
  refine ⟨?_, hentry.inTable, fun l => (hholds l).trans (hentry.holds l), ?_, fun hpos => ?_⟩
  · rw [hcpus]
    exact hentry.current
  · rw [hcpus]
    exact hentry.noff
  · rw [hsie]
    exact hentry.off hpos

/-- One level deeper, before the lock is taken. -/
theorem acquireEnter_entry {σ : Kern} (hentry : Entry h p held σ) :
    (acquireEnter h l σ).Holds (fun _ τ => τ = pushed σ h ∧ l ∉ held) fun _ _ => True := by
  unfold acquireEnter
  by_cases hmax : (σ.cpus h).noff = intMax
  · rw [bind_fault (pushOff_max σ h hmax)]
    trivial
  · rw [bind_ok (pushOff_eq σ h hmax)]
    have hself : (pushed σ h).Holds h l ↔ l ∈ held := hentry.holds l
    by_cases hin : l ∈ held
    · simp [holding, bind_apply, hself, hin]
    · simp [holding, bind_apply, hself, hin]

theorem acquire_entry (henv : env.Spare h) (hentry : Entry h p held w.kern) :
    Leaves (acquire env h l) w fun _ w' => Entry h p (l :: held) w'.kern := by
  unfold acquire
  refine Res.holds_bind (onKern_holds (acquireEnter_entry hentry)) ?_
  rintro - w1 ⟨hpushed, hnot⟩
  rw [modify_bind]
  generalize hw2 : env.others l w1 = w2
  have hcpus := henv.cpus l w1
  have hsie := henv.sie l w1
  have hholds := henv.holds l w1
  rw [hw2, hpushed] at hcpus hsie hholds
  cases hlocked : (w2.kern.locks l).locked with
  | true => simp [onKern, testAndSet, setLock, bind_apply, hlocked]
  | false =>
    have hrun : (onKern (testAndSet l) >>= fun taken =>
        if taken = true then fault .diverge else onKern (lockCpu h l)) w2 = .ok () { w2 with
          kern := { w2.kern with
            locks := Function.update w2.kern.locks l ⟨true, some h⟩ } } := by
      simp [onKern, testAndSet, lockCpu, setLock, bind_apply, hlocked]
    rw [hrun]
    refine ⟨?_, hentry.inTable, fun l' => ?_, ?_, fun _ => ?_⟩
    · rw [hcpus]
      simpa [pushed] using hentry.current
    · by_cases heq : l' = l
      · subst heq
        simp [Kern.Holds]
      · have hold : (pushed w.kern h).Holds h l' ↔ l' ∈ held := hentry.holds l'
        rw [List.mem_cons, or_iff_right heq, ← hold, ← hholds l']
        simp [Kern.Holds, Function.update_of_ne heq]
    · rw [hcpus, List.length_cons]
      simp [pushed, hentry.noff]
    · rw [hsie]
      simp [pushed]

theorem release_entry (hentry : Entry h p [l] w.kern) :
    Leaves (release h l) w fun _ w' => Entry h p [] w'.kern := by
  refine onKern_holds (Q := fun _ σ => Entry h p [] σ) ?_
  have hholds : w.kern.Holds h l := (hentry.holds l).mpr List.mem_cons_self
  have hnoff : (w.kern.cpus h).noff = 1 := hentry.noff
  have hsie := hentry.off (by simp)
  generalize w.kern = σ at *
  have hpop : popOff h { σ with locks := Function.update σ.locks l ⟨false, none⟩ } =
      .ok () (popped { σ with locks := Function.update σ.locks l ⟨false, none⟩ } h) :=
    popOff_one _ h hsie hnoff
  have hrun : PageFaultOS.release h l σ =
      .ok () (popped { σ with locks := Function.update σ.locks l ⟨false, none⟩ } h) := by
    rw [← hpop]
    simp [PageFaultOS.release, releaseEnter, lockRelease, holding, setLock, bind_apply, hholds]
  rw [hrun]
  refine ⟨?_, hentry.inTable, fun l' => ?_, ?_, fun h0 => absurd h0 (Nat.lt_irrefl 0)⟩
  · simpa [popped] using hentry.current
  · have hother := hentry.holds l'
    by_cases heq : l' = l
    · simp [Kern.Holds, popped, heq]
    · simp only [List.mem_singleton, heq, iff_false] at hother
      simp only [Kern.Holds, popped, Function.update_of_ne heq, List.not_mem_nil, iff_false]
      exact hother
  · simp [popped, hnoff]

/-- The inner one of two locks cannot be given back. -/
theorem release_deep (hentry : Entry h p held w.kern) (hdeep : 2 ≤ held.length) :
    Leaves (release h l) w fun _ _ => False := by
  refine onKern_holds (Q := fun _ _ => False) ?_
  have hnoff := hentry.noff
  have hsie := hentry.off (by omega)
  generalize w.kern = σ at *
  by_cases hholds : σ.Holds h l
  · have hpop : popOff h { σ with locks := Function.update σ.locks l ⟨false, none⟩ } =
        .fault (.panic "pop_off") { σ with locks := Function.update σ.locks l ⟨false, none⟩ } :=
      popOff_deep _ h hsie (by simp only [hnoff]; omega)
    have hrun : PageFaultOS.release h l σ =
        popOff h { σ with locks := Function.update σ.locks l ⟨false, none⟩ } := by
      simp [PageFaultOS.release, releaseEnter, lockRelease, holding, setLock, bind_apply, hholds]
    rw [hrun, hpop]
    trivial
  · simp [PageFaultOS.release, releaseEnter, holding, bind_apply, hholds]

theorem runningProc_entry (hentry : Entry h p held w.kern) :
    Leaves (runningProc h) w fun q w' => q = p ∧ held = [] ∧ Entry h p [] w'.kern := by
  refine onKern_holds (Q := fun q σ => q = p ∧ held = [] ∧ Entry h p [] σ) ?_
  rcases Nat.eq_zero_or_pos held.length with h0 | hpos
  · have hnoff : (w.kern.cpus h).noff = 0 := by
      rw [hentry.noff, h0]
      rfl
    obtain rfl := List.length_eq_zero_iff.mp h0
    rw [runningProc_outer hnoff hentry.current]
    refine ⟨rfl, rfl, ?_, hentry.inTable, hentry.holds, ?_, fun h0 => absurd h0 (Nat.lt_irrefl 0)⟩
    · simpa [popped, pushed] using hentry.current
    · simp [popped, pushed, hnoff]
  · obtain ⟨f, s, hfault⟩ := runningProc_nested (σ := w.kern) (h := h) (by
      rw [hentry.noff]
      omega)
    rw [hfault]
    trivial

theorem sleep_entry {chan : Addr} (hentry : Entry h p held w.kern) (hheld : held ≠ []) :
    Leaves (onKern (sleep h chan l env.pswitch)) w fun _ _ => False := by
  refine onKern_holds (Q := fun _ _ => False) ?_
  have hpos := List.length_pos_iff.mpr hheld
  obtain ⟨f, s, hfault⟩ := sleep_neverSwitches (σ := w.kern) (h := h) chan l (by
    rw [hentry.noff]
    omega)
  rw [hfault]
  trivial

/-- Code that touches no lock and no `struct cpu`. -/
theorem onMem_entry {α : Type} (x : MemComp α) (hentry : Entry h p held w.kern) :
    Leaves (onMem x) w fun _ w' => Entry h p held w'.kern := by
  refine (onMem_holds x).mono (fun _ w' hkern => ?_) fun _ _ _ => trivial
  rwa [hkern]

theorem setEntry_entry (i : Nat) (f : Proc → Proc) (hentry : Entry h p held w.kern) :
    Leaves (onKern (PageFaultOS.setProc i f)) w fun _ w' => Entry h p held w'.kern :=
  entry_same hentry rfl rfl fun _ => Iff.rfl

theorem setProc_entry (i : Nat) (f : LockProc → LockProc) (hentry : Entry h p held w.kern) :
    Leaves (setProc i f) w fun _ w' => Entry h p held w'.kern := hentry

theorem setPipe_entry (a : Nat) (f : Pipe → Pipe) (hentry : Entry h p held w.kern) :
    Leaves (setPipe a f) w fun _ w' => Entry h p held w'.kern := hentry

theorem setMounted_entry (i : Nat) (fs : Option MountedFs) (hentry : Entry h p held w.kern) :
    Leaves (setMounted i fs) w fun _ w' => Entry h p held w'.kern := hentry

theorem wakeup_entry (chan : Addr) (hentry : Entry h p held w.kern) :
    Leaves (onKern (wakeup chan)) w fun _ w' => Entry h p held w'.kern := by
  refine onKern_holds (Q := fun _ σ => Entry h p held σ) ?_
  cases hrun : wakeup chan w.kern with
  | fault f σ => trivial
  | ok u σ =>
    unfold wakeup at hrun
    refine forEach_inv (I := fun σ => Entry h p held σ) (fun i _ s s' hs hi => ?_) hentry hrun
    rw [read_bind] at hi
    split at hi
    · cases hi
      exact entry_same hs rfl rfl fun _ => Iff.rfl
    · cases hi
      exact hs

section
variable (henv : env.Spare h)
include henv

theorem kalloc_deep (hentry : Entry h p held w.kern) (hheld : held ≠ []) :
    Leaves (kalloc env h) w fun _ _ => False := by
  unfold kalloc
  refine (acquire_entry henv hentry).bind fun _ w1 h1 => ?_
  refine (onMem_entry takeRun h1).bind fun _ w2 h2 => ?_
  have hpos := List.length_pos_iff.mpr hheld
  exact (release_deep h2 (by rw [List.length_cons]; omega)).bind fun _ _ hf => hf.elim

theorem kalloc_outer (hentry : Entry h p [] w.kern) :
    Leaves (kalloc env h) w fun _ w' => Entry h p [] w'.kern := by
  unfold kalloc
  refine (acquire_entry henv hentry).bind fun _ w1 h1 => ?_
  refine (onMem_entry takeRun h1).bind fun r w2 h2 => ?_
  refine (release_entry h2).bind fun _ w3 h3 => ?_
  by_cases hr : r = 0
  · simp only [hr, ne_eq, not_true_eq_false, if_false]
    exact h3
  · simp only [hr, ne_eq, not_false_eq_true, if_true]
    exact (onMem_entry _ h3).bind fun _ _ h4 => h4

theorem kfree_deep (pa : Nat) (hentry : Entry h p held w.kern) (hheld : held ≠ []) :
    Leaves (kfree env h pa) w fun _ _ => False := by
  unfold kfree
  rw [Leaves, read_bind]
  split
  · trivial
  · refine (onMem_entry _ hentry).bind fun _ w1 h1 => ?_
    refine (acquire_entry henv h1).bind fun _ w2 h2 => ?_
    refine (onMem_entry _ h2).bind fun _ w3 h3 => ?_
    have hpos := List.length_pos_iff.mpr hheld
    exact release_deep h3 (by rw [List.length_cons]; omega)

theorem kfree_outer (pa : Nat) (hentry : Entry h p [] w.kern) :
    Leaves (kfree env h pa) w fun _ w' => Entry h p [] w'.kern := by
  unfold kfree
  rw [Leaves, read_bind]
  split
  · trivial
  · refine (onMem_entry _ hentry).bind fun _ w1 h1 => ?_
    refine (acquire_entry henv h1).bind fun _ w2 h2 => ?_
    exact (onMem_entry _ h2).bind fun _ w3 h3 => release_entry h3

/-! ### `wait`, `wait4` -/

/-- With locks held `freeproc` comes back to them, if at all. -/
theorem freeproc_deep (i : Nat) (hentry : Entry h p held w.kern) (hheld : held ≠ []) :
    Leaves (freeproc env h i) w fun _ w' => Entry h p held w'.kern := by
  have hfields : ∀ w1 : LockWorld, Entry h p held w1.kern → Leaves (do
      setProc i fun q => { q with pagetable := 0, sz := 0, killed := false }
      onKern (PageFaultOS.setProc i freeprocEntry)) w1 fun _ w' => Entry h p held w'.kern :=
    fun w1 h1 => (setProc_entry i _ h1).bind fun _ w2 h2 => setEntry_entry i _ h2
  have htable : ∀ w1 : LockWorld, Entry h p held w1.kern → Leaves (do
      setProc i fun q => { q with trapframe := 0 }
      if (w.proc i).pagetable ≠ 0 then
        onMem (freeProcPagetable (w.proc i).pagetable (w.proc i).sz)
      setProc i fun q => { q with pagetable := 0, sz := 0, killed := false }
      onKern (PageFaultOS.setProc i freeprocEntry)) w1 fun _ w' => Entry h p held w'.kern := by
    intro w1 h1
    refine (setProc_entry i _ h1).bind fun _ w2 h2 => ?_
    dsimp only
    split
    · exact (onMem_entry _ h2).bind fun _ w3 h3 => hfields w3 h3
    · exact hfields w2 h2
  unfold freeproc
  rw [Leaves, read_bind]
  dsimp only
  split
  · exact (kfree_deep henv _ hentry hheld).bind fun _ _ hf => hf.elim
  · exact htable w hentry

theorem reap_never {child : Nat} (vaddr : Nat) (r : Int) (hentry : Entry h p held w.kern)
    (hdeep : 2 ≤ held.length) : Leaves (reap env h p child vaddr r) w fun _ _ => False := by
  have hheld : held ≠ [] := List.ne_nil_of_length_pos (by omega)
  have hstatus : Leaves (statusFails p child vaddr) w fun _ w' => Entry h p held w'.kern := by
    unfold statusFails
    split
    · exact hentry
    · rw [Leaves, read_bind]
      exact (onMem_entry _ hentry).bind fun _ w1 h1 => h1
  unfold reap
  refine hstatus.bind fun fails w1 h1 => ?_
  cases fails with
  | true => exact (release_deep h1 hdeep).bind fun _ _ hf => hf.elim
  | false =>
    refine (freeproc_deep henv child h1 hheld).bind fun _ w2 h2 => ?_
    exact (release_deep h2 hdeep).bind fun _ _ hf => hf.elim

/-- Once it has found a child, `wait` does not return. -/
theorem waitScan_child {vaddr child : Nat} {havechild : Bool} (hchild : child < NPROC)
    (hentry : Entry h p held w.kern) (hheld : held ≠ [])
    (hparent : (w.kern.procTable child).parent = some p) :
    Leaves (waitScan env h p vaddr (child, havechild)) w fun _ _ => False := by
  have hpos := List.length_pos_iff.mpr hheld
  have hdeep : 2 ≤ (LockId.proc child :: held).length := by
    rw [List.length_cons]
    omega
  unfold waitScan
  dsimp only
  rw [if_neg (not_not_intro hchild), Leaves, read_bind, if_pos hparent]
  refine (acquire_entry henv hentry).bind fun _ w1 h1 => ?_
  rw [Leaves, read_bind]
  split
  · exact (reap_never henv _ _ h1 hdeep).bind fun _ _ hf => hf.elim
  · exact (release_deep h1 hdeep).bind fun _ _ hf => hf.elim

omit henv in
theorem waitScan_other {vaddr child : Nat} {havechild : Bool} (hchild : child < NPROC)
    (hparent : (w.kern.procTable child).parent ≠ some p) :
    waitScan env h p vaddr (child, havechild) w = .ok (.inl (child + 1, havechild)) w := by
  unfold waitScan
  dsimp only
  rw [if_neg (not_not_intro hchild), read_bind, if_neg hparent]
  rfl

omit henv in
theorem waitScan_end {vaddr child : Nat} {havechild : Bool} (hchild : ¬ child < NPROC) :
    waitScan env h p vaddr (child, havechild) w = .ok (.inr (.inl havechild)) w := by
  unfold waitScan
  dsimp only
  rw [if_pos hchild]
  rfl

theorem waitLoop_child {vaddr child : Nat} (hchild : child < NPROC)
    (hentry : Entry h p held w.kern) (hheld : held ≠ [])
    (hparent : (w.kern.procTable child).parent = some p) (fuel i : Nat) (hi : i ≤ child)
    (havechild : Bool) :
    Leaves (loop (waitScan env h p vaddr) fuel (i, havechild)) w fun _ _ => False := by
  induction fuel generalizing i with
  | zero => trivial
  | succ fuel ih =>
    by_cases hfound : (w.kern.procTable i).parent = some p
    · rw [Leaves, loop_succ]
      exact (waitScan_child henv (Nat.lt_of_le_of_lt hi hchild) hentry hheld hfound).bind
        fun _ _ hf => hf.elim
    · have hne : i ≠ child := fun heq => hfound (heq ▸ hparent)
      rw [Leaves, loop_again (waitScan_other (Nat.lt_of_le_of_lt hi hchild) hfound)]
      exact ih (i + 1) (Nat.lt_of_le_of_ne hi hne)

omit henv in
theorem waitLoop_none {vaddr : Nat} (hnone : ∀ i < NPROC, (w.kern.procTable i).parent ≠ some p)
    (fuel i : Nat) (hi : i ≤ NPROC) (hfuel : NPROC < fuel + i) (havechild : Bool) :
    loop (waitScan env h p vaddr) fuel (i, havechild) w = .ok (.inl havechild) w := by
  induction fuel generalizing i with
  | zero => omega
  | succ fuel ih =>
    by_cases hlt : i < NPROC
    · rw [loop_again (waitScan_other hlt (hnone i hlt))]
      exact ih (i + 1) hlt (by omega)
    · exact loop_done (waitScan_end hlt) fuel

omit henv in
/-- Without a child `wait` returns with its own lock. -/
theorem waitRound_none {vaddr : Nat}
    (hnone : ∀ i < NPROC, (w.kern.procTable i).parent ≠ some p) :
    waitRound env p vaddr h w = .ok (.inr (h, -1)) w := by
  unfold waitRound
  rw [bind_ok (waitLoop_none hnone (NPROC + 1) 0 (Nat.zero_le _) (Nat.lt_succ_self _) false)]
  rfl

theorem waitRound_child {vaddr child : Nat} (hchild : child < NPROC)
    (hentry : Entry h p held w.kern) (hheld : held ≠ [])
    (hparent : (w.kern.procTable child).parent = some p) :
    Leaves (waitRound env p vaddr h) w fun _ _ => False := by
  unfold waitRound
  exact (waitLoop_child henv hchild hentry hheld hparent _ 0 (Nat.zero_le _) false).bind
    fun _ _ hf => hf.elim

/-- `wait4` returns before it takes its own lock, or not at all. -/
theorem wait4Round_never {child vaddr : Nat} {pid : Int} (hentry : Entry h p held w.kern)
    (hheld : held ≠ []) : Leaves (wait4Round env p child vaddr pid h) w fun _ _ => False := by
  have hpos := List.length_pos_iff.mpr hheld
  have hdeep : 2 ≤ (LockId.proc child :: held).length := by
    rw [List.length_cons]
    omega
  unfold wait4Round
  refine (acquire_entry henv hentry).bind fun _ w1 h1 => ?_
  refine (setEntry_entry _ _ h1).bind fun _ w2 h2 => ?_
  rw [Leaves, read_bind]
  split
  · exact (reap_never henv _ _ h2 hdeep).bind fun _ _ hf => hf.elim
  · exact (release_deep h2 hdeep).bind fun _ _ hf => hf.elim

theorem wait4_entry (pid : Int) (vaddr : Nat) (hentry : Entry h p held w.kern) :
    Leaves (wait4 env h pid vaddr) w fun r w' => r.1 = h ∧ Entry h p held w'.kern := by
  unfold wait4
  split
  · exact ⟨rfl, hentry⟩
  · refine (runningProc_entry hentry).bind ?_
    rintro q w1 ⟨rfl, rfl, h1⟩
    split
    · trivial
    · refine (acquire_entry henv h1).bind fun _ w2 h2 => ?_
      rw [Leaves, read_bind]
      split
      · exact (release_entry h2).bind fun _ w3 h3 => ⟨rfl, h3⟩
      · refine (release_entry h2).bind fun _ w3 h3 => ?_
        refine (acquire_entry henv h3).bind fun _ w4 h4 => ?_
        obtain ⟨n, hn⟩ : ∃ n, callRounds = n + 1 := ⟨2 ^ 32 - 1, rfl⟩
        rw [hn, Leaves, loop_succ]
        exact (wait4Round_never henv h4 (by simp)).bind fun _ _ hf => hf.elim

/-! ### The other calls -/

omit henv in
/-- The lock taken last, if it can be given back at all. -/
theorem release_last (hentry : Entry h p (l :: held) w.kern) :
    Leaves (release h l) w fun _ w' => Entry h p held w'.kern := by
  cases held with
  | nil => exact release_entry hentry
  | cons l' held =>
    refine (release_deep hentry (by simp)).mono (fun _ _ hf => hf.elim) fun _ _ _ => trivial

theorem allocproc_entry (hentry : Entry h p held w.kern) :
    Leaves (allocproc env h) w fun _ w' => Entry h p held w'.kern := by
  unfold allocproc
  refine Res.holds_loop (I := fun _ w => Entry h p held w.kern) (fun i w1 h1 => ?_)
    (fun _ _ _ => trivial) _ _ w hentry
  unfold allocprocRound
  split
  · exact h1
  · split
    · trivial
    · refine Leaves.bind (acquire_entry henv h1) fun _ w2 h2 => ?_
      rw [Leaves, read_bind]
      split
      · unfold allocprocFound
        refine Leaves.bind (P := fun _ _ => False) ?_ fun _ _ hf => hf.elim
        exact (kalloc_deep henv h2 (by simp)).bind fun _ _ hf => hf.elim
      · exact (release_last h2).bind fun _ w3 h3 => h3

theorem registFileHandle_entry (fp : Nat) (fd : Int) (hentry : Entry h p held w.kern) :
    Leaves (registFileHandle env h fp fd) w fun _ w' => Entry h p held w'.kern := by
  unfold registFileHandle
  split
  · exact hentry
  · refine (runningProc_entry hentry).bind ?_
    rintro q w1 ⟨rfl, rfl, h1⟩
    refine (acquire_entry henv h1).bind fun _ w2 h2 => ?_
    rw [Leaves, read_bind]
    split
    · cases (List.range NOFILE).find? fun i =>
          decide ((w2.kern.procTable q).ofile i = none) with
      | some i =>
        exact (setEntry_entry _ _ h2).bind fun _ w3 h3 =>
          (release_entry h3).bind fun _ w4 h4 => h4
      | none => trivial
    · split
      · exact (setEntry_entry _ _ h2).bind fun _ w3 h3 =>
          (release_entry h3).bind fun _ w4 h4 => h4
      · exact (release_entry h2).bind fun _ w3 h3 => h3

theorem piperead_entry (a addr : Nat) (n : Int) (hentry : Entry h p held w.kern) :
    Leaves (piperead env h a addr n) w fun r w' => r.1 = h ∧ Entry h p held w'.kern := by
  unfold piperead
  refine (runningProc_entry hentry).bind ?_
  rintro q w1 ⟨rfl, rfl, h1⟩
  refine (acquire_entry henv h1).bind fun _ w2 h2 => ?_
  -- `sleep` under the lock does not return
  have hwait : Leaves (loop (pipereadWait env a q) callRounds h) w2 fun r w' =>
      r.1 = h ∧ Entry h q [pipeLock a] w'.kern := by
    refine Res.holds_loop (I := fun h' w => h' = h ∧ Entry h q [pipeLock a] w.kern) ?_
      (fun _ _ _ => trivial) _ _ w2 ⟨rfl, h2⟩
    rintro h' w3 ⟨rfl, h3⟩
    unfold pipereadWait
    rw [read_bind]
    split
    · split
      · exact ⟨rfl, h3⟩
      · exact Leaves.bind (sleep_entry h3 (by simp)) fun _ _ hf => hf.elim
    · exact ⟨rfl, h3⟩
  refine hwait.bind ?_
  rintro ⟨h', go⟩ w3 ⟨hh, h3⟩
  simp only at hh
  subst hh
  dsimp only
  split
  · exact (release_entry h3).bind fun _ w4 h4 => ⟨rfl, h4⟩
  · have hbytes : Leaves (loop (pipereadByte a q addr n) callRounds 0) w3 fun _ w' =>
        Entry h' q [pipeLock a] w'.kern := by
      refine Res.holds_loop (I := fun _ w => Entry h' q [pipeLock a] w.kern) (fun i w4 h4 => ?_)
        (fun _ _ _ => trivial) _ _ w3 h3
      unfold pipereadByte
      split
      · exact h4
      · rw [read_bind]
        split
        · exact h4
        · refine Leaves.bind (setPipe_entry _ _ h4) fun _ w5 h5 => ?_
          refine (onMem_entry _ h5).bind fun r w6 h6 => ?_
          split
          · exact h6
          · exact h6
    refine hbytes.bind fun i w4 h4 => ?_
    refine (wakeup_entry _ h4).bind fun _ w5 h5 => ?_
    exact (release_entry h5).bind fun _ w6 h6 => ⟨rfl, h6⟩

theorem pipewriteWait_entry (a : Nat) (hentry : Entry h p [pipeLock a] w.kern) :
    Leaves (loop (pipewriteWait env a p) callRounds h) w fun r w' =>
      r.1 = h ∧ Entry h p [pipeLock a] w'.kern := by
  refine Res.holds_loop (I := fun h' w => h' = h ∧ Entry h p [pipeLock a] w.kern) ?_
    (fun _ _ _ => trivial) _ _ w ⟨rfl, hentry⟩
  rintro h' w1 ⟨rfl, h1⟩
  unfold pipewriteWait
  rw [read_bind]
  split
  · split
    · exact ⟨rfl, h1⟩
    · refine Leaves.bind (wakeup_entry _ h1) fun _ w2 h2 => ?_
      exact (sleep_entry h2 (by simp)).bind fun _ _ hf => hf.elim
  · exact ⟨rfl, h1⟩

theorem pipewrite_entry (a addr : Nat) (n : Int) (hentry : Entry h p held w.kern) :
    Leaves (pipewrite env h a addr n) w fun r w' => r.1 = h ∧ Entry h p held w'.kern := by
  unfold pipewrite
  refine (runningProc_entry hentry).bind ?_
  rintro q w1 ⟨rfl, rfl, h1⟩
  refine (acquire_entry henv h1).bind fun _ w2 h2 => ?_
  have hbytes : Leaves (loop (pipewriteByte env a q addr n) callRounds (h, 0)) w2 fun r w' =>
      r.1 = h ∧ Entry h q [pipeLock a] w'.kern := by
    refine Res.holds_loop (I := fun r w => r.1 = h ∧ Entry h q [pipeLock a] w.kern) ?_
      (fun _ _ _ => trivial) _ _ w2 ⟨rfl, h2⟩
    rintro ⟨h', i⟩ w3 ⟨rfl, h3⟩
    unfold pipewriteByte
    dsimp only
    split
    · exact ⟨rfl, h3⟩
    · refine Leaves.bind (pipewriteWait_entry henv a h3) ?_
      rintro ⟨h'', go⟩ w4 ⟨hh, h4⟩
      simp only at hh
      subst hh
      dsimp only
      split
      · exact ⟨rfl, h4⟩
      · rw [Leaves, read_bind]
        refine (onMem_entry _ h4).bind fun r w5 h5 => ?_
        obtain ⟨r, ch⟩ := r
        dsimp only
        split
        · exact ⟨rfl, h5⟩
        · exact (setPipe_entry _ _ h5).bind fun _ w6 h6 => ⟨rfl, h6⟩
  refine hbytes.bind ?_
  rintro ⟨h', r⟩ w3 ⟨hh, h3⟩
  simp only at hh
  subst hh
  cases r with
  | none => exact (release_entry h3).bind fun _ w4 h4 => ⟨rfl, h4⟩
  | some i =>
    refine (wakeup_entry _ h3).bind fun _ w4 h4 => ?_
    exact (release_entry h4).bind fun _ w5 h5 => ⟨rfl, h5⟩

/-- A relative path panics: the second `curproc` is made with the lock held. -/
theorem getAbPath_entry (path : CStr) (hentry : Entry h p held w.kern) :
    Leaves (getAbPath env h path) w fun _ w' => held = [] ∧ Entry h p [] w'.kern := by
  unfold getAbPath
  refine (runningProc_entry hentry).bind ?_
  rintro q w1 ⟨rfl, rfl, h1⟩
  rw [Leaves, read_bind]
  split
  · split
    · exact ⟨rfl, h1⟩
    · trivial
  · refine Leaves.bind (runningProc_entry h1) ?_
    rintro q' w2 ⟨rfl, -, h2⟩
    refine (acquire_entry henv h2).bind fun _ w3 h3 => ?_
    dsimp only
    split
    · refine (runningProc_entry h3).bind ?_
      rintro q'' w4 ⟨-, hnil, -⟩
      cases hnil
    · trivial

theorem vfsmount_entry (type : FileSystemType) (mountPoint specialDev : CStr)
    (hentry : Entry h p held w.kern) :
    Leaves (vfsmount env h type mountPoint specialDev) w fun _ w' => Entry h p held w'.kern := by
  unfold vfsmount
  refine (getAbPath_entry henv mountPoint hentry).bind ?_
  rintro absolutMp w1 ⟨rfl, h1⟩
  have hcreate : Leaves (createFileSystem env h type) w1 fun _ w' => Entry h p [] w'.kern := by
    unfold createFileSystem
    split
    · refine (kalloc_outer henv h1).bind fun fs w2 h2 => ?_
      split
      · trivial
      · exact h2
    · trivial
  refine hcreate.bind fun fs w2 h2 => ?_
  refine (acquire_entry henv h2).bind fun _ w3 h3 => ?_
  rw [Leaves, read_bind]
  cases (List.range NFILESYSTEM).find? fun i => (w3.mountedFS i).isNone with
  | some i =>
    exact Leaves.bind (release_entry h3) fun _ w4 h4 =>
      (setMounted_entry i _ h4).bind fun _ w5 h5 => h5
  | none => exact Leaves.bind (release_entry h3) fun _ _ _ => trivial

theorem vfsumount_entry (mpdir : CStr) (hentry : Entry h p held w.kern) :
    Leaves (vfsumount env h mpdir) w fun _ w' => Entry h p held w'.kern := by
  unfold vfsumount
  refine (getAbPath_entry henv mpdir hentry).bind ?_
  rintro absolutMp w1 ⟨rfl, h1⟩
  refine (acquire_entry henv h1).bind fun _ w2 h2 => ?_
  rw [Leaves, read_bind]
  cases (List.range NFILESYSTEM).findSome? fun i => (w2.mountedFS i).bind fun fs =>
      if fs.mountPos = absolutMp then some (i, fs) else none with
  | some found =>
    exact Leaves.bind (setMounted_entry _ _ h2) fun _ w3 h3 =>
      (release_entry h3).bind fun _ w4 h4 => (kfree_outer henv _ h4).bind fun _ w5 h5 => h5
  | none => exact Leaves.bind (release_entry h2) fun _ w3 h3 => h3

end

end

/-! ## Lock balance -/

end LockWorld

inductive LockCall where
  | wait (vaddr : Nat)
  | wait4 (pid : Int) (vaddr : Nat)
  | allocproc
  | piperead (a addr : Nat) (n : Int)
  | pipewrite (a addr : Nat) (n : Int)
  | registFileHandle (fp : Nat) (fd : Int)
  | vfsmount (type : FileSystemType) (mountPoint specialDev : CStr)
  | vfsumount (mpdir : CStr)

namespace LockCall
variable (env : OtherHarts) (h : Nat)

/-- The call, and the hart on which it comes back. -/
def run : LockCall → LockComp Nat
  | .wait vaddr => do
    let r ← LockWorld.wait env h vaddr
    pure r.1
  | .wait4 pid vaddr => do
    let r ← LockWorld.wait4 env h pid vaddr
    pure r.1
  | .allocproc => do
    let _ ← LockWorld.allocproc env h
    pure h
  | .piperead a addr n => do
    let r ← LockWorld.piperead env h a addr n
    pure r.1
  | .pipewrite a addr n => do
    let r ← LockWorld.pipewrite env h a addr n
    pure r.1
  | .registFileHandle fp fd => do
    let _ ← LockWorld.registFileHandle env h fp fd
    pure h
  | .vfsmount type mountPoint specialDev => do
    let _ ← LockWorld.vfsmount env h type mountPoint specialDev
    pure h
  | .vfsumount mpdir => do
    let _ ← LockWorld.vfsumount env h mpdir
    pure h

/-- Wherever the call returns, its hart holds the locks of `held` and no others. -/
def Balanced (held : List LockId) (call : LockCall) (w : LockWorld) : Prop :=
  ∀ h' w', call.run env h w = .ok h' w' → ∀ l, w'.kern.Holds h' l ↔ l ∈ held

/-- A `wait` that gets its own lock and then finds no child in the table. -/
def FindsNoChild (p : Nat) (w : LockWorld) : LockCall → Prop
  | .wait _ => ∃ w', (LockWorld.runningProc h >>= fun p => LockWorld.acquire env h (.proc p)) w =
      .ok () w' ∧ ∀ i < NPROC, (w'.kern.procTable i).parent ≠ some p
  | _ => False

section
variable {env : OtherHarts} {h p : Nat} {held : List LockId} {w : LockWorld}

open LockWorld

/-- A `wait` without a child returns with its own lock, and one with a child does not return. -/
theorem wait_balanced_iff (henv : env.Spare h) (hentry : Entry h p held w.kern) (vaddr : Nat) :
    (LockCall.wait vaddr).Balanced env h held w ↔
      ¬ (LockCall.wait vaddr).FindsNoChild env h p w := by
  obtain ⟨n, hn⟩ : ∃ n, callRounds = n + 1 := ⟨2 ^ 32 - 1, rfl⟩
  have hcur := runningProc_entry hentry
  cases hrun : LockWorld.runningProc h w with
  | fault f s =>
    have hfind : ¬ (LockCall.wait vaddr).FindsNoChild env h p w := by
      rintro ⟨w', hok, -⟩
      rw [bind_fault hrun] at hok
      cases hok
    refine iff_of_true (fun h' w' hok => ?_) hfind
    simp only [run, LockWorld.wait, bind_assoc_apply, bind_fault hrun] at hok
    cases hok
  | ok q w1 =>
    rw [Leaves, hrun] at hcur
    obtain ⟨rfl, rfl, h1⟩ := hcur
    have hown := acquire_entry (l := .proc q) henv h1
    cases hacq : LockWorld.acquire env h (.proc q) w1 with
    | fault f s =>
      have hfind : ¬ (LockCall.wait vaddr).FindsNoChild env h q w := by
        rintro ⟨w', hok, -⟩
        rw [bind_ok hrun, hacq] at hok
        cases hok
      refine iff_of_true (fun h' w' hok => ?_) hfind
      simp only [run, LockWorld.wait, bind_assoc_apply, bind_ok hrun, bind_fault hacq] at hok
      cases hok
    | ok u w2 =>
      rw [Leaves, hacq] at hown
      have h2 : Entry h q [.proc q] w2.kern := hown
      have hrest : (LockCall.wait vaddr).run env h w =
          (loop (waitRound env q vaddr) callRounds h >>= fun r => pure r.1) w2 := by
        simp only [run, LockWorld.wait, bind_assoc_apply, bind_ok hrun, bind_ok hacq]
      by_cases hnone : ∀ i < NPROC, (w2.kern.procTable i).parent ≠ some q
      · refine iff_of_false (fun hbalanced => ?_) (not_not_intro ⟨w2, ?_, hnone⟩)
        · have hend : (LockCall.wait vaddr).run env h w = .ok h w2 := by
            rw [hrest, hn, bind_ok (loop_done (waitRound_none hnone) n)]
            rfl
          have hheld := (h2.holds (.proc q)).mpr List.mem_cons_self
          exact List.not_mem_nil ((hbalanced h w2 hend (.proc q)).mp hheld)
        · rw [bind_ok hrun]
          exact hacq
      · have hfind : ¬ (LockCall.wait vaddr).FindsNoChild env h q w := by
          rintro ⟨w', hok, hall⟩
          rw [bind_ok hrun, hacq] at hok
          cases hok
          exact hnone hall
        refine iff_of_true (fun h' w' hok => ?_) hfind
        push Not at hnone
        obtain ⟨child, hchild, hparent⟩ := hnone
        have hnever : Leaves (loop (waitRound env q vaddr) callRounds h) w2 fun _ _ => False := by
          rw [hn, Leaves, loop_succ]
          exact (waitRound_child henv hchild h2 (by simp) hparent).bind fun _ _ hf => hf.elim
        have hfalse := hnever.bind (f := fun r => pure r.1) (Q := fun _ _ => False)
          fun _ _ hf => hf.elim
        rw [Leaves, ← hrest, hok] at hfalse
        exact hfalse.elim

/-- A call that comes back on its hart with the locks it came with. -/
theorem balanced_of_leaves {call : LockCall} (hcall : Leaves (call.run env h) w fun h' w' =>
    h' = h ∧ Entry h p held w'.kern) : call.Balanced env h held w := by
  intro h' w' hok
  rw [Leaves, hok] at hcall
  obtain ⟨rfl, hentry⟩ := hcall
  exact hentry.holds

/-- A call comes back with the locks it came with, unless it is a `wait` that finds no child. -/
theorem locks_balanced_iff (henv : env.Spare h) (hentry : Entry h p held w.kern)
    (call : LockCall) : call.Balanced env h held w ↔ ¬ call.FindsNoChild env h p w := by
  cases call with
  | wait vaddr => exact wait_balanced_iff henv hentry vaddr
  | wait4 pid vaddr =>
    refine iff_of_true (balanced_of_leaves (p := p) ?_) not_false
    exact (wait4_entry henv pid vaddr hentry).bind fun _ _ h1 => h1
  | allocproc =>
    refine iff_of_true (balanced_of_leaves (p := p) ?_) not_false
    exact (allocproc_entry henv hentry).bind fun _ _ h1 => ⟨rfl, h1⟩
  | piperead a addr n =>
    refine iff_of_true (balanced_of_leaves (p := p) ?_) not_false
    exact (piperead_entry henv a addr n hentry).bind fun _ _ h1 => h1
  | pipewrite a addr n =>
    refine iff_of_true (balanced_of_leaves (p := p) ?_) not_false
    exact (pipewrite_entry henv a addr n hentry).bind fun _ _ h1 => h1
  | registFileHandle fp fd =>
    refine iff_of_true (balanced_of_leaves (p := p) ?_) not_false
    exact (registFileHandle_entry henv fp fd hentry).bind fun _ _ h1 => ⟨rfl, h1⟩
  | vfsmount type mountPoint specialDev =>
    refine iff_of_true (balanced_of_leaves (p := p) ?_) not_false
    exact (vfsmount_entry henv type mountPoint specialDev hentry).bind fun _ _ h1 => ⟨rfl, h1⟩
  | vfsumount mpdir =>
    refine iff_of_true (balanced_of_leaves (p := p) ?_) not_false
    exact (vfsumount_entry henv mpdir hentry).bind fun _ _ h1 => ⟨rfl, h1⟩

end

end LockCall

/-! ## A process alone -/

/-- The other harts do nothing. -/
def quietHarts : OtherHarts := ⟨fun _ w => w, pure 0, true⟩

theorem quietHarts_spare (h : Nat) : quietHarts.Spare h :=
  ⟨fun _ _ => rfl, fun _ _ => rfl, fun _ _ _ => Iff.rfl⟩

/-- Process 1 of `soloKern`, without a child. -/
def soloWorld : LockWorld where
  kern := soloKern
  mem := smallMachine
  proc := fun _ => ⟨1, false, 0, 0, 0⟩
  pipe := fun _ => Pipe.create fun _ => 0
  mountedFS := fun _ => none
  trampolineCode := 0x80001000

theorem locks_balanced_iff_solo :
    (LockCall.registFileHandle 0 3).Balanced quietHarts 0 [] soloWorld ↔
      ¬ (LockCall.registFileHandle 0 3).FindsNoChild quietHarts 0 1 soloWorld :=
  LockCall.locks_balanced_iff (quietHarts_spare 0) soloKern_entry _

/-- It calls `wait` and comes back with its own lock. -/
theorem wait_keeps_lock : ¬ ∀ (env : OtherHarts) (h p : Nat) (held : List LockId) (w : LockWorld),
    env.Spare h → Entry h p held w.kern → ∀ call : LockCall, call.Balanced env h held w := by
  intro hall
  have hbalanced := hall quietHarts 0 1 [] soloWorld (quietHarts_spare 0) soloKern_entry
    (.wait 0)
  rw [LockCall.wait_balanced_iff (p := 1) (quietHarts_spare 0) soloKern_entry] at hbalanced
  refine hbalanced ⟨_, rfl, fun i _ hparent => ?_⟩
  cases hparent

end PageFaultOS
