import Mathlib.Tactic
import PageFaultOS.Lib.Run
import PageFaultOS.Lib.Ring
import PageFaultOS.Mm.Riscv

/-! Pipes, from `proc/pipe.cpp`. Any number of processes are inside `piperead` and
`pipewrite` of one pipe; between `acquire` and `release` or `sleep` a process goes on by
itself, one step at a time, while the others can only wait for the lock. `sleep` gives the
lock up and takes it back before it returns. A sleeper may come back at any time, so the
calls of `wakeup` need no step. -/

namespace PageFaultOS

def PIPESIZE : Nat := 512

structure Pipe where
  readable : Bool
  writeable : Bool
  nwrite : UInt32
  nread : UInt32
  buf : Nat → UInt8

inductive EndType where
  | readEnd | writeEnd
  deriving DecidableEq, Repr

/-- The constructor `pipe::pipe`; it leaves `buf` as it is. -/
def Pipe.create (buf : Nat → UInt8) : Pipe := ⟨true, true, 0, 0, buf⟩

/-- Where a process is: between calls, with the result of the last, or inside one. -/
inductive PipePc where
  | idle (r : Int)
  | readAcquire (addr : Nat) (n : Int)
  | readWait (addr : Nat) (n : Int)
  | readSleep (addr : Nat) (n : Int)
  | readLoop (addr : Nat) (n : Int) (i : Nat)
  | readTake (addr : Nat) (n : Int) (i : Nat)
  | writeAcquire (addr : Nat) (n : Int)
  | writeLoop (addr : Nat) (n : Int) (i : Nat)
  | writeWait (addr : Nat) (n : Int) (i : Nat)
  | writeSleep (addr : Nat) (n : Int) (i : Nat)
  | writeStore (addr : Nat) (n : Int) (i : Nat)
  | leave (r : Int)
  deriving DecidableEq, Repr

/-- `user p a` is the byte at user address `a` of process `p`, where it has one.
`accepted` and `taken` are ghosts: the bytes that writers have put into the pipe and the
bytes that readers have received, over all calls. -/
structure PipeWorld where
  pipe : Pipe
  holder : Option Nat
  pc : Nat → PipePc
  killed : Nat → Bool
  user : Nat → Nat → Option UInt8
  accepted : List UInt8
  taken : List UInt8

namespace PipeWorld

def goto (w : PipeWorld) (p : Nat) (pc : PipePc) : PipeWorld :=
  { w with pc := Function.update w.pc p pc }

/-- `acquire`, which waits while another process has the lock. -/
def acquire (w : PipeWorld) (p : Nat) (pc : PipePc) : Option PipeWorld :=
  if w.holder = none then some ({ w with holder := some p }.goto p pc) else none

def release (w : PipeWorld) (p : Nat) (pc : PipePc) : PipeWorld :=
  { w with holder := none }.goto p pc

/-- `copyout` of one byte to process `p`. -/
def copyout (w : PipeWorld) (p a : Nat) (ch : UInt8) : Option PipeWorld :=
  if (w.user p a).isSome then
    some { w with user := Function.update w.user p (Function.update (w.user p) a (some ch)) }
  else none

/-- `ch = buf[nread++ % PIPESIZE]`. -/
def take (w : PipeWorld) : UInt8 × PipeWorld :=
  (w.pipe.buf (w.pipe.nread.toNat % PIPESIZE),
    { w with pipe := { w.pipe with nread := w.pipe.nread + 1 } })

/-- `buf[nwrite++ % PIPESIZE] = ch`. -/
def put (w : PipeWorld) (ch : UInt8) : PipeWorld :=
  { w with
    pipe := { w.pipe with
      buf := Function.update w.pipe.buf (w.pipe.nwrite.toNat % PIPESIZE) ch
      nwrite := w.pipe.nwrite + 1 }
    accepted := w.accepted ++ [ch] }

/-- The next step of process `p`, if it is in a call and need not wait. -/
def run (w : PipeWorld) (p : Nat) : Option PipeWorld :=
  match w.pc p with
  | .idle _ => none
  | .readAcquire addr n => w.acquire p (.readWait addr n)
  | .readWait addr n =>
    if w.pipe.nread = w.pipe.nwrite ∧ w.pipe.writeable then
      if w.killed p then some (w.goto p (.leave (-1)))
      else some (w.release p (.readSleep addr n))
    else some (w.goto p (.readLoop addr n 0))
  | .readSleep addr n => w.acquire p (.readWait addr n)
  | .readLoop addr n i =>
    if i < n ∧ w.pipe.nread ≠ w.pipe.nwrite then some (w.goto p (.readTake addr n i))
    else some (w.goto p (.leave i))
  | .readTake addr n i =>
    match w.take.2.copyout p (u64 (addr + i)) w.take.1 with
    | none => some (w.take.2.goto p (.leave i))
    | some w' => some ({ w' with taken := w'.taken ++ [w.take.1] }.goto p (.readLoop addr n (i + 1)))
  | .writeAcquire addr n => w.acquire p (.writeLoop addr n 0)
  | .writeLoop addr n i =>
    if i < n then some (w.goto p (.writeWait addr n i)) else some (w.goto p (.leave i))
  | .writeWait addr n i =>
    if w.pipe.nwrite = w.pipe.nread + 512 then
      if w.pipe.readable = false ∨ w.killed p then some (w.goto p (.leave (-1)))
      else some (w.release p (.writeSleep addr n i))
    else some (w.goto p (.writeStore addr n i))
  | .writeSleep addr n i => w.acquire p (.writeWait addr n i)
  | .writeStore addr n i =>
    match w.user p (u64 (addr + i)) with
    | none => some (w.goto p (.leave i))
    | some ch => some ((w.put ch).goto p (.writeLoop addr n (i + 1)))
  | .leave r => some (w.release p (.idle r))

/-- `pipeclose`; the pipe is deleted with its second end. -/
def pipeclose (w : PipeWorld) : EndType → PipeWorld
  | .readEnd => { w with pipe := { w.pipe with readable := false } }
  | .writeEnd => { w with pipe := { w.pipe with writeable := false } }

end PipeWorld

/-- `user` stands for everything else that changes the memory of the processes. -/
inductive PipeAction where
  | piperead (p addr : Nat) (n : Int)
  | pipewrite (p addr : Nat) (n : Int)
  | run (p : Nat)
  | pipeclose (e : EndType)
  | kill (p : Nat)
  | user (u : Nat → Nat → Option UInt8)

/-- A deleted pipe makes no more steps. -/
def pipeStep (w : PipeWorld) (a : PipeAction) : Option PipeWorld :=
  if w.pipe.readable = false ∧ w.pipe.writeable = false then none
  else match a with
    | .piperead p addr n => match w.pc p with
      | .idle _ => some (w.goto p (.readAcquire addr n))
      | _ => none
    | .pipewrite p addr n => match w.pc p with
      | .idle _ => some (w.goto p (.writeAcquire addr n))
      | _ => none
    | .run p => w.run p
    | .pipeclose e => if w.holder = none then some (w.pipeclose e) else none
    | .kill p => some { w with killed := Function.update w.killed p true }
    | .user u => some { w with user := u }

/-- A pipe that has just been created, with nobody in it. -/
structure PipeStart (w : PipeWorld) : Prop where
  created : ∃ buf, w.pipe = .create buf
  free : w.holder = none
  idle : ∀ p, ∃ r, w.pc p = .idle r
  accepted : w.accepted = []
  taken : w.taken = []

/-- A step in which `copyout` succeeds. -/
def CopiesOut (w : PipeWorld) : PipeAction → Prop
  | .run p => ∀ addr n i, w.pc p = .readTake addr n i → (w.user p (u64 (addr + i))).isSome
  | _ => True

/-- The bytes from `nread` to `nwrite`, oldest first. -/
def Pipe.contents (s : Pipe) : List UInt8 :=
  (List.range (s.nwrite - s.nread).toNat).map fun k =>
    s.buf ((s.nread + UInt32.ofNat k).toNat % PIPESIZE)

/-! ## The buffer as a ring -/

def Pipe.ring (s : Pipe) : Ring.Buffer UInt8 := ⟨s.nread.toNat, s.nwrite.toNat, s.buf⟩

private theorem pipe_fits : Ring.Fits (2 ^ 32) PIPESIZE :=
  ⟨⟨2 ^ 23, by decide⟩, by decide, by decide⟩

private theorem ring_count (s : Pipe) :
    Ring.count (2 ^ 32) s.ring = (s.nwrite - s.nread).toNat := by
  have h := s.nread.toNat_lt
  rw [UInt32.toNat_sub]
  show (s.nwrite.toNat + 2 ^ 32 - s.nread.toNat) % 2 ^ 32 = _
  congr 1
  omega

theorem Pipe.contents_eq (s : Pipe) : s.contents = Ring.contents (2 ^ 32) PIPESIZE s.ring := by
  unfold Pipe.contents Ring.contents
  rw [ring_count]
  apply List.map_congr_left
  intro k _
  rw [UInt32.toNat_add, UInt32.toNat_ofNat', Nat.add_mod_mod]
  rfl

theorem Pipe.create_contents (buf : Nat → UInt8) : (Pipe.create buf).contents = [] := by
  simp [Pipe.contents, Pipe.create]

private theorem ring_take (w : PipeWorld) :
    w.take.2.pipe.ring = Ring.pop (2 ^ 32) w.pipe.ring := by
  simp only [PipeWorld.take, Pipe.ring, Ring.pop, UInt32.toNat_add]
  rfl

private theorem ring_put (w : PipeWorld) (ch : UInt8) :
    (w.put ch).pipe.ring = Ring.push (2 ^ 32) PIPESIZE w.pipe.ring ch := by
  simp only [PipeWorld.put, Pipe.ring, Ring.push, UInt32.toNat_add]
  rfl

private theorem ring_empty_iff {s : Pipe} (h : Ring.Valid (2 ^ 32) PIPESIZE s.ring) :
    s.nread = s.nwrite ↔ Ring.count (2 ^ 32) s.ring = 0 := by
  rw [← h.empty_iff]
  exact UInt32.toNat_inj.symm

private theorem ring_full_iff {s : Pipe} (h : Ring.Valid (2 ^ 32) PIPESIZE s.ring) :
    s.nwrite = s.nread + 512 ↔ Ring.count (2 ^ 32) s.ring = PIPESIZE := by
  rw [← h.full_iff pipe_fits, ← UInt32.toNat_inj, UInt32.toNat_add]
  rfl

/-! ## The invariant -/

/-- Where a process is only with the lock. -/
def PipePc.Locked : PipePc → Prop
  | .idle _ | .readAcquire .. | .readSleep .. | .writeAcquire .. | .writeSleep .. => False
  | _ => True

/-- What the test before it has shown a process that is about to use the buffer. -/
def PipePc.Tested (s : Pipe) : PipePc → Prop
  | .readTake .. => s.nread ≠ s.nwrite
  | .writeStore .. => s.nwrite ≠ s.nread + 512
  | _ => True

structure PipeInv (w : PipeWorld) : Prop where
  valid : Ring.Valid (2 ^ 32) PIPESIZE w.pipe.ring
  fifo : w.accepted = w.taken ++ w.pipe.contents
  locked : ∀ p, (w.pc p).Locked → w.holder = some p
  tested : ∀ p, (w.pc p).Tested w.pipe

private theorem tested_of_not_locked {pc : PipePc} (h : ¬ pc.Locked) (s : Pipe) :
    pc.Tested s := by
  cases pc <;> first | trivial | exact absurd trivial h

theorem pipeInv_start {w : PipeWorld} (h : PipeStart w) : PipeInv w := by
  have hidle : ∀ p, ¬ (w.pc p).Locked := by
    intro p
    obtain ⟨r, hr⟩ := h.idle p
    rw [hr]
    exact id
  obtain ⟨buf, hbuf⟩ := h.created
  refine ⟨?_, ?_, fun p hp => absurd hp (hidle p), fun p => tested_of_not_locked (hidle p) _⟩
  · rw [hbuf]
    have hcount : Ring.count (2 ^ 32) (Pipe.create buf).ring = 0 := by
      rw [ring_count]
      simp [Pipe.create]
    exact ⟨Nat.two_pow_pos 32, Nat.two_pow_pos 32, by omega⟩
  · rw [h.accepted, h.taken, hbuf, Pipe.create_contents]
    rfl

/-- A step of process `p` while nobody else has the lock. The other processes are then
outside, where the pipe does not matter. -/
private theorem pipeInv_of_alone {w w' : PipeWorld} {p : Nat}
    (hothers : ∀ q, q ≠ p → ¬ (w.pc q).Locked) (hpc : ∀ q, q ≠ p → w'.pc q = w.pc q)
    (hvalid : Ring.Valid (2 ^ 32) PIPESIZE w'.pipe.ring)
    (hfifo : w'.accepted = w'.taken ++ w'.pipe.contents)
    (hlocked : (w'.pc p).Locked → w'.holder = some p) (htested : (w'.pc p).Tested w'.pipe) :
    PipeInv w' := by
  have hout : ∀ q, q ≠ p → ¬ (w'.pc q).Locked := by
    intro q hq
    rw [hpc q hq]
    exact hothers q hq
  refine ⟨hvalid, hfifo, fun q hq => ?_, fun q => ?_⟩
  · by_cases hqp : q = p
    · subst hqp
      exact hlocked hq
    · exact absurd hq (hout q hqp)
  · by_cases hqp : q = p
    · subst hqp
      exact htested
    · exact tested_of_not_locked (hout q hqp) _

private theorem PipeInv.alone {w : PipeWorld} {p : Nat} (hI : PipeInv w)
    (hp : (w.pc p).Locked) : ∀ q, q ≠ p → ¬ (w.pc q).Locked := by
  intro q hq hlocked
  have h1 := hI.locked p hp
  rw [hI.locked q hlocked] at h1
  exact hq (Option.some.inj h1)

section Steps
variable {w w' : PipeWorld} {p : Nat} {pc : PipePc}

/-- On to another place inside the critical section. -/
private theorem PipeInv.goto (hI : PipeInv w) (hp : (w.pc p).Locked)
    (htested : pc.Tested w.pipe) : PipeInv (w.goto p pc) := by
  refine pipeInv_of_alone (hI.alone hp) (fun q hq => Function.update_of_ne hq ..) hI.valid hI.fifo
    (fun _ => hI.locked p hp) ?_
  simp only [PipeWorld.goto, Function.update_self]
  exact htested

private theorem PipeInv.release (hI : PipeInv w) (hp : (w.pc p).Locked) (hout : ¬ pc.Locked) :
    PipeInv (w.release p pc) := by
  have hpc : (w.release p pc).pc p = pc := Function.update_self ..
  refine pipeInv_of_alone (hI.alone hp) (fun q hq => Function.update_of_ne hq ..) hI.valid hI.fifo
    (fun h => ?_) ?_
  · rw [hpc] at h
    exact absurd h hout
  · rw [hpc]
    exact tested_of_not_locked hout _

private theorem PipeInv.acquire (hI : PipeInv w) (hrun : w.acquire p pc = some w')
    (htested : ∀ s, pc.Tested s) : PipeInv w' := by
  unfold PipeWorld.acquire at hrun
  split at hrun
  · rename_i hfree
    cases hrun
    have hnone : ∀ q, q ≠ p → ¬ (w.pc q).Locked := by
      intro q _ hq
      have h1 := hI.locked q hq
      rw [hfree] at h1
      cases h1
    refine pipeInv_of_alone hnone (fun q hq => Function.update_of_ne hq ..) hI.valid hI.fifo
      (fun _ => rfl) ?_
    simp only [PipeWorld.goto, Function.update_self]
    exact htested _
  · cases hrun

/-- A byte that reaches its reader was the oldest in the buffer. -/
private theorem PipeInv.take {addr i : Nat} {n : Int} (hI : PipeInv w)
    (hpc : w.pc p = .readTake addr n i)
    (hcopy : w.take.2.copyout p (u64 (addr + i)) w.take.1 = some w') :
    PipeInv ({ w' with taken := w'.taken ++ [w.take.1] }.goto p (.readLoop addr n (i + 1))) := by
  have hp : (w.pc p).Locked := by rw [hpc]; trivial
  have hne : Ring.count (2 ^ 32) w.pipe.ring ≠ 0 := by
    intro h0
    have htested := hI.tested p
    rw [hpc] at htested
    exact htested ((ring_empty_iff hI.valid).mpr h0)
  obtain ⟨hvalid, hcontents⟩ := hI.valid.popped hne
  unfold PipeWorld.copyout at hcopy
  split at hcopy
  · cases hcopy
    refine pipeInv_of_alone (p := p) (hI.alone hp) (fun q hq => Function.update_of_ne hq ..) ?_ ?_
      (fun _ => hI.locked p hp) ?_
    · rw [← ring_take] at hvalid
      exact hvalid
    · show w.accepted = (w.taken ++ [w.take.1]) ++ w.take.2.pipe.contents
      rw [hI.fifo, Pipe.contents_eq, hcontents, ← ring_take, Pipe.contents_eq, List.append_assoc]
      rfl
    · simp only [PipeWorld.goto, Function.update_self]
      trivial
  · cases hcopy

/-- A byte that is accepted goes behind the youngest. -/
private theorem PipeInv.put {addr i : Nat} {n : Int} (hI : PipeInv w)
    (hpc : w.pc p = .writeStore addr n i) (ch : UInt8) :
    PipeInv ((w.put ch).goto p (.writeLoop addr n (i + 1))) := by
  have hp : (w.pc p).Locked := by rw [hpc]; trivial
  have hroom : Ring.count (2 ^ 32) w.pipe.ring < PIPESIZE := by
    have htested := hI.tested p
    rw [hpc] at htested
    have hne : Ring.count (2 ^ 32) w.pipe.ring ≠ PIPESIZE :=
      fun h => htested ((ring_full_iff hI.valid).mpr h)
    have := hI.valid.bounded
    omega
  obtain ⟨hvalid, hcontents⟩ := hI.valid.pushed pipe_fits hroom ch
  refine pipeInv_of_alone (p := p) (hI.alone hp) (fun q hq => Function.update_of_ne hq ..) ?_ ?_
    (fun _ => hI.locked p hp) ?_
  · rw [← ring_put] at hvalid
    exact hvalid
  · show w.accepted ++ [ch] = w.taken ++ (w.put ch).pipe.contents
    rw [Pipe.contents_eq, ring_put, hcontents, ← Pipe.contents_eq, hI.fifo, List.append_assoc]
  · simp only [PipeWorld.goto, Function.update_self]
    trivial

end Steps

theorem pipeInv_run {w w' : PipeWorld} {p : Nat} (hI : PipeInv w)
    (hok : CopiesOut w (.run p)) (hrun : w.run p = some w') : PipeInv w' := by
  unfold PipeWorld.run at hrun
  have hp : (pc : PipePc) → w.pc p = pc → pc.Locked → (w.pc p).Locked := by
    intro pc hpc h
    rw [hpc]
    exact h
  cases hpc : w.pc p with
  | idle r => simp [hpc] at hrun
  | readAcquire addr n =>
    simp only [hpc] at hrun
    exact hI.acquire hrun fun _ => trivial
  | readWait addr n =>
    have hl := hp _ hpc trivial
    simp only [hpc] at hrun
    split at hrun
    · split at hrun
      · cases hrun
        exact hI.goto hl trivial
      · cases hrun
        exact hI.release hl id
    · cases hrun
      exact hI.goto hl trivial
  | readSleep addr n =>
    simp only [hpc] at hrun
    exact hI.acquire hrun fun _ => trivial
  | readLoop addr n i =>
    have hl := hp _ hpc trivial
    simp only [hpc] at hrun
    split at hrun
    · rename_i htest
      cases hrun
      exact hI.goto hl htest.2
    · cases hrun
      exact hI.goto hl trivial
  | readTake addr n i =>
    have hsome := hok addr n i hpc
    simp only [hpc] at hrun
    cases hcopy : w.take.2.copyout p (u64 (addr + i)) w.take.1 with
    | none =>
      have huser : w.take.2.user = w.user := rfl
      simp [PipeWorld.copyout, huser, hsome] at hcopy
    | some w'' =>
      rw [hcopy] at hrun
      cases hrun
      exact hI.take hpc hcopy
  | writeAcquire addr n =>
    simp only [hpc] at hrun
    exact hI.acquire hrun fun _ => trivial
  | writeLoop addr n i =>
    have hl := hp _ hpc trivial
    simp only [hpc] at hrun
    split at hrun <;> cases hrun <;> exact hI.goto hl trivial
  | writeWait addr n i =>
    have hl := hp _ hpc trivial
    simp only [hpc] at hrun
    split at hrun
    · split at hrun
      · cases hrun
        exact hI.goto hl trivial
      · cases hrun
        exact hI.release hl id
    · rename_i hroom
      cases hrun
      exact hI.goto hl hroom
  | writeSleep addr n i =>
    simp only [hpc] at hrun
    exact hI.acquire hrun fun _ => trivial
  | writeStore addr n i =>
    have hl := hp _ hpc trivial
    simp only [hpc] at hrun
    cases hin : w.user p (u64 (addr + i)) with
    | none =>
      rw [hin] at hrun
      cases hrun
      exact hI.goto hl trivial
    | some ch =>
      rw [hin] at hrun
      cases hrun
      exact hI.put hpc ch
  | leave r =>
    have hl := hp _ hpc trivial
    simp only [hpc] at hrun
    cases hrun
    exact hI.release hl id

theorem pipeInv_step {w w' : PipeWorld} {a : PipeAction} (hI : PipeInv w)
    (hok : CopiesOut w a) (hstep : pipeStep w a = some w') : PipeInv w' := by
  -- a step of the surroundings leaves the buffer, the lock and the ghosts as they are
  have henter : ∀ p r pc, w.pc p = .idle r → ¬ PipePc.Locked pc → PipeInv (w.goto p pc) := by
    intro p r pc hidle hout
    have hne : ∀ q, ((w.goto p pc).pc q).Locked → q ≠ p := by
      intro q hq hqp
      subst hqp
      simp only [PipeWorld.goto, Function.update_self] at hq
      exact hout hq
    refine ⟨hI.valid, hI.fifo, fun q hq => ?_, fun q => ?_⟩
    · have hpc : (w.goto p pc).pc q = w.pc q := Function.update_of_ne (hne q hq) ..
      rw [hpc] at hq
      exact hI.locked q hq
    · by_cases hq : ((w.goto p pc).pc q).Locked
      · have hpc : (w.goto p pc).pc q = w.pc q := Function.update_of_ne (hne q hq) ..
        rw [hpc]
        exact hI.tested q
      · exact tested_of_not_locked hq _
  unfold pipeStep at hstep
  split at hstep
  · cases hstep
  · cases a with
    | piperead p addr n =>
      cases hpc : w.pc p with
      | idle r =>
        simp only [hpc] at hstep
        cases hstep
        exact henter p r _ hpc id
      | _ => simp [hpc] at hstep
    | pipewrite p addr n =>
      cases hpc : w.pc p with
      | idle r =>
        simp only [hpc] at hstep
        cases hstep
        exact henter p r _ hpc id
      | _ => simp [hpc] at hstep
    | run p => exact pipeInv_run hI hok hstep
    | pipeclose e =>
      simp only at hstep
      split at hstep
      · cases hstep
        cases e <;> exact ⟨hI.valid, hI.fifo, hI.locked, hI.tested⟩
      · cases hstep
    | kill p =>
      cases hstep
      exact ⟨hI.valid, hI.fifo, hI.locked, hI.tested⟩
    | user u =>
      cases hstep
      exact ⟨hI.valid, hI.fifo, hI.locked, hI.tested⟩

/-- Whatever the interleaving and however often the counters wrap, what the readers have
received is what the writers have put in, less what is still in the buffer. -/
theorem pipe_fifo {w : PipeWorld}
    (h : Run.Reach PipeStart (fun w a w' => pipeStep w a = some w') CopiesOut w) :
    w.taken <+: w.accepted ∧ w.accepted = w.taken ++ w.pipe.contents ∧
      w.pipe.contents.length ≤ PIPESIZE := by
  have hI : PipeInv w := h.invariant (fun _ => pipeInv_start)
    (fun _ _ _ hI hok hstep => pipeInv_step hI hok hstep)
  have hfifo := hI.fifo
  refine ⟨?_, hfifo, ?_⟩
  · rw [hfifo]
    exact List.prefix_append _ _
  · rw [Pipe.contents_eq, Ring.contents_length]
    exact hI.valid.bounded

/-- A new pipe; every user byte is 7. -/
def newPipeWorld : PipeWorld :=
  ⟨.create fun _ => 0, none, fun _ => .idle 0, fun _ => false, fun _ _ => some 7, [], []⟩

/-- Process 1 writes one byte: after its store the byte is in the buffer. -/
theorem pipe_fifo_one_byte : ∃ w : PipeWorld, w.accepted = [7] ∧ w.taken = [] ∧
    w.taken <+: w.accepted ∧ w.accepted = w.taken ++ w.pipe.contents ∧
      w.pipe.contents.length ≤ PIPESIZE := by
  have hstart : PipeStart newPipeWorld := ⟨⟨_, rfl⟩, rfl, fun _ => ⟨0, rfl⟩, rfl, rfl⟩
  have h1 : Run.Reach PipeStart (fun w a w' => pipeStep w a = some w') CopiesOut newPipeWorld :=
    .start hstart
  have h2 := h1.next (a := PipeAction.pipewrite 1 0 1) trivial rfl
  have h3 := h2.next (a := PipeAction.run 1) (fun _ _ _ h => by cases h) rfl
  have h4 := h3.next (a := PipeAction.run 1) (fun _ _ _ h => by cases h) rfl
  have h5 := h4.next (a := PipeAction.run 1) (fun _ _ _ h => by cases h) rfl
  have h6 := h5.next (a := PipeAction.run 1) (fun _ _ _ h => by cases h) rfl
  exact ⟨_, rfl, rfl, pipe_fifo h6⟩

end PageFaultOS
