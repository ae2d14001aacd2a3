import Mathlib.Tactic
import PageFaultOS.Lib.Exec
import PageFaultOS.Lib.Run
import PageFaultOS.Lib.Ring
import PageFaultOS.Lib.Pool

/-! The virtio disk driver, from `fs/virtio.h` and `fs/virtio.cpp`. Any number of processes are
inside `virtio_disk_rw` and `virtio_disk_intr`, and the device works beside them. A step of a
process ends where it gives `vdisklock` up and where the device can see what it has done. `sleep`
gives the lock up and takes it back before it returns, and a sleeper may come back at any time, so
the calls of `wakeup` need no step. The sectors themselves are left out. -/

namespace PageFaultOS
open Exec Exec.Comp

def NUM : Nat := 8
def VRING_DESC_F_NEXT : UInt16 := 1
def VRING_DESC_F_WRITE : UInt16 := 2
def VIRTIO_BLK_T_IN : UInt32 := 0
def VIRTIO_BLK_T_OUT : UInt32 := 1
def BFSIZE : UInt32 := 512

/-- What the address in a descriptor points to: `ops[i]`, the data of a buffer, or
`info[i].status`. -/
inductive DescAddr where
  | null
  | ops (i : Nat)
  | data (b : Nat)
  | status (i : Nat)
  deriving DecidableEq

structure VirtqDesc where
  addr : DescAddr
  len : UInt32
  flags : UInt16
  next : Nat
  deriving DecidableEq

structure VirtioBlkReq where
  type : UInt32
  reserved : UInt32
  sector : UInt64

/-- `info[i]`: the buffer of the request, if any, and the byte that the device answers. -/
structure DiskInfo where
  b : Option Nat
  status : UInt8

/-- `int idx[3]`. -/
structure DescIdx where
  idx0 : Nat
  idx1 : Nat
  idx2 : Nat
  deriving DecidableEq

def DescIdx.toList (idx : DescIdx) : List Nat := [idx.idx0, idx.idx1, idx.idx2]

/-- A call of `virtio_disk_rw`; `sector` is `b->blockno`. -/
structure RwCall where
  b : Nat
  write : Bool
  sector : UInt64
  deriving DecidableEq

/-- A request to the device: process `p` waits in `call` for the chain `idx`. -/
structure DiskRequest where
  p : Nat
  call : RwCall
  idx : DescIdx
  deriving DecidableEq

/-- A place in the available or the used ring. `request` is a ghost: the request that `id` has been
put there for. -/
structure RingEntry where
  id : Nat
  request : DiskRequest
  deriving DecidableEq

/-- `struct virtq_avail` or `struct virtq_used`. -/
structure Virtq where
  idx : UInt16
  ring : Nat → RingEntry

structure VirtioDisk where
  desc : Nat → VirtqDesc
  avail : Virtq
  used : Virtq
  free : Nat → Bool
  usedIdx : UInt16
  info : Nat → DiskInfo
  ops : Nat → VirtioBlkReq

abbrev DiskComp := Comp VirtioDisk

/-- The descriptor with the lowest number that is free, or `-1`. -/
def allocDesc : DiskComp (Option Nat) := do
  let s ← read
  match (List.range NUM).find? s.free with
  | some i => do
    modify fun s => { s with free := Function.update s.free i false }
    pure (some i)
  | none => pure none

def freeDesc (i : Nat) : DiskComp Unit := do
  let s ← read
  if NUM ≤ i then Comp.panic "free_desc 1"
  else if s.free i then Comp.panic "free_desc 2"
  else modify fun s => { s with
    desc := Function.update s.desc i ⟨.null, 0, 0, 0⟩
    free := Function.update s.free i true }

/-- The loop body of `free_chain`. -/
def freeRound (i : Nat) : DiskComp (Nat ⊕ Unit) := do
  let s ← read
  freeDesc i
  if (s.desc i).flags &&& VRING_DESC_F_NEXT ≠ 0 then pure (.inl (s.desc i).next)
  else pure (.inr ())

/-- Each round frees one of the `NUM` descriptors, so the loop ends within `NUM + 1` rounds. -/
def freeChain (i : Nat) : DiskComp Unit := loop freeRound (NUM + 1) i

/-- The loop over the three descriptors; those already allocated are freed when there is none
left. -/
def alloc3Desc : DiskComp (Option DescIdx) := do
  match ← allocDesc with
  | none => pure none
  | some idx0 =>
    match ← allocDesc with
    | none => do
      forEach [idx0] freeDesc
      pure none
    | some idx1 =>
      match ← allocDesc with
      | none => do
        forEach [idx0, idx1] freeDesc
        pure none
      | some idx2 => pure (some ⟨idx0, idx1, idx2⟩)

namespace VirtioDisk

/-- The three descriptors of a request are formatted, and the buffer is recorded for
`virtio_disk_intr`. -/
def format (s : VirtioDisk) (c : RwCall) (idx : DescIdx) : VirtioDisk :=
  let type := if c.write then VIRTIO_BLK_T_OUT else VIRTIO_BLK_T_IN
  let dataFlags := if c.write then 0 else VRING_DESC_F_WRITE
  let desc := Function.update s.desc idx.idx0 ⟨.ops idx.idx0, 16, VRING_DESC_F_NEXT, idx.idx1⟩
  let desc := Function.update desc idx.idx1
    ⟨.data c.b, BFSIZE, dataFlags ||| VRING_DESC_F_NEXT, idx.idx2⟩
  let desc := Function.update desc idx.idx2 ⟨.status idx.idx0, 1, VRING_DESC_F_WRITE, 0⟩
  { s with
    ops := Function.update s.ops idx.idx0 ⟨type, 0, c.sector⟩
    desc := desc
    info := Function.update s.info idx.idx0 ⟨some c.b, 0xff⟩ }

/-- `avail->ring[avail->idx % NUM] = idx[0]`, and then `avail->idx += 1`. -/
def publish (s : VirtioDisk) (r : DiskRequest) : VirtioDisk :=
  { s with avail :=
      ⟨s.avail.idx + 1, Function.update s.avail.ring (s.avail.idx.toNat % NUM) ⟨r.idx.idx0, r⟩⟩ }

/-- `info[i].b = 0`. -/
def forget (s : VirtioDisk) (i : Nat) : VirtioDisk :=
  { s with info := Function.update s.info i { s.info i with b := none } }

/-- The device answers a request: it follows the chain to its third descriptor, where it writes the
status 0, and puts the head into the used ring. -/
def complete (s : VirtioDisk) (e : RingEntry) : VirtioDisk :=
  let third := (s.desc (s.desc e.id).next).next
  { s with
    info := match (s.desc third).addr with
      | .status i => Function.update s.info i { s.info i with status := 0 }
      | _ => s.info
    used := ⟨s.used.idx + 1, Function.update s.used.ring (s.used.idx.toNat % NUM) e⟩ }

/-- The entry that `virtio_disk_intr` comes to next. -/
def answered (s : VirtioDisk) : RingEntry := s.used.ring (s.usedIdx.toNat % NUM)

end VirtioDisk

/-- Where a process is: between calls, or inside one. -/
inductive VirtioPc where
  | idle
  | rwAcquire (c : RwCall)
  | rwAlloc (c : RwCall)
  | rwAllocSleep (c : RwCall)
  | rwPublish (c : RwCall) (idx : DescIdx)
  | rwWait (c : RwCall) (idx : DescIdx)
  | rwSleep (c : RwCall) (idx : DescIdx)
  | intrAcquire
  | intrLoop
  | intrTake
  | leave
  deriving DecidableEq

/-- `bufDisk b` is `b->disk`. The device has seen the available ring up to `lastAvail` and has
still to complete `outstanding`. -/
structure VirtioWorld where
  disk : VirtioDisk
  bufDisk : Nat → Bool
  holder : Option Nat
  pc : Nat → VirtioPc
  lastAvail : UInt16
  outstanding : List RingEntry
  fault : Option Fault

namespace VirtioWorld

def goto (w : VirtioWorld) (p : Nat) (pc : VirtioPc) : VirtioWorld :=
  { w with pc := Function.update w.pc p pc }

/-- `acquire`, which waits while another process has the lock. -/
def acquire (w : VirtioWorld) (p : Nat) (pc : VirtioPc) : Option VirtioWorld :=
  if w.holder = none then some ({ w with holder := some p }.goto p pc) else none

def release (w : VirtioWorld) (p : Nat) (pc : VirtioPc) : VirtioWorld :=
  { w with holder := none }.goto p pc

/-- Goes on with the result of a computation, or stops with its fault. -/
def exec {α : Type} (w : VirtioWorld) (x : DiskComp α) (k : VirtioWorld → α → VirtioWorld) :
    VirtioWorld :=
  match x w.disk with
  | .ok a s => k { w with disk := s } a
  | .fault f s => { w with disk := s, fault := some f }

/-- One round of the loop of `virtio_disk_intr`. -/
def take (w : VirtioWorld) (p : Nat) : VirtioWorld :=
  let id := w.disk.answered.id
  if (w.disk.info id).status ≠ 0 then { w with fault := some (.panic "virtio_disk_intr status") }
  else match (w.disk.info id).b with
    | none => { w with fault := some (.undefined "b->disk of a null pointer") }
    | some b =>
      { w with
        disk := { w.disk with usedIdx := w.disk.usedIdx + 1 }
        bufDisk := Function.update w.bufDisk b false }.goto p .intrLoop

/-- The next step of process `p`, if it is in a call and need not wait. -/
def run (w : VirtioWorld) (p : Nat) : Option VirtioWorld :=
  match w.pc p with
  | .idle => none
  | .rwAcquire c => w.acquire p (.rwAlloc c)
  | .rwAlloc c => some (w.exec alloc3Desc fun w idx =>
      match idx with
      | none => w.release p (.rwAllocSleep c)
      | some idx =>
        { w with
          disk := w.disk.format c idx
          bufDisk := Function.update w.bufDisk c.b true }.goto p (.rwPublish c idx))
  | .rwAllocSleep c => w.acquire p (.rwAlloc c)
  | .rwPublish c idx => some ({ w with disk := w.disk.publish ⟨p, c, idx⟩ }.goto p (.rwWait c idx))
  | .rwWait c idx =>
    if w.bufDisk c.b then some (w.release p (.rwSleep c idx))
    else some ({ w with disk := w.disk.forget idx.idx0 }.exec (freeChain idx.idx0)
      fun w _ => w.goto p .leave)
  | .rwSleep c idx => w.acquire p (.rwWait c idx)
  | .intrAcquire => w.acquire p .intrLoop
  | .intrLoop =>
    if w.disk.usedIdx ≠ w.disk.used.idx then some (w.goto p .intrTake)
    else some (w.goto p .leave)
  | .intrTake => some (w.take p)
  | .leave => some (w.release p .idle)

/-- The device takes a chain from the available ring. -/
def fetch (w : VirtioWorld) : Option VirtioWorld :=
  if w.lastAvail ≠ w.disk.avail.idx then
    some { w with
      outstanding := w.outstanding ++ [w.disk.avail.ring (w.lastAvail.toNat % NUM)]
      lastAvail := w.lastAvail + 1 }
  else none

/-- The device completes one of the chains that it has taken, in any order. -/
def complete (w : VirtioWorld) (k : Nat) : Option VirtioWorld :=
  w.outstanding[k]?.map fun e =>
    { w with disk := w.disk.complete e, outstanding := w.outstanding.eraseIdx k }

end VirtioWorld

inductive VirtioAction where
  | virtioDiskRw (p b : Nat) (blockno : Int32) (write : Bool)
  | virtioDiskIntr (p : Nat)
  | run (p : Nat)
  | fetch
  | complete (k : Nat)

/-- Nothing happens after a fault. -/
def virtioStep (w : VirtioWorld) (a : VirtioAction) : Option VirtioWorld :=
  if w.fault.isSome then none
  else match a with
    | .virtioDiskRw p b blockno write =>
      if w.pc p = .idle then some (w.goto p (.rwAcquire ⟨b, write, blockno.toInt64.toUInt64⟩))
      else none
    | .virtioDiskIntr p => if w.pc p = .idle then some (w.goto p .intrAcquire) else none
    | .run p => w.run p
    | .fetch => w.fetch
    | .complete k => w.complete k

/-- The driver and the device after `virtio_init`. -/
structure VirtioStart (w : VirtioWorld) : Prop where
  free : ∀ d < NUM, w.disk.free d = true
  avail : w.disk.avail.idx = 0
  used : w.disk.used.idx = 0
  usedIdx : w.disk.usedIdx = 0
  lastAvail : w.lastAvail = 0
  outstanding : w.outstanding = []
  holder : w.holder = none
  idle : ∀ p, w.pc p = .idle
  fault : w.fault = none

/-! ## Allocating and freeing -/

theorem allocDesc_spec (s : VirtioDisk) :
    allocDesc s = .ok none s ∨
      ∃ i < NUM, s.free i = true ∧
        allocDesc s = .ok (some i) { s with free := Function.update s.free i false } := by
  cases hfind : (List.range NUM).find? s.free with
  | none =>
    left
    simp [allocDesc, hfind]
  | some i =>
    obtain ⟨hfree, hi, -⟩ := List.find?_range_eq_some.mp hfind
    exact .inr ⟨i, List.mem_range.mp hi, hfree, by simp [allocDesc, hfind]⟩

/-- A descriptor that is freed, with its fields cleared. -/
def VirtioDisk.freed (s : VirtioDisk) (i : Nat) : VirtioDisk :=
  { s with
    desc := Function.update s.desc i ⟨.null, 0, 0, 0⟩
    free := Function.update s.free i true }

/-- No panic for a descriptor in use. -/
theorem freeDesc_spec {s : VirtioDisk} {i : Nat} (hi : i < NUM) (hused : s.free i = false) :
    freeDesc i s = .ok () (s.freed i) := by
  simp [freeDesc, Nat.not_le.mpr hi, hused, VirtioDisk.freed]

/-- The linked descriptors of a chain. -/
structure VirtioDisk.Linked (s : VirtioDisk) (idx : DescIdx) : Prop where
  flags0 : (s.desc idx.idx0).flags &&& VRING_DESC_F_NEXT ≠ 0
  next0 : (s.desc idx.idx0).next = idx.idx1
  flags1 : (s.desc idx.idx1).flags &&& VRING_DESC_F_NEXT ≠ 0
  next1 : (s.desc idx.idx1).next = idx.idx2
  flags2 : (s.desc idx.idx2).flags &&& VRING_DESC_F_NEXT = 0
  status : (s.desc idx.idx2).addr = .status idx.idx0

theorem VirtioDisk.Linked.of_desc {s t : VirtioDisk} {idx : DescIdx} (h : s.Linked idx)
    (hdesc : ∀ d ∈ idx.toList, t.desc d = s.desc d) : t.Linked idx := by
  have h0 := hdesc idx.idx0 (by simp [DescIdx.toList])
  have h1 := hdesc idx.idx1 (by simp [DescIdx.toList])
  have h2 := hdesc idx.idx2 (by simp [DescIdx.toList])
  constructor
  · rw [h0]
    exact h.flags0
  · rw [h0]
    exact h.next0
  · rw [h1]
    exact h.flags1
  · rw [h1]
    exact h.next1
  · rw [h2]
    exact h.flags2
  · rw [h2]
    exact h.status

theorem VirtioDisk.format_linked (s : VirtioDisk) (c : RwCall) {idx : DescIdx}
    (h : idx.toList.Nodup) : (s.format c idx).Linked idx := by
  simp only [DescIdx.toList, List.nodup_cons, List.mem_cons, List.not_mem_nil, or_false,
    not_or] at h
  obtain ⟨⟨h01, h02⟩, h12, -⟩ := h
  have hd0 : (s.format c idx).desc idx.idx0 =
      ⟨.ops idx.idx0, 16, VRING_DESC_F_NEXT, idx.idx1⟩ := by
    simp [VirtioDisk.format, h01, h02]
  have hd1 : (s.format c idx).desc idx.idx1 = ⟨.data c.b, BFSIZE,
      (if c.write then 0 else VRING_DESC_F_WRITE) ||| VRING_DESC_F_NEXT, idx.idx2⟩ := by
    simp [VirtioDisk.format, h12]
  have hd2 : (s.format c idx).desc idx.idx2 =
      ⟨.status idx.idx0, 1, VRING_DESC_F_WRITE, 0⟩ := by
    simp [VirtioDisk.format]
  constructor
  · rw [hd0]
    show VRING_DESC_F_NEXT &&& VRING_DESC_F_NEXT ≠ 0
    decide
  · rw [hd0]
  · rw [hd1]
    show ((if c.write then 0 else VRING_DESC_F_WRITE) ||| VRING_DESC_F_NEXT) &&&
      VRING_DESC_F_NEXT ≠ 0
    cases c.write <;> decide
  · rw [hd1]
  · rw [hd2]
    show VRING_DESC_F_WRITE &&& VRING_DESC_F_NEXT = 0
    decide
  · rw [hd2]

/-- A descriptor that is marked as used. -/
def VirtioDisk.taken (s : VirtioDisk) (i : Nat) : VirtioDisk :=
  { s with free := Function.update s.free i false }

/-- Three descriptors, or else none and those in use are as they were. -/
theorem alloc3Desc_spec (s : VirtioDisk) :
    (∃ desc, alloc3Desc s = .ok none { s with desc := desc } ∧
        ∀ d, s.free d = false → desc d = s.desc d) ∨
      ∃ idx : DescIdx, idx.toList.Nodup ∧ (∀ d ∈ idx.toList, d < NUM ∧ s.free d = true) ∧
        alloc3Desc s = .ok (some idx) { s with free := Pool.mark idx.toList false s.free } := by
  rcases allocDesc_spec s with h0 | ⟨i0, hi0, hfree0, h0⟩
  · exact .inl ⟨s.desc, by rw [alloc3Desc, bind_ok h0]; rfl, fun _ _ => rfl⟩
  rcases allocDesc_spec (s.taken i0) with h1 | ⟨i1, hi1, hfree1, h1⟩
  · refine .inl ⟨((s.taken i0).freed i0).desc, ?_, fun d hd => ?_⟩
    · have hback : forEach [i0] freeDesc (s.taken i0) = .ok () ((s.taken i0).freed i0) :=
        bind_ok (freeDesc_spec hi0 (by simp [VirtioDisk.taken])) _
      have hfree : Function.update (Function.update s.free i0 false) i0 true = s.free := by
        rw [Function.update_idem, ← hfree0, Function.update_eq_self]
      rw [alloc3Desc, bind_ok h0]
      refine (bind_ok h1 _).trans ((bind_ok hback _).trans ?_)
      simp only [pure_apply, VirtioDisk.freed, VirtioDisk.taken, hfree]
    · have hne : d ≠ i0 := by
        rintro rfl
        rw [hfree0] at hd
        cases hd
      exact Function.update_of_ne hne ..
  have h01 : i1 ≠ i0 := by
    rintro rfl
    simp [VirtioDisk.taken] at hfree1
  have hfree1' : s.free i1 = true := by simpa [VirtioDisk.taken, h01] using hfree1
  have hmark : ∀ d ∈ [i1, i0], s.free d = true := by
    simp [hfree0, hfree1']
  rcases allocDesc_spec ((s.taken i0).taken i1) with h2 | ⟨i2, hi2, hfree2, h2⟩
  · refine .inl ⟨((((s.taken i0).taken i1).freed i0).freed i1).desc, ?_, fun d hd => ?_⟩
    · have hback : forEach [i0, i1] freeDesc ((s.taken i0).taken i1) =
          .ok () ((((s.taken i0).taken i1).freed i0).freed i1) := by
        refine (bind_ok (freeDesc_spec hi0 ?_) _).trans (bind_ok (freeDesc_spec hi1 ?_) _)
        · simp [VirtioDisk.taken, Ne.symm h01]
        · simp [VirtioDisk.taken, VirtioDisk.freed, h01]
      have hfree := Pool.mark_back hmark
      rw [← Pool.update_mark, ← Pool.update_eq_mark, ← Pool.update_mark, ← Pool.update_eq_mark]
        at hfree
      rw [alloc3Desc, bind_ok h0]
      refine (bind_ok h1 _).trans ((bind_ok h2 _).trans ((bind_ok hback _).trans ?_))
      simp only [pure_apply, VirtioDisk.freed, VirtioDisk.taken, hfree]
    · have hne : d ≠ i0 ∧ d ≠ i1 := by
        constructor
        · rintro rfl
          rw [hfree0] at hd
          cases hd
        · rintro rfl
          rw [hfree1'] at hd
          cases hd
      simp [VirtioDisk.freed, VirtioDisk.taken, hne]
  have h02 : i2 ≠ i0 ∧ i2 ≠ i1 := by
    constructor
    · rintro rfl
      simp [VirtioDisk.taken, Ne.symm h01] at hfree2
    · rintro rfl
      simp [VirtioDisk.taken] at hfree2
  have hfree2' : s.free i2 = true := by simpa [VirtioDisk.taken, h02] using hfree2
  refine .inr ⟨⟨i0, i1, i2⟩, ?_, ?_, ?_⟩
  · simp [DescIdx.toList, Ne.symm h01, Ne.symm h02.1, Ne.symm h02.2]
  · simp [DescIdx.toList, hi0, hi1, hi2, hfree0, hfree1', hfree2']
  · rw [alloc3Desc, bind_ok h0]
    refine (bind_ok h1 _).trans ((bind_ok h2 _).trans ?_)
    have hmarks : Function.update (Function.update (Function.update s.free i0 false) i1 false)
        i2 false = Pool.mark [i0, i1, i2] false s.free := by
      funext d
      by_cases hd0 : d = i0 <;> by_cases hd1 : d = i1 <;> by_cases hd2 : d = i2 <;>
        simp [Pool.mark, Function.update_apply, hd0, hd1, hd2]
    simp only [pure_apply, VirtioDisk.taken, hmarks, DescIdx.toList]

/-- The chain is freed as a whole, without a panic. -/
theorem freeChain_spec {s : VirtioDisk} {idx : DescIdx} (hl : s.Linked idx)
    (hnd : idx.toList.Nodup) (hused : ∀ d ∈ idx.toList, d < NUM ∧ s.free d = false) :
    freeChain idx.idx0 s = .ok () (((s.freed idx.idx0).freed idx.idx1).freed idx.idx2) := by
  simp only [DescIdx.toList, List.nodup_cons, List.mem_cons, List.not_mem_nil, or_false,
    not_or] at hnd
  obtain ⟨⟨h01, h02⟩, h12, -⟩ := hnd
  obtain ⟨hi0, hu0⟩ := hused idx.idx0 (by simp [DescIdx.toList])
  obtain ⟨hi1, hu1⟩ := hused idx.idx1 (by simp [DescIdx.toList])
  obtain ⟨hi2, hu2⟩ := hused idx.idx2 (by simp [DescIdx.toList])
  have h0 : freeRound idx.idx0 s = .ok (.inl idx.idx1) (s.freed idx.idx0) := by
    rw [freeRound, read_bind, bind_ok (freeDesc_spec hi0 hu0), if_pos hl.flags0, hl.next0]
    rfl
  have h1 : freeRound idx.idx1 (s.freed idx.idx0) =
      .ok (.inl idx.idx2) ((s.freed idx.idx0).freed idx.idx1) := by
    have hdesc : (s.freed idx.idx0).desc idx.idx1 = s.desc idx.idx1 :=
      Function.update_of_ne (Ne.symm h01) ..
    have hfree : (s.freed idx.idx0).free idx.idx1 = false :=
      (Function.update_of_ne (Ne.symm h01) ..).trans hu1
    rw [freeRound, read_bind, bind_ok (freeDesc_spec hi1 hfree), hdesc, if_pos hl.flags1, hl.next1]
    rfl
  have h2 : freeRound idx.idx2 ((s.freed idx.idx0).freed idx.idx1) =
      .ok (.inr ()) (((s.freed idx.idx0).freed idx.idx1).freed idx.idx2) := by
    have hdesc : ((s.freed idx.idx0).freed idx.idx1).desc idx.idx2 = s.desc idx.idx2 := by
      simp [VirtioDisk.freed, Ne.symm h02, Ne.symm h12]
    have hfree : ((s.freed idx.idx0).freed idx.idx1).free idx.idx2 = false := by
      simp [VirtioDisk.freed, Ne.symm h02, Ne.symm h12, hu2]
    rw [freeRound, read_bind, bind_ok (freeDesc_spec hi2 hfree), hdesc,
      if_neg (not_not.mpr hl.flags2)]
    rfl
  exact (loop_again h0 8).trans ((loop_again h1 7).trans (loop_done h2 6))

theorem freed_chain_free (s : VirtioDisk) (idx : DescIdx) :
    (((s.freed idx.idx0).freed idx.idx1).freed idx.idx2).free =
      Pool.mark idx.toList true s.free := by
  funext d
  by_cases hd0 : d = idx.idx0 <;> by_cases hd1 : d = idx.idx1 <;> by_cases hd2 : d = idx.idx2 <;>
    simp [VirtioDisk.freed, Pool.mark, DescIdx.toList, Function.update_apply, hd0, hd1, hd2]

/-! ## Who has a descriptor -/

/-- The call that a process is in, until it is done with its buffer. -/
def VirtioPc.call : VirtioPc → Option RwCall
  | .rwAcquire c | .rwAlloc c | .rwAllocSleep c => some c
  | .rwPublish c _ | .rwWait c _ | .rwSleep c _ => some c
  | _ => none

/-- The chain that a process has in flight. -/
def VirtioPc.chain : VirtioPc → Option DescIdx
  | .rwPublish _ idx | .rwWait _ idx | .rwSleep _ idx => some idx
  | _ => none

def VirtioPc.held (pc : VirtioPc) : List Nat :=
  match pc.chain with
  | some idx => idx.toList
  | none => []

/-- Where a process is only with the lock. -/
def VirtioPc.Locked : VirtioPc → Prop
  | .idle | .rwAcquire _ | .rwAllocSleep _ | .rwSleep .. | .intrAcquire => False
  | _ => True

def VirtioPc.Waits (pc : VirtioPc) (c : RwCall) (idx : DescIdx) : Prop :=
  pc = .rwWait c idx ∨ pc = .rwSleep c idx

namespace VirtioWorld

def availRing (w : VirtioWorld) : Ring.Buffer RingEntry :=
  ⟨w.lastAvail.toNat, w.disk.avail.idx.toNat, w.disk.avail.ring⟩

def usedRing (w : VirtioWorld) : Ring.Buffer RingEntry :=
  ⟨w.disk.usedIdx.toNat, w.disk.used.idx.toNat, w.disk.used.ring⟩

/-- The requests that the device has not taken yet. -/
def toFetch (w : VirtioWorld) : List RingEntry := Ring.contents (2 ^ 16) NUM w.availRing

/-- The requests that the device has answered and the driver has not seen yet. -/
def toTake (w : VirtioWorld) : List RingEntry := Ring.contents (2 ^ 16) NUM w.usedRing

/-- The requests between `avail->idx += 1` and their completion in `virtio_disk_intr`. -/
def atDevice (w : VirtioWorld) : List RingEntry := w.toFetch ++ w.outstanding ++ w.toTake

end VirtioWorld

/-- A descriptor is free or in one chain in flight, the chains are linked, the device has no other
chains than these, and what `virtio_disk_intr` clears is `disk` of the buffer for which it has an
answer. -/
structure VirtioConserved (w : VirtioWorld) : Prop where
  descriptors : ∀ d < NUM, (w.disk.free d = true ∧ ∀ p, d ∉ (w.pc p).held) ∨
    (w.disk.free d = false ∧ ∃! p, d ∈ (w.pc p).held)
  linked : ∀ p idx, (w.pc p).chain = some idx → idx.toList.Nodup ∧ w.disk.Linked idx
  inFlight : ∀ e ∈ w.atDevice,
    (w.pc e.request.p).chain = some e.request.idx ∧ e.id = e.request.idx.idx0
  noFault : w.fault = none
  answers : ∀ p, w.pc p = .intrTake →
    (w.pc w.disk.answered.request.p).call = some w.disk.answered.request.call ∧
      ∃ w', w.run p = some w' ∧
        w'.bufDisk = Function.update w.bufDisk w.disk.answered.request.call.b false
  clears : ∀ a w', virtioStep w a = some w' → ∀ b, w.bufDisk b = true → w'.bufDisk b = false →
    ∃ p, a = .run p ∧ w.pc p = .intrTake ∧ b = w.disk.answered.request.call.b

/-- A call has a buffer that no other call is using. -/
def Unshared (w : VirtioWorld) : VirtioAction → Prop
  | .virtioDiskRw _ b _ _ => ∀ q c, (w.pc q).call = some c → c.b ≠ b
  | _ => True

/-! ## The invariant -/

/-- The call of a request at the device waits for it. -/
structure VirtioWorld.Submitted (w : VirtioWorld) (e : RingEntry) : Prop where
  waits : (w.pc e.request.p).Waits e.request.call e.request.idx
  id : e.id = e.request.idx.idx0
  disk : w.bufDisk e.request.call.b = true

structure VirtioInv (w : VirtioWorld) : Prop where
  fault : w.fault = none
  locked : ∀ p, (w.pc p).Locked → w.holder = some p
  owned : Pool.Conserved (· < NUM) w.disk.free fun p => (w.pc p).held
  linked : ∀ p idx, (w.pc p).chain = some idx → w.disk.Linked idx
  buffer : ∀ p c idx, (w.pc p).call = some c → (w.pc p).chain = some idx →
    (w.disk.info idx.idx0).b = some c.b
  disk : ∀ p c idx, w.pc p = .rwPublish c idx → w.bufDisk c.b = true
  avail : Ring.Valid (2 ^ 16) NUM w.availRing
  used : Ring.Valid (2 ^ 16) NUM w.usedRing
  submitted : ∀ e ∈ w.atDevice, w.Submitted e
  once : (w.atDevice.map (·.request.p)).Nodup
  status : ∀ e ∈ w.toTake, (w.disk.info e.id).status = 0
  taking : ∀ p, w.pc p = .intrTake → w.disk.usedIdx ≠ w.disk.used.idx
  apart : ∀ p q c c', (w.pc p).call = some c → (w.pc q).call = some c' → c.b = c'.b → p = q

theorem VirtioPc.Waits.call {pc : VirtioPc} {c : RwCall} {idx : DescIdx} (h : pc.Waits c idx) :
    pc.call = some c := by
  rcases h with rfl | rfl <;> rfl

theorem VirtioPc.Waits.chain {pc : VirtioPc} {c : RwCall} {idx : DescIdx} (h : pc.Waits c idx) :
    pc.chain = some idx := by
  rcases h with rfl | rfl <;> rfl

theorem VirtioPc.held_of_chain {pc : VirtioPc} {idx : DescIdx} (h : pc.chain = some idx) :
    pc.held = idx.toList := by
  simp [VirtioPc.held, h]

theorem VirtioPc.held_of_none {pc : VirtioPc} (h : pc.chain = none) : pc.held = [] := by
  simp [VirtioPc.held, h]

private theorem virtq_fits : Ring.Fits (2 ^ 16) NUM :=
  ⟨⟨2 ^ 13, by decide⟩, by decide, by decide⟩

theorem virtioInv_start {w : VirtioWorld} (h : VirtioStart w) : VirtioInv w := by
  have hchain : ∀ p, (w.pc p).chain = none := by
    intro p
    rw [h.idle p]
    rfl
  have hcall : ∀ p, (w.pc p).call = none := by
    intro p
    rw [h.idle p]
    rfl
  have hheld : ∀ p, (w.pc p).held = [] := fun p => VirtioPc.held_of_none (hchain p)
  have havail : Ring.count (2 ^ 16) w.availRing = 0 := by
    simp [Ring.count, VirtioWorld.availRing, h.avail, h.lastAvail]
  have hused : Ring.count (2 ^ 16) w.usedRing = 0 := by
    simp [Ring.count, VirtioWorld.usedRing, h.used, h.usedIdx]
  have hfetch : w.toFetch = [] := by
    rw [← List.length_eq_zero_iff, VirtioWorld.toFetch, Ring.contents_length, havail]
  have htake : w.toTake = [] := by
    rw [← List.length_eq_zero_iff, VirtioWorld.toTake, Ring.contents_length, hused]
  have hat : w.atDevice = [] := by
    rw [VirtioWorld.atDevice, hfetch, htake, h.outstanding]
    rfl
  constructor
  · exact h.fault
  · intro p hp
    rw [h.idle p] at hp
    exact hp.elim
  · refine ⟨fun d hd hu => ?_, fun p d hp => ?_, fun p => ?_, fun p q d hp => ?_⟩
    · rw [h.free d hd] at hu
      cases hu
    · rw [hheld p] at hp
      cases hp
    · rw [hheld p]
      exact List.nodup_nil
    · rw [hheld p] at hp
      cases hp
  · intro p idx hp
    rw [hchain p] at hp
    cases hp
  · intro p c idx hp
    rw [hcall p] at hp
    cases hp
  · intro p c idx hp
    rw [h.idle p] at hp
    cases hp
  · exact ⟨UInt16.toNat_lt _, UInt16.toNat_lt _, by rw [havail]; exact Nat.zero_le _⟩
  · exact ⟨UInt16.toNat_lt _, UInt16.toNat_lt _, by rw [hused]; exact Nat.zero_le _⟩
  · rw [hat]
    exact fun e he => by cases he
  · rw [hat]
    exact List.nodup_nil
  · rw [htake]
    exact fun e he => by cases he
  · intro p hp
    rw [h.idle p] at hp
    cases hp
  · intro p q c c' hp
    rw [hcall p] at hp
    cases hp

section Inv
variable {w w' : VirtioWorld} {p : Nat}

theorem VirtioInv.others (hI : VirtioInv w) (hp : (w.pc p).Locked) :
    ∀ q, q ≠ p → ¬ (w.pc q).Locked := by
  intro q hq hlocked
  have h1 := hI.locked p hp
  rw [hI.locked q hlocked] at h1
  exact hq (Option.some.inj h1)

/-- Process `p` goes on at `y`, and the lock is then with `h`. -/
def VirtioWorld.move (w : VirtioWorld) (p : Nat) (h : Option Nat) (y : VirtioPc) : VirtioWorld :=
  { w with holder := h, pc := Function.update w.pc p y }

theorem VirtioWorld.move_self (w : VirtioWorld) (p : Nat) (h : Option Nat) (y : VirtioPc) :
    (w.move p h y).pc p = y := Function.update_self ..

theorem VirtioWorld.move_ne (w : VirtioWorld) (h : Option Nat) (y : VirtioPc) {p q : Nat}
    (hq : q ≠ p) : (w.move p h y).pc q = w.pc q := Function.update_of_ne hq ..

theorem VirtioWorld.goto_self (w : VirtioWorld) (p : Nat) (y : VirtioPc) :
    (w.goto p y).pc p = y := Function.update_self ..

theorem VirtioWorld.goto_ne (w : VirtioWorld) (y : VirtioPc) {p q : Nat} (hq : q ≠ p) :
    (w.goto p y).pc q = w.pc q := Function.update_of_ne hq ..

/-- A step of process `p` to another place, with the same chain. -/
theorem VirtioInv.moved (hI : VirtioInv w) {y : VirtioPc} {h : Option Nat}
    (hothers : ∀ q, q ≠ p → (w.pc q).Locked → h = some q) (hlocked : y.Locked → h = some p)
    (hchain : y.chain = (w.pc p).chain)
    (hcall : ∀ c, y.call = some c → (w.pc p).call = some c ∨
      y.chain = none ∧ ∀ q c', (w.pc q).call = some c' → c'.b ≠ c.b)
    (hwaits : ∀ c idx, (w.pc p).Waits c idx → y.Waits c idx)
    (hpublish : ∀ c idx, y ≠ .rwPublish c idx)
    (htake : y = .intrTake → w.disk.usedIdx ≠ w.disk.used.idx) :
    VirtioInv (w.move p h y) := by
  have hp := w.move_self p h y
  have hne : ∀ q, q ≠ p → (w.move p h y).pc q = w.pc q := fun q => w.move_ne h y
  have hchains : ∀ q, ((w.move p h y).pc q).chain = (w.pc q).chain := by
    intro q
    by_cases hq : q = p
    · rw [hq, hp, hchain]
    · rw [hne q hq]
  have hheld : (fun q => ((w.move p h y).pc q).held) = fun q => (w.pc q).held := by
    funext q
    simp only [VirtioPc.held, hchains]
  constructor
  · exact hI.fault
  · intro q hq
    by_cases hqp : q = p
    · subst hqp
      exact hlocked (by rwa [hp] at hq)
    · exact hothers q hqp (by rwa [hne q hqp] at hq)
  · rw [hheld]
    exact hI.owned
  · intro q idx hq
    rw [hchains] at hq
    exact hI.linked q idx hq
  · intro q c idx hc hq
    by_cases hqp : q = p
    · subst hqp
      rw [hp] at hc hq
      rcases hcall c hc with hsame | ⟨hnone, -⟩
      · exact hI.buffer q c idx hsame (hchain ▸ hq)
      · rw [hnone] at hq
        cases hq
    · rw [hne q hqp] at hc hq
      exact hI.buffer q c idx hc hq
  · intro q c idx hq
    by_cases hqp : q = p
    · subst hqp
      rw [hp] at hq
      exact absurd hq (hpublish c idx)
    · rw [hne q hqp] at hq
      exact hI.disk q c idx hq
  · exact hI.avail
  · exact hI.used
  · intro e he
    obtain ⟨hw, hid, hd⟩ := hI.submitted e he
    refine ⟨?_, hid, hd⟩
    by_cases hqp : e.request.p = p
    · rw [hqp] at hw ⊢
      rw [hp]
      exact hwaits _ _ hw
    · rw [hne _ hqp]
      exact hw
  · exact hI.once
  · exact hI.status
  · intro q hq
    by_cases hqp : q = p
    · subst hqp
      exact htake (by rwa [hp] at hq)
    · exact hI.taking q (by rwa [hne q hqp] at hq)
  · have hnew : ∀ q c c', q ≠ p → y.call = some c → (w.pc q).call = some c' → c.b ≠ c'.b := by
      intro q c c' hqp hc hc' hb
      rcases hcall c hc with hsame | ⟨-, hfresh⟩
      · exact hqp (hI.apart q p c' c hc' hsame hb.symm)
      · exact hfresh q c' hc' hb.symm
    intro q r c c' hq hr hb
    by_cases hqp : q = p <;> by_cases hrp : r = p
    · rw [hqp, hrp]
    · rw [hqp, hp] at hq
      rw [hne r hrp] at hr
      exact absurd hb (hnew r c c' hrp hq hr)
    · rw [hrp, hp] at hr
      rw [hne q hqp] at hq
      exact absurd hb.symm (hnew q c' c hqp hr hq)
    · rw [hne q hqp] at hq
      rw [hne r hrp] at hr
      exact hI.apart q r c c' hq hr hb

/-- What a process holds is in use. -/
theorem VirtioInv.in_use (hI : VirtioInv w) {idx : DescIdx} (h : (w.pc p).chain = some idx) :
    ∀ d ∈ idx.toList, d < NUM ∧ w.disk.free d = false := by
  intro d hd
  exact hI.owned.owned p d (by rwa [VirtioPc.held_of_chain h])

theorem VirtioInv.chain_nodup (hI : VirtioInv w) {idx : DescIdx}
    (h : (w.pc p).chain = some idx) : idx.toList.Nodup := by
  have := hI.owned.nodup p
  rwa [VirtioPc.held_of_chain h] at this

/-- Two processes have no descriptor in common. -/
theorem VirtioInv.same_owner (hI : VirtioInv w) {q d : Nat} {idx idx' : DescIdx}
    (hp : (w.pc p).chain = some idx) (hq : (w.pc q).chain = some idx') (hd : d ∈ idx.toList)
    (hd' : d ∈ idx'.toList) : p = q :=
  hI.owned.one p q d (by rwa [VirtioPc.held_of_chain hp]) (by rwa [VirtioPc.held_of_chain hq])

theorem DescIdx.idx0_mem (idx : DescIdx) : idx.idx0 ∈ idx.toList := List.mem_cons_self

theorem VirtioInv.id_mem (hI : VirtioInv w) {e : RingEntry} (he : e ∈ w.atDevice) :
    (w.pc e.request.p).chain = some e.request.idx ∧ e.id ∈ e.request.idx.toList := by
  obtain ⟨hw, hid, -⟩ := hI.submitted e he
  exact ⟨hw.chain, hid ▸ e.request.idx.idx0_mem⟩

/-- The heads at the device are the heads of different chains. -/
theorem VirtioInv.ids_nodup (hI : VirtioInv w) : (w.atDevice.map (·.id)).Nodup := by
  have honce := hI.once
  rw [List.Nodup, List.pairwise_map] at honce ⊢
  refine honce.imp_of_mem fun he he' hne heq => hne ?_
  obtain ⟨hc, hm⟩ := hI.id_mem he
  obtain ⟨hc', hm'⟩ := hI.id_mem he'
  exact hI.same_owner hc hc' hm (heq ▸ hm')

theorem VirtioInv.ids_lt (hI : VirtioInv w) : w.atDevice.map (·.id) ⊆ List.range NUM := by
  intro d hd
  obtain ⟨e, he, rfl⟩ := List.mem_map.mp hd
  obtain ⟨hc, hm⟩ := hI.id_mem he
  exact List.mem_range.mpr (hI.in_use hc e.id hm).1

theorem VirtioInv.atDevice_le (hI : VirtioInv w) : w.atDevice.length ≤ NUM := by
  have := hI.ids_nodup.length_le_of_subset hI.ids_lt
  rwa [List.length_map, List.length_range] at this

/-- A process whose chain has not been published leaves room for it in the rings. -/
theorem VirtioInv.atDevice_lt (hI : VirtioInv w) {c : RwCall} {idx : DescIdx}
    (hp : w.pc p = .rwPublish c idx) : w.atDevice.length < NUM := by
  have hchain : (w.pc p).chain = some idx := by rw [hp]; rfl
  have hnew : idx.idx0 ∉ w.atDevice.map (·.id) := by
    intro hmem
    obtain ⟨e, he, heq⟩ := List.mem_map.mp hmem
    obtain ⟨hc, hm⟩ := hI.id_mem he
    have hsame := hI.same_owner hchain hc idx.idx0_mem (heq ▸ hm)
    rcases (hI.submitted e he).waits with hw | hw <;> rw [← hsame, hp] at hw <;> cases hw
  have hnd := List.nodup_cons.mpr ⟨hnew, hI.ids_nodup⟩
  have hsub : idx.idx0 :: w.atDevice.map (·.id) ⊆ List.range NUM := by
    refine List.cons_subset.mpr ⟨?_, hI.ids_lt⟩
    exact List.mem_range.mpr (hI.in_use hchain _ idx.idx0_mem).1
  have := hnd.length_le_of_subset hsub
  rw [List.length_cons, List.length_map, List.length_range] at this
  exact this

theorem VirtioWorld.toFetch_length (w : VirtioWorld) :
    w.toFetch.length = Ring.count (2 ^ 16) w.availRing := Ring.contents_length

theorem VirtioWorld.toTake_length (w : VirtioWorld) :
    w.toTake.length = Ring.count (2 ^ 16) w.usedRing := Ring.contents_length

theorem VirtioWorld.atDevice_length (w : VirtioWorld) :
    w.atDevice.length = w.toFetch.length + w.outstanding.length + w.toTake.length := by
  rw [VirtioWorld.atDevice, List.length_append, List.length_append]

/-- Descriptors that are free may change. -/
theorem VirtioInv.desc (hI : VirtioInv w) {desc : Nat → VirtqDesc}
    (h : ∀ d, w.disk.free d = false → desc d = w.disk.desc d) :
    VirtioInv { w with disk := { w.disk with desc := desc } } := by
  have hlinked : ∀ p idx, (w.pc p).chain = some idx →
      VirtioDisk.Linked { w.disk with desc := desc } idx := by
    intro p idx hp
    exact (hI.linked p idx hp).of_desc fun d hd => h d (hI.in_use hp d hd).2
  exact ⟨hI.fault, hI.locked, hI.owned, hlinked, hI.buffer, hI.disk, hI.avail, hI.used,
    fun e he => ⟨(hI.submitted e he).waits, (hI.submitted e he).id, (hI.submitted e he).disk⟩,
    hI.once, hI.status, hI.taking, hI.apart⟩

theorem VirtioDisk.format_desc (s : VirtioDisk) (c : RwCall) {idx : DescIdx} {d : Nat}
    (hd : d ∉ idx.toList) : (s.format c idx).desc d = s.desc d := by
  simp only [DescIdx.toList, List.mem_cons, List.not_mem_nil, or_false, not_or] at hd
  simp [VirtioDisk.format, hd]

/-- The chains after process `p` has gone on to `y`. -/
theorem VirtioWorld.held_update (w : VirtioWorld) (p : Nat) (y : VirtioPc) :
    (fun q => (Function.update w.pc p y q).held) =
      Function.update (fun q => (w.pc q).held) p y.held := by
  funext q
  by_cases hq : q = p
  · rw [hq, Function.update_self, Function.update_self]
  · rw [Function.update_of_ne hq, Function.update_of_ne hq]

/-- Process `p` has got the chain `idx`, formatted for its call. -/
theorem VirtioInv.allocated (hI : VirtioInv w) {c : RwCall} {idx : DescIdx}
    (hp : w.pc p = .rwAlloc c) (hnd : idx.toList.Nodup)
    (hfree : ∀ d ∈ idx.toList, d < NUM ∧ w.disk.free d = true) :
    VirtioInv ({ w with
      disk := VirtioDisk.format { w.disk with free := Pool.mark idx.toList false w.disk.free } c idx
      bufDisk := Function.update w.bufDisk c.b true }.goto p (.rwPublish c idx)) := by
  set s' := VirtioDisk.format { w.disk with free := Pool.mark idx.toList false w.disk.free } c idx
    with hs'
  have hlock : (w.pc p).Locked := by rw [hp]; trivial
  -- the chains of the others are in use, and so none of the new ones
  have hother : ∀ q idx' d, (w.pc q).chain = some idx' → d ∈ idx'.toList → d ∉ idx.toList := by
    intro q idx' d hq hd hd'
    have h1 := (hI.in_use hq d hd).2
    rw [(hfree d hd').2] at h1
    cases h1
  have hnew : s'.info idx.idx0 = ⟨some c.b, 0xff⟩ := Function.update_self ..
  have hinfo : ∀ d, d ∉ idx.toList → s'.info d = w.disk.info d := by
    intro d hd
    refine Function.update_of_ne ?_ ..
    rintro rfl
    exact hd idx.idx0_mem
  have hwaiting : ∀ e ∈ w.atDevice, e.request.p ≠ p := by
    intro e he heq
    rcases (hI.submitted e he).waits with hw | hw <;> rw [heq, hp] at hw <;> cases hw
  constructor
  · exact hI.fault
  · intro q hq
    by_cases hqp : q = p
    · subst hqp
      exact hI.locked q hlock
    · exact hI.locked q (by rwa [VirtioWorld.goto_ne _ _ hqp] at hq)
  · show Pool.Conserved _ _ fun q => (Function.update w.pc p (.rwPublish c idx) q).held
    rw [VirtioWorld.held_update]
    refine hI.owned.take ?_ hnd hfree
    rw [hp]
    rfl
  · intro q idx' hq
    by_cases hqp : q = p
    · subst hqp
      rw [VirtioWorld.goto_self] at hq
      cases hq
      exact VirtioDisk.format_linked _ c hnd
    · rw [VirtioWorld.goto_ne _ _ hqp] at hq
      exact (hI.linked q idx' hq).of_desc fun d hd =>
        VirtioDisk.format_desc _ c (hother q idx' d hq hd)
  · intro q c' idx' hc hq
    by_cases hqp : q = p
    · subst hqp
      rw [VirtioWorld.goto_self] at hq hc
      cases hq
      cases hc
      exact congrArg DiskInfo.b hnew
    · rw [VirtioWorld.goto_ne _ _ hqp] at hq hc
      refine (congrArg DiskInfo.b (hinfo _ ?_)).trans (hI.buffer q c' idx' hc hq)
      exact hother q idx' _ hq idx'.idx0_mem
  · intro q c' idx' hq
    by_cases hqp : q = p
    · subst hqp
      rw [VirtioWorld.goto_self] at hq
      cases hq
      exact Function.update_self ..
    · rw [VirtioWorld.goto_ne _ _ hqp] at hq
      have hlock' : (w.pc q).Locked := by rw [hq]; trivial
      exact absurd hlock' (hI.others hlock q hqp)
  · exact hI.avail
  · exact hI.used
  · intro e he
    obtain ⟨hw, hid, hd⟩ := hI.submitted e he
    refine ⟨?_, hid, ?_⟩
    · rwa [VirtioWorld.goto_ne _ _ (hwaiting e he)]
    · show Function.update w.bufDisk c.b true e.request.call.b = true
      by_cases hb : e.request.call.b = c.b
      · rw [hb, Function.update_self]
      · rw [Function.update_of_ne hb]
        exact hd
  · exact hI.once
  · intro e he
    have hmem : e ∈ w.atDevice := List.mem_append_right _ he
    obtain ⟨hc, hm⟩ := hI.id_mem hmem
    exact (congrArg DiskInfo.status (hinfo _ (hother _ _ _ hc hm))).trans (hI.status e he)
  · intro q hq
    by_cases hqp : q = p
    · subst hqp
      rw [VirtioWorld.goto_self] at hq
      cases hq
    · exact hI.taking q (by rwa [VirtioWorld.goto_ne _ _ hqp] at hq)
  · have hcall : ∀ q, (Function.update w.pc p (.rwPublish c idx) q).call = (w.pc q).call := by
      intro q
      by_cases hqp : q = p
      · rw [hqp, Function.update_self, hp]
        rfl
      · rw [Function.update_of_ne hqp]
    intro q r c1 c2 hq hr
    exact hI.apart q r c1 c2 ((hcall q).symm.trans hq) ((hcall r).symm.trans hr)

/-- The request of process `p` is put into the available ring. -/
theorem VirtioInv.published (hI : VirtioInv w) {c : RwCall} {idx : DescIdx}
    (hp : w.pc p = .rwPublish c idx) :
    VirtioInv ({ w with disk := w.disk.publish ⟨p, c, idx⟩ }.goto p (.rwWait c idx)) := by
  set w' : VirtioWorld := { w with disk := w.disk.publish ⟨p, c, idx⟩ }.goto p (.rwWait c idx)
    with hw'
  have hlock : (w.pc p).Locked := by rw [hp]; trivial
  have hself : w'.pc p = .rwWait c idx := VirtioWorld.goto_self ..
  have hne : ∀ q, q ≠ p → w'.pc q = w.pc q := fun q => VirtioWorld.goto_ne _ _
  have hring : w'.availRing = Ring.push (2 ^ 16) NUM w.availRing ⟨idx.idx0, ⟨p, c, idx⟩⟩ := by
    simp only [hw', VirtioWorld.availRing, VirtioWorld.goto, VirtioDisk.publish, Ring.push,
      UInt16.toNat_add]
    rfl
  have hroom : Ring.count (2 ^ 16) w.availRing < NUM := by
    have h1 := hI.atDevice_lt hp
    rw [w.atDevice_length, w.toFetch_length] at h1
    omega
  obtain ⟨hvalid, hcontents⟩ := hI.avail.pushed virtq_fits hroom ⟨idx.idx0, ⟨p, c, idx⟩⟩
  have hat : w'.atDevice.Perm (⟨idx.idx0, ⟨p, c, idx⟩⟩ :: w.atDevice) := by
    have hfetch : w'.toFetch = w.toFetch ++ [⟨idx.idx0, ⟨p, c, idx⟩⟩] := by
      rw [VirtioWorld.toFetch, hring, hcontents]
      rfl
    show (w'.toFetch ++ w.outstanding ++ w.toTake).Perm _
    rw [hfetch, List.append_assoc, List.append_assoc, VirtioWorld.atDevice, List.append_assoc]
    exact List.perm_middle
  have hwaiting : ∀ e ∈ w.atDevice, e.request.p ≠ p := by
    intro e he heq
    rcases (hI.submitted e he).waits with hw | hw <;> rw [heq, hp] at hw <;> cases hw
  have hchain : ∀ q, (w'.pc q).chain = (w.pc q).chain := by
    intro q
    by_cases hqp : q = p
    · rw [hqp, hself, hp]
      rfl
    · rw [hne q hqp]
  have hcall : ∀ q, (w'.pc q).call = (w.pc q).call := by
    intro q
    by_cases hqp : q = p
    · rw [hqp, hself, hp]
      rfl
    · rw [hne q hqp]
  have hheld : (fun q => (w'.pc q).held) = fun q => (w.pc q).held := by
    funext q
    simp only [VirtioPc.held, hchain]
  constructor
  · exact hI.fault
  · intro q hq
    by_cases hqp : q = p
    · subst hqp
      exact hI.locked q hlock
    · exact hI.locked q (by rwa [hne q hqp] at hq)
  · rw [hheld]
    exact hI.owned
  · intro q idx' hq
    exact (hI.linked q idx' (hchain q ▸ hq)).of_desc fun _ _ => rfl
  · intro q c' idx' hc hq
    exact hI.buffer q c' idx' (hcall q ▸ hc) (hchain q ▸ hq)
  · intro q c' idx' hq
    by_cases hqp : q = p
    · subst hqp
      rw [hself] at hq
      cases hq
    · exact hI.disk q c' idx' (by rwa [hne q hqp] at hq)
  · rw [hring]
    exact hvalid
  · exact hI.used
  · intro e he
    rcases List.mem_cons.mp (hat.mem_iff.mp he) with rfl | he
    · exact ⟨.inl hself, rfl, hI.disk p c idx hp⟩
    · obtain ⟨hw, hid, hd⟩ := hI.submitted e he
      exact ⟨by rwa [hne _ (hwaiting e he)], hid, hd⟩
  · rw [(hat.map _).nodup_iff, List.map_cons, List.nodup_cons]
    refine ⟨fun hmem => ?_, hI.once⟩
    obtain ⟨e, he, heq⟩ := List.mem_map.mp hmem
    exact hwaiting e he heq
  · exact hI.status
  · intro q hq
    by_cases hqp : q = p
    · subst hqp
      rw [hself] at hq
      cases hq
    · exact hI.taking q (by rwa [hne q hqp] at hq)
  · intro q r c1 c2 hq hr
    exact hI.apart q r c1 c2 (hcall q ▸ hq) (hcall r ▸ hr)

/-- Process `p` has seen that its request is done, and has given its chain back. -/
theorem VirtioInv.finished (hI : VirtioInv w) {c : RwCall} {idx : DescIdx}
    (hp : w.pc p = .rwWait c idx) (hdone : w.bufDisk c.b = false) {s' : VirtioDisk}
    (hs' : s' = (((w.disk.forget idx.idx0).freed idx.idx0).freed idx.idx1).freed idx.idx2) :
    VirtioInv ({ w with disk := s' }.goto p .leave) := by
  have hlock : (w.pc p).Locked := by rw [hp]; trivial
  have hpchain : (w.pc p).chain = some idx := by rw [hp]; rfl
  have hfree : s'.free = Pool.mark idx.toList true w.disk.free := by
    rw [hs', freed_chain_free]
    rfl
  have hdesc : ∀ d, d ∉ idx.toList → s'.desc d = w.disk.desc d := by
    intro d hd
    simp only [DescIdx.toList, List.mem_cons, List.not_mem_nil, or_false, not_or] at hd
    simp [hs', VirtioDisk.freed, VirtioDisk.forget, hd]
  have hinfo : ∀ d, d ≠ idx.idx0 → s'.info d = w.disk.info d := by
    intro d hd
    rw [hs']
    exact Function.update_of_ne hd ..
  have hout : ∀ q idx', q ≠ p → (w.pc q).chain = some idx' → ∀ d ∈ idx'.toList, d ∉ idx.toList :=
    fun q idx' hqp hq d hd hd' => hqp (hI.same_owner hq hpchain hd hd')
  have hnone : ∀ e ∈ w.atDevice, e.request.p ≠ p := by
    intro e he heq
    obtain ⟨hw, -, hd⟩ := hI.submitted e he
    have hc := hw.call
    rw [heq, hp] at hc
    cases hc
    rw [hdone] at hd
    cases hd
  have hrings : s'.avail = w.disk.avail ∧ s'.used = w.disk.used ∧ s'.usedIdx = w.disk.usedIdx := by
    rw [hs']
    exact ⟨rfl, rfl, rfl⟩
  obtain ⟨havail, hused, husedIdx⟩ := hrings
  have hfetchRing : ({ w with disk := s' }.goto p .leave).availRing = w.availRing := by
    simp only [VirtioWorld.availRing, VirtioWorld.goto, havail]
  have htakeRing : ({ w with disk := s' }.goto p .leave).usedRing = w.usedRing := by
    simp only [VirtioWorld.usedRing, VirtioWorld.goto, hused, husedIdx]
  have hat : ({ w with disk := s' }.goto p .leave).atDevice = w.atDevice := by
    simp only [VirtioWorld.atDevice, VirtioWorld.toFetch, VirtioWorld.toTake, hfetchRing,
      htakeRing]
    rfl
  have hcall : ∀ q c', (Function.update w.pc p .leave q).call = some c' →
      (w.pc q).call = some c' := by
    intro q c' hq
    by_cases hqp : q = p
    · rw [hqp, Function.update_self] at hq
      cases hq
    · rwa [Function.update_of_ne hqp] at hq
  constructor
  · exact hI.fault
  · intro q hq
    by_cases hqp : q = p
    · subst hqp
      exact hI.locked q hlock
    · exact hI.locked q (by rwa [VirtioWorld.goto_ne _ _ hqp] at hq)
  · show Pool.Conserved _ s'.free fun q => (Function.update w.pc p .leave q).held
    rw [VirtioWorld.held_update, hfree]
    exact hI.owned.give (VirtioPc.held_of_chain hpchain)
  · intro q idx' hq
    by_cases hqp : q = p
    · subst hqp
      rw [VirtioWorld.goto_self] at hq
      cases hq
    · rw [VirtioWorld.goto_ne _ _ hqp] at hq
      exact (hI.linked q idx' hq).of_desc fun d hd => hdesc d (hout q idx' hqp hq d hd)
  · intro q c' idx' hc hq
    by_cases hqp : q = p
    · subst hqp
      rw [VirtioWorld.goto_self] at hq
      cases hq
    · rw [VirtioWorld.goto_ne _ _ hqp] at hq hc
      refine (congrArg DiskInfo.b (hinfo _ ?_)).trans (hI.buffer q c' idx' hc hq)
      rintro heq
      exact hout q idx' hqp hq _ idx'.idx0_mem (heq ▸ idx.idx0_mem)
  · intro q c' idx' hq
    by_cases hqp : q = p
    · subst hqp
      rw [VirtioWorld.goto_self] at hq
      cases hq
    · exact hI.disk q c' idx' (by rwa [VirtioWorld.goto_ne _ _ hqp] at hq)
  · rw [hfetchRing]
    exact hI.avail
  · rw [htakeRing]
    exact hI.used
  · intro e he
    rw [hat] at he
    obtain ⟨hw, hid, hd⟩ := hI.submitted e he
    exact ⟨by rwa [VirtioWorld.goto_ne _ _ (hnone e he)], hid, hd⟩
  · rw [hat]
    exact hI.once
  · intro e he
    rw [VirtioWorld.toTake, htakeRing] at he
    have hmem : e ∈ w.atDevice := List.mem_append_right _ he
    obtain ⟨hc, hm⟩ := hI.id_mem hmem
    refine (congrArg DiskInfo.status (hinfo _ ?_)).trans (hI.status e he)
    intro heq
    exact hout _ _ (hnone e hmem) hc _ hm (heq ▸ idx.idx0_mem)
  · intro q hq
    by_cases hqp : q = p
    · subst hqp
      rw [VirtioWorld.goto_self] at hq
      cases hq
    · show s'.usedIdx ≠ s'.used.idx
      rw [husedIdx, hused]
      exact hI.taking q (by rwa [VirtioWorld.goto_ne _ _ hqp] at hq)
  · intro q r c1 c2 hq hr
    exact hI.apart q r c1 c2 (hcall q c1 hq) (hcall r c2 hr)

/-- The world after `virtio_disk_intr` has gone past one answer. -/
def VirtioWorld.cleared (w : VirtioWorld) (p : Nat) : VirtioWorld :=
  { w with
    disk := { w.disk with usedIdx := w.disk.usedIdx + 1 }
    bufDisk := Function.update w.bufDisk w.disk.answered.request.call.b false }.goto p .intrLoop

/-- The oldest answer is the one that `virtio_disk_intr` takes. -/
theorem VirtioInv.oldest (hI : VirtioInv w) (hp : w.pc p = .intrTake) :
    Ring.Valid (2 ^ 16) NUM (w.cleared p).usedRing ∧
      w.toTake = w.disk.answered :: (w.cleared p).toTake := by
  have hring : (w.cleared p).usedRing = Ring.pop (2 ^ 16) w.usedRing := by
    simp only [VirtioWorld.cleared, VirtioWorld.usedRing, VirtioWorld.goto, Ring.pop,
      UInt16.toNat_add]
    rfl
  have hsome : Ring.count (2 ^ 16) w.usedRing ≠ 0 := by
    rw [Ne, ← hI.used.empty_iff]
    exact fun heq => hI.taking p hp (UInt16.toNat_inj.mp heq)
  obtain ⟨hvalid, hcontents⟩ := hI.used.popped hsome
  rw [VirtioWorld.toTake, VirtioWorld.toTake, hring]
  exact ⟨hvalid, hcontents⟩

theorem VirtioInv.answered_mem (hI : VirtioInv w) (hp : w.pc p = .intrTake) :
    w.disk.answered ∈ w.atDevice := by
  refine List.mem_append_right _ ?_
  rw [(hI.oldest hp).2]
  exact List.mem_cons_self

/-- The answer is for the request whose buffer is recorded, and there is no panic. -/
theorem VirtioInv.take_eq (hI : VirtioInv w) (hp : w.pc p = .intrTake) :
    w.take p = w.cleared p := by
  have hmem := hI.answered_mem hp
  obtain ⟨hw, hid, -⟩ := hI.submitted _ hmem
  have hstatus : (w.disk.info w.disk.answered.id).status = 0 := by
    refine hI.status _ ?_
    rw [(hI.oldest hp).2]
    exact List.mem_cons_self
  have hb := hI.buffer _ _ _ hw.call hw.chain
  rw [← hid] at hb
  simp only [VirtioWorld.take, hstatus, ne_eq, not_true_eq_false, if_false, hb]
  rfl

theorem VirtioInv.took (hI : VirtioInv w) (hp : w.pc p = .intrTake) :
    VirtioInv (w.cleared p) := by
  have hlock : (w.pc p).Locked := by rw [hp]; trivial
  have hothers := hI.others hlock
  have hself : (w.cleared p).pc p = .intrLoop := VirtioWorld.goto_self ..
  have hne : ∀ q, q ≠ p → (w.cleared p).pc q = w.pc q := fun q => VirtioWorld.goto_ne _ _
  obtain ⟨hvalid, htake⟩ := hI.oldest hp
  have hmem := hI.answered_mem hp
  have hchain : ∀ q, ((w.cleared p).pc q).chain = (w.pc q).chain := by
    intro q
    by_cases hqp : q = p
    · rw [hqp, hself, hp]
      rfl
    · rw [hne q hqp]
  have hcall : ∀ q, ((w.cleared p).pc q).call = (w.pc q).call := by
    intro q
    by_cases hqp : q = p
    · rw [hqp, hself, hp]
      rfl
    · rw [hne q hqp]
  have hheld : (fun q => ((w.cleared p).pc q).held) = fun q => (w.pc q).held := by
    funext q
    simp only [VirtioPc.held, hchain]
  have hat : w.atDevice.Perm (w.disk.answered :: (w.cleared p).atDevice) := by
    rw [VirtioWorld.atDevice, htake]
    exact List.perm_middle
  have honce : w.disk.answered.request.p ∉ (w.cleared p).atDevice.map (·.request.p) ∧
      ((w.cleared p).atDevice.map (·.request.p)).Nodup := by
    have h1 := hI.once
    rw [(hat.map _).nodup_iff, List.map_cons] at h1
    exact List.nodup_cons.mp h1
  constructor
  · exact hI.fault
  · intro q hq
    by_cases hqp : q = p
    · subst hqp
      exact hI.locked q hlock
    · exact hI.locked q (by rwa [hne q hqp] at hq)
  · rw [hheld]
    exact hI.owned
  · intro q idx hq
    exact (hI.linked q idx (hchain q ▸ hq)).of_desc fun _ _ => rfl
  · intro q c idx hc hq
    exact hI.buffer q c idx (hcall q ▸ hc) (hchain q ▸ hq)
  · intro q c idx hq
    by_cases hqp : q = p
    · subst hqp
      rw [hself] at hq
      cases hq
    · rw [hne q hqp] at hq
      have hlocked : (w.pc q).Locked := by rw [hq]; trivial
      exact absurd hlocked (hothers q hqp)
  · exact hI.avail
  · exact hvalid
  · intro e he
    obtain ⟨hw, hid, hd⟩ := hI.submitted e (hat.mem_iff.mpr (List.mem_cons_of_mem _ he))
    have hep : e.request.p ≠ p := by
      intro heq
      rw [heq, hp] at hw
      rcases hw with hw | hw <;> cases hw
    refine ⟨by rwa [hne _ hep], hid, ?_⟩
    -- another request is of another call, and so of another buffer
    refine (Function.update_of_ne ?_ ..).trans hd
    intro hb
    refine honce.1 (List.mem_map.mpr ⟨e, he, ?_⟩)
    exact hI.apart _ _ _ _ hw.call (hI.submitted _ hmem).waits.call hb
  · exact honce.2
  · intro e he
    refine hI.status e ?_
    rw [htake]
    exact List.mem_cons_of_mem _ he
  · intro q hq
    by_cases hqp : q = p
    · subst hqp
      rw [hself] at hq
      cases hq
    · rw [hne q hqp] at hq
      have hlocked : (w.pc q).Locked := by rw [hq]; trivial
      exact absurd hlocked (hothers q hqp)
  · intro q r c1 c2 hq hr
    exact hI.apart q r c1 c2 (hcall q ▸ hq) (hcall r ▸ hr)

/-! ## The device -/

theorem VirtioInv.fetched (hI : VirtioInv w) (hfetch : w.fetch = some w') : VirtioInv w' := by
  unfold VirtioWorld.fetch at hfetch
  split at hfetch
  · rename_i hdiff
    cases hfetch
    have hring : Ring.pop (2 ^ 16) w.availRing =
        ⟨(w.lastAvail + 1).toNat, w.disk.avail.idx.toNat, w.disk.avail.ring⟩ := by
      simp only [Ring.pop, VirtioWorld.availRing, UInt16.toNat_add]
      rfl
    have hsome : Ring.count (2 ^ 16) w.availRing ≠ 0 := by
      rw [Ne, ← hI.avail.empty_iff]
      exact fun heq => hdiff (UInt16.toNat_inj.mp heq)
    obtain ⟨hvalid, hcontents⟩ := hI.avail.popped hsome
    rw [hring] at hvalid hcontents
    have hat : (Ring.contents (2 ^ 16) NUM
          ⟨(w.lastAvail + 1).toNat, w.disk.avail.idx.toNat, w.disk.avail.ring⟩ ++
        (w.outstanding ++ [w.disk.avail.ring (w.lastAvail.toNat % NUM)]) ++ w.toTake).Perm
          w.atDevice := by
      rw [VirtioWorld.atDevice, VirtioWorld.toFetch, hcontents, List.cons_append,
        ← List.append_assoc]
      exact (List.perm_append_singleton _ _).append_right _
    exact ⟨hI.fault, hI.locked, hI.owned, hI.linked, hI.buffer, hI.disk, hvalid, hI.used,
      fun e he => ⟨(hI.submitted e (hat.mem_iff.mp he)).waits,
        (hI.submitted e (hat.mem_iff.mp he)).id, (hI.submitted e (hat.mem_iff.mp he)).disk⟩,
      (hat.map _).nodup_iff.mpr hI.once, hI.status, hI.taking, hI.apart⟩
  · cases hfetch

/-- A chain that is linked leads the device to the status byte of its head. -/
theorem VirtioDisk.complete_eq {s : VirtioDisk} {e : RingEntry}
    (hl : s.Linked e.request.idx) (hid : e.id = e.request.idx.idx0) :
    s.complete e = { s with
      info := Function.update s.info e.id { s.info e.id with status := 0 }
      used := ⟨s.used.idx + 1, Function.update s.used.ring (s.used.idx.toNat % NUM) e⟩ } := by
  have haddr : (s.desc (s.desc (s.desc e.id).next).next).addr = .status e.id := by
    rw [hid, hl.next0, hl.next1, hl.status]
  simp only [VirtioDisk.complete, haddr]

theorem VirtioInv.completed (hI : VirtioInv w) {k : Nat} (hcomplete : w.complete k = some w') :
    VirtioInv w' := by
  obtain ⟨e, hget, hw'⟩ := Option.map_eq_some_iff.mp hcomplete
  obtain ⟨hk, he⟩ := List.getElem?_eq_some_iff.mp hget
  have hmem : e ∈ w.atDevice := by
    refine List.mem_append_left _ (List.mem_append_right _ ?_)
    exact he ▸ List.getElem_mem hk
  obtain ⟨hw, hid, -⟩ := hI.submitted e hmem
  rw [VirtioDisk.complete_eq (hI.linked _ _ hw.chain) hid] at hw'
  have hring : w'.usedRing = Ring.push (2 ^ 16) NUM w.usedRing e := by
    simp only [← hw', VirtioWorld.usedRing, Ring.push, UInt16.toNat_add]
    rfl
  have hroom : Ring.count (2 ^ 16) w.usedRing < NUM := by
    have h1 := hI.atDevice_le
    rw [w.atDevice_length, w.toTake_length] at h1
    omega
  obtain ⟨hvalid, hcontents⟩ := hI.used.pushed virtq_fits hroom e
  rw [← hring] at hvalid hcontents
  have htake : w'.toTake = w.toTake ++ [e] := hcontents
  have hat : w'.atDevice.Perm w.atDevice := by
    have hrest := List.getElem_cons_eraseIdx_perm hk
    rw [he] at hrest
    have hout : w'.outstanding = w.outstanding.eraseIdx k := by rw [← hw']
    have hfetch : w'.toFetch = w.toFetch := by rw [← hw']; rfl
    rw [VirtioWorld.atDevice, VirtioWorld.atDevice, htake, hout, hfetch, List.append_assoc,
      List.append_assoc]
    refine .append_left _ (.trans ?_ (hrest.append_right _))
    rw [← List.append_assoc, List.cons_append]
    exact List.perm_append_singleton _ _
  have hinfo : w'.disk.info = Function.update w.disk.info e.id { w.disk.info e.id with status := 0 } :=
    by rw [← hw']
  have hb : ∀ d, (w'.disk.info d).b = (w.disk.info d).b := by
    intro d
    rw [hinfo]
    by_cases hd : d = e.id
    · rw [hd, Function.update_self]
    · rw [Function.update_of_ne hd]
  have hpc : w'.pc = w.pc := by rw [← hw']
  have hbuf : w'.bufDisk = w.bufDisk := by rw [← hw']
  constructor
  · rw [← hw']
    exact hI.fault
  · rw [← hw']
    exact hI.locked
  · rw [← hw']
    exact hI.owned
  · intro q idx hq
    rw [hpc] at hq
    refine (hI.linked q idx hq).of_desc fun _ _ => ?_
    rw [← hw']
  · intro q c idx hc hq
    rw [hpc] at hc hq
    rw [hb]
    exact hI.buffer q c idx hc hq
  · rw [hpc, hbuf]
    exact hI.disk
  · rw [← hw']
    exact hI.avail
  · exact hvalid
  · intro e' he'
    obtain ⟨hw1, hid1, hd1⟩ := hI.submitted e' (hat.mem_iff.mp he')
    exact ⟨by rwa [hpc], hid1, by rwa [hbuf]⟩
  · rw [(hat.map _).nodup_iff]
    exact hI.once
  · intro e' he'
    rw [htake] at he'
    rw [hinfo]
    by_cases hd : e'.id = e.id
    · rw [hd, Function.update_self]
    · rw [Function.update_of_ne hd]
      rcases List.mem_append.mp he' with he' | he'
      · exact hI.status e' he'
      · exact absurd (congrArg RingEntry.id (List.mem_singleton.mp he')) hd
  · intro q hq heq
    have hempty := hvalid.empty_iff.mp (congrArg UInt16.toNat heq)
    rw [← VirtioWorld.toTake_length, htake, List.length_append] at hempty
    exact absurd hempty (by simp)
  · rw [hpc]
    exact hI.apart

end Inv

/-! ## Every step -/

/-- Places with the same call and chain, the second not before the publication. -/
structure VirtioPc.Alike (x y : VirtioPc) : Prop where
  chain : y.chain = x.chain
  call : y.call = x.call
  waits : ∀ c idx, x.Waits c idx → y.Waits c idx
  published : ∀ c idx, y ≠ .rwPublish c idx

theorem VirtioPc.Alike.of_out {x y : VirtioPc} (hx : x.chain = none) (hy : y.chain = none)
    (hcall : y.call = x.call) : x.Alike y := by
  refine ⟨hy.trans hx.symm, hcall, fun c idx h => ?_, fun c idx h => ?_⟩
  · rw [h.chain] at hx
    cases hx
  · rw [h] at hy
    cases hy

section Steps
variable {w w' : VirtioWorld} {p : Nat} {x y : VirtioPc}

theorem VirtioInv.alike (hI : VirtioInv w) (hp : w.pc p = x) (h : x.Alike y) {holder : Option Nat}
    (hothers : ∀ q, q ≠ p → (w.pc q).Locked → holder = some q) (hlocked : y.Locked → holder = some p)
    (htake : y = .intrTake → w.disk.usedIdx ≠ w.disk.used.idx) :
    VirtioInv (w.move p holder y) := by
  subst hp
  exact hI.moved hothers hlocked h.chain (fun c hc => .inl (h.call ▸ hc)) h.waits h.published htake

theorem VirtioInv.acquired (hI : VirtioInv w) (hp : w.pc p = x)
    (hrun : w.acquire p y = some w') (h : x.Alike y) (htake : y ≠ .intrTake) : VirtioInv w' := by
  unfold VirtioWorld.acquire at hrun
  split at hrun
  · rename_i hfree
    cases hrun
    refine hI.alike hp h (fun q _ hq => ?_) (fun _ => rfl) (fun heq => absurd heq htake)
    have h1 := hI.locked q hq
    rw [hfree] at h1
    cases h1
  · cases hrun

theorem VirtioInv.released (hI : VirtioInv w) (hp : w.pc p = x) (hx : x.Locked) (h : x.Alike y)
    (hy : ¬ y.Locked) : VirtioInv (w.release p y) := by
  refine hI.alike hp h (fun q hq hl => ?_) (fun hl => absurd hl hy) (fun heq => ?_)
  · exact absurd hl (hI.others (hp ▸ hx) q hq)
  · subst heq
    exact absurd trivial hy

theorem VirtioInv.went (hI : VirtioInv w) (hp : w.pc p = x) (hx : x.Locked) (h : x.Alike y)
    (htake : y = .intrTake → w.disk.usedIdx ≠ w.disk.used.idx) : VirtioInv (w.goto p y) :=
  hI.alike hp h (fun q _ hq => hI.locked q hq) (fun _ => hI.locked p (hp ▸ hx)) htake

/-- A call starts. -/
theorem VirtioInv.started (hI : VirtioInv w) (hp : w.pc p = .idle) (hy : y.chain = none)
    (hout : ¬ y.Locked)
    (hcall : ∀ c, y.call = some c → ∀ q c', (w.pc q).call = some c' → c'.b ≠ c.b) :
    VirtioInv (w.goto p y) := by
  refine hI.moved (fun q _ hq => hI.locked q hq) (fun hl => absurd hl hout) ?_
    (fun c hc => .inr ⟨hy, hcall c hc⟩) (fun c idx h => ?_) (fun c idx h => ?_) (fun heq => ?_)
  · rw [hy, hp]
    rfl
  · rw [hp] at h
    rcases h with h | h <;> cases h
  · rw [h] at hy
    cases hy
  · subst heq
    exact absurd trivial hout

/-- A process allocates its descriptors, or waits until there are some. -/
theorem VirtioInv.allocates (hI : VirtioInv w) {c : RwCall} (hp : w.pc p = .rwAlloc c)
    (hrun : w.run p = some w') : VirtioInv w' := by
  simp only [VirtioWorld.run, hp] at hrun
  rcases alloc3Desc_spec w.disk with ⟨desc, halloc, hsame⟩ | ⟨idx, hnd, hfree, halloc⟩
  · simp only [VirtioWorld.exec, halloc, Option.some.injEq] at hrun
    subst hrun
    exact (hI.desc hsame).released hp trivial (.of_out rfl rfl rfl) (fun h => h)
  · simp only [VirtioWorld.exec, halloc, Option.some.injEq] at hrun
    subst hrun
    exact hI.allocated hp hnd hfree

/-- A process sees that its request is not done yet, or frees its chain. -/
theorem VirtioInv.finishes (hI : VirtioInv w) {c : RwCall} {idx : DescIdx}
    (hp : w.pc p = .rwWait c idx) (hrun : w.run p = some w') : VirtioInv w' := by
  simp only [VirtioWorld.run, hp] at hrun
  cases hd : w.bufDisk c.b with
  | true =>
    rw [if_pos hd] at hrun
    cases hrun
    refine hI.released hp trivial ⟨rfl, rfl, fun c' idx' h => ?_, fun c' idx' h => by cases h⟩
      (fun h => h)
    rcases h with h | h <;> cases h
    exact .inr rfl
  | false =>
    have hchain : (w.pc p).chain = some idx := by rw [hp]; rfl
    have hlinked : (w.disk.forget idx.idx0).Linked idx :=
      (hI.linked p idx hchain).of_desc fun _ _ => rfl
    have hfreed := freeChain_spec hlinked (hI.chain_nodup hchain) (hI.in_use hchain)
    rw [if_neg (by simp [hd])] at hrun
    simp only [VirtioWorld.exec, hfreed, Option.some.injEq] at hrun
    subst hrun
    exact hI.finished hp hd rfl

theorem VirtioInv.runs (hI : VirtioInv w) (hrun : w.run p = some w') : VirtioInv w' := by
  cases hp : w.pc p with
  | rwAlloc c => exact hI.allocates hp hrun
  | rwWait c idx => exact hI.finishes hp hrun
  | idle =>
    simp only [VirtioWorld.run, hp] at hrun
    cases hrun
  | rwAcquire c =>
    simp only [VirtioWorld.run, hp] at hrun
    exact hI.acquired hp hrun (.of_out rfl rfl rfl) (fun h => by cases h)
  | rwAllocSleep c =>
    simp only [VirtioWorld.run, hp] at hrun
    exact hI.acquired hp hrun (.of_out rfl rfl rfl) (fun h => by cases h)
  | rwPublish c idx =>
    simp only [VirtioWorld.run, hp, Option.some.injEq] at hrun
    subst hrun
    exact hI.published hp
  | rwSleep c idx =>
    simp only [VirtioWorld.run, hp] at hrun
    refine hI.acquired hp hrun ⟨rfl, rfl, fun c' idx' h => ?_, fun c' idx' h => by cases h⟩
      (fun h => by cases h)
    rcases h with h | h <;> cases h
    exact .inl rfl
  | intrAcquire =>
    simp only [VirtioWorld.run, hp] at hrun
    exact hI.acquired hp hrun (.of_out rfl rfl rfl) (fun h => by cases h)
  | intrLoop =>
    simp only [VirtioWorld.run, hp] at hrun
    split at hrun
    · rename_i hne
      cases hrun
      exact hI.went hp trivial (.of_out rfl rfl rfl) (fun _ => hne)
    · cases hrun
      exact hI.went hp trivial (.of_out rfl rfl rfl) (fun h => by cases h)
  | intrTake =>
    simp only [VirtioWorld.run, hp, Option.some.injEq] at hrun
    subst hrun
    rw [hI.take_eq hp]
    exact hI.took hp
  | leave =>
    simp only [VirtioWorld.run, hp, Option.some.injEq] at hrun
    subst hrun
    exact hI.released hp trivial (.of_out rfl rfl rfl) (fun h => h)

end Steps

theorem virtioInv_step {w w' : VirtioWorld} {a : VirtioAction} (hI : VirtioInv w)
    (hok : Unshared w a) (hstep : virtioStep w a = some w') : VirtioInv w' := by
  unfold virtioStep at hstep
  rw [hI.fault] at hstep
  cases a with
  | virtioDiskRw p b blockno write =>
    simp only [Option.isSome_none, Bool.false_eq_true, if_false] at hstep
    split at hstep
    · rename_i hidle
      cases hstep
      refine hI.started hidle rfl (fun h => h) fun c hc q c' hq => ?_
      cases hc
      exact hok q c' hq
    · cases hstep
  | virtioDiskIntr p =>
    simp only [Option.isSome_none, Bool.false_eq_true, if_false] at hstep
    split at hstep
    · rename_i hidle
      cases hstep
      exact hI.started hidle rfl (fun h => h) fun c hc => by cases hc
    · cases hstep
  | run p => exact hI.runs hstep
  | fetch => exact hI.fetched hstep
  | complete k => exact hI.completed hstep

theorem virtioInv_reach {w : VirtioWorld}
    (h : Run.Reach VirtioStart (fun s a t => virtioStep s a = some t) Unshared w) :
    VirtioInv w :=
  h.invariant (fun _ => virtioInv_start) fun _ _ _ hI hok hstep => virtioInv_step hI hok hstep

/-- No `disk` is cleared. -/
def VirtioWorld.KeepsDisk (w w' : VirtioWorld) : Prop :=
  ∀ b, w.bufDisk b = true → w'.bufDisk b = true

section Clears
variable {w w' : VirtioWorld} {p : Nat} {y : VirtioPc}

theorem VirtioWorld.exec_keepsDisk {α : Type} {x : DiskComp α}
    {k : VirtioWorld → α → VirtioWorld} (hk : ∀ s a, w.KeepsDisk (k { w with disk := s } a)) :
    w.KeepsDisk (w.exec x k) := by
  unfold VirtioWorld.exec
  cases x w.disk with
  | ok a s => exact hk s a
  | fault f s => exact fun _ h => h

theorem VirtioWorld.acquire_keepsDisk (h : w.acquire p y = some w') : w.KeepsDisk w' := by
  unfold VirtioWorld.acquire at h
  split at h
  · cases h
    exact fun _ h => h
  · cases h

theorem VirtioWorld.run_keepsDisk (hpc : w.pc p ≠ .intrTake) (hrun : w.run p = some w') :
    w.KeepsDisk w' := by
  cases hp : w.pc p <;> simp only [VirtioWorld.run, hp, Option.some.injEq] at hrun
  case idle => cases hrun
  case intrTake => exact absurd hp hpc
  case rwAcquire | rwAllocSleep | rwSleep | intrAcquire => exact acquire_keepsDisk hrun
  case rwAlloc c =>
    subst hrun
    refine exec_keepsDisk fun s idx => ?_
    cases idx with
    | none => exact fun _ h => h
    | some idx =>
      intro b hb
      show Function.update w.bufDisk c.b true b = true
      by_cases hbc : b = c.b
      · rw [hbc, Function.update_self]
      · rw [Function.update_of_ne hbc]
        exact hb
  case rwPublish =>
    subst hrun
    exact fun _ h => h
  case rwWait c idx =>
    split at hrun
    · cases hrun
      exact fun _ h => h
    · cases hrun
      show VirtioWorld.KeepsDisk { w with disk := w.disk.forget idx.idx0 } _
      refine exec_keepsDisk fun s _ => ?_
      exact fun _ h => h
  case intrLoop =>
    split at hrun <;> cases hrun <;> exact fun _ h => h
  case leave =>
    subst hrun
    exact fun _ h => h

end Clears

/-- `disk` of a buffer is cleared by `virtio_disk_intr` only. -/
theorem VirtioInv.clears {w w' : VirtioWorld} {a : VirtioAction} (hI : VirtioInv w)
    (hstep : virtioStep w a = some w') {b : Nat} (hset : w.bufDisk b = true)
    (hclear : w'.bufDisk b = false) :
    ∃ p, a = .run p ∧ w.pc p = .intrTake ∧ b = w.disk.answered.request.call.b := by
  have hkeeps : ¬ w.KeepsDisk w' := by
    intro h
    rw [h b hset] at hclear
    cases hclear
  unfold virtioStep at hstep
  rw [hI.fault] at hstep
  cases a with
  | virtioDiskRw p b' blockno write =>
    simp only [Option.isSome_none, Bool.false_eq_true, if_false] at hstep
    split at hstep
    · cases hstep
      exact absurd (fun _ h => h) hkeeps
    · cases hstep
  | virtioDiskIntr p =>
    simp only [Option.isSome_none, Bool.false_eq_true, if_false] at hstep
    split at hstep
    · cases hstep
      exact absurd (fun _ h => h) hkeeps
    · cases hstep
  | fetch =>
    simp only [Option.isSome_none, Bool.false_eq_true, if_false, VirtioWorld.fetch] at hstep
    split at hstep
    · cases hstep
      exact absurd (fun _ h => h) hkeeps
    · cases hstep
  | complete k =>
    obtain ⟨e, -, rfl⟩ := Option.map_eq_some_iff.mp hstep
    exact absurd (fun _ h => h) hkeeps
  | run p =>
    replace hstep : w.run p = some w' := hstep
    by_cases hp : w.pc p = .intrTake
    · refine ⟨p, rfl, hp, ?_⟩
      simp only [VirtioWorld.run, hp, Option.some.injEq] at hstep
      subst hstep
      rw [hI.take_eq hp] at hclear
      by_contra hb
      have hother : (w.cleared p).bufDisk b = w.bufDisk b := Function.update_of_ne hb ..
      rw [hother, hset] at hclear
      cases hclear
    · exact absurd (VirtioWorld.run_keepsDisk hp hstep) hkeeps

/-- The property holds in every state of a run in which no two calls use one buffer at a time. -/
theorem virtio_conserved {w : VirtioWorld}
    (h : Run.Reach VirtioStart (fun s a t => virtioStep s a = some t) Unshared w) :
    VirtioConserved w := by
  have hI := virtioInv_reach h
  refine ⟨fun d hd => hI.owned.free_or_held hd, fun p idx hp => ?_, fun e he => ?_, hI.fault,
    fun p hp => ?_, fun a w' hstep b hset hclear => hI.clears hstep hset hclear⟩
  · exact ⟨hI.chain_nodup hp, hI.linked p idx hp⟩
  · obtain ⟨hw, hid, -⟩ := hI.submitted e he
    exact ⟨hw.chain, hid⟩
  · refine ⟨(hI.submitted _ (hI.answered_mem hp)).waits.call, w.cleared p, ?_, rfl⟩
    simp only [VirtioWorld.run, hp, hI.take_eq hp]

/-- The driver after `virtio_init`. -/
def idleDisk : VirtioWorld where
  disk :=
    { desc := fun _ => ⟨.null, 0, 0, 0⟩
      avail := ⟨0, fun _ => ⟨0, 0, ⟨0, false, 0⟩, ⟨0, 0, 0⟩⟩⟩
      used := ⟨0, fun _ => ⟨0, 0, ⟨0, false, 0⟩, ⟨0, 0, 0⟩⟩⟩
      free := fun _ => true
      usedIdx := 0
      info := fun _ => ⟨none, 0⟩
      ops := fun _ => ⟨0, 0, 0⟩ }
  bufDisk := fun _ => false
  holder := none
  pc := fun _ => .idle
  lastAvail := 0
  outstanding := []
  fault := none

theorem idleDisk_start : VirtioStart idleDisk :=
  ⟨fun _ _ => rfl, rfl, rfl, rfl, rfl, rfl, rfl, fun _ => rfl, rfl⟩

/-- The steps from a call of `virtio_disk_rw` to its sleep. -/
def submits (p b : Nat) : List VirtioAction :=
  [.virtioDiskRw p b 0 false, .run p, .run p, .run p, .run p]

/-- A read of one block, up to the place where its answer is taken. -/
theorem virtio_conserved_read : ∃ w : VirtioWorld, w.pc 1 = .intrTake ∧ VirtioConserved w := by
  have hfirst : Unshared idleDisk (.virtioDiskRw 0 7 0 false) := fun q c hc => by cases hc
  have hvalue : (Run.runSome virtioStep [.run 0, .run 0, .run 0, .run 0, .fetch, .complete 0,
      .virtioDiskIntr 1, .run 1, .run 1] (idleDisk.goto 0 (.rwAcquire ⟨7, false, 0⟩))).map
        (fun w => w.pc 1) = some .intrTake := by decide +kernel
  obtain ⟨w, hrun, hpc⟩ := Option.map_eq_some_iff.mp hvalue
  refine ⟨w, hpc, virtio_conserved (.runSomeOk _ ?_ (.next (.start idleDisk_start) hfirst rfl)
    hrun)⟩
  intro a ha w
  cases a with
  | virtioDiskRw => simp at ha
  | _ => trivial

/-- Two calls with one buffer: the second gives its chain back while the device has it, a third
call gets the chain, and the answer to the second clears the buffer of the third. -/
theorem virtio_clears_other : ¬ ∀ w, Run.Reach VirtioStart
    (fun s a t => virtioStep s a = some t) Run.anyStep w → VirtioConserved w := by
  intro hall
  have hvalue : (Run.runSome virtioStep (submits 0 7 ++ submits 1 7 ++
      [.fetch, .fetch, .complete 0, .virtioDiskIntr 3, .run 3, .run 3, .run 3, .run 3, .run 3,
        .run 1, .run 1, .run 1] ++ submits 2 9 ++
      [.complete 0, .virtioDiskIntr 3, .run 3, .run 3]) idleDisk).map
        (fun w => (w.pc 3, w.disk.answered.request.call.b, w.bufDisk 9,
          (w.run 3).map fun w' => w'.bufDisk 9)) =
      some (.intrTake, 7, true, some false) := by decide +kernel
  obtain ⟨w, hrun, hobs⟩ := Option.map_eq_some_iff.mp hvalue
  simp only [Prod.mk.injEq] at hobs
  obtain ⟨hpc, hown, hset, hclear⟩ := hobs
  obtain ⟨-, w', hrun', hbuf⟩ :=
    (hall w (Run.Reach.runSome _ (.start idleDisk_start) hrun)).answers 3 hpc
  rw [hrun', Option.map_some, Option.some.injEq, hbuf, hown,
    Function.update_of_ne (by decide), hset] at hclear
  cases hclear

end PageFaultOS
