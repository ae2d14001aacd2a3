import Mathlib.Tactic
import PageFaultOS.Lib.Exec
import PageFaultOS.Lib.Run
import PageFaultOS.Proc.Sched

/-! The buffer cache, from `fs/buf.hpp` and `fs/bio.cpp`. The calls come one after the other; a
process that finds the sleep lock of a buffer taken is out of the run, since no code gives the
lock of a buffer back. -/

namespace PageFaultOS
open Exec Exec.Comp

def BUFFER_NUM : Nat := 100

/-- `uchar data[BFSIZE]`. -/
abbrev BufData := Vector UInt8 512

/-- `sleeplock` is the process that has the lock. -/
structure Buf where
  valid : Bool
  dev : Int32
  blockno : Int32
  lastUseTick : UInt64
  sleeplock : Option Nat
  refcnt : UInt32
  data : BufData

/-- A buffer before the first call. -/
def Buf.zero : Buf := ⟨false, 0, 0, 0, none, 0, .replicate 512 0⟩

/-- The buffers, the clock and the disk. The driver of either build reads and writes by `blockno`
alone. -/
structure Buffers where
  bufCache : Nat → Buf
  ticks : UInt32
  disk : Int32 → BufData

abbrev BufComp := Comp Buffers

/-- Whether `b->last_use_tick < earliest->last_use_tick`, or there is no `earliest` yet. -/
def Earlier (cache : Nat → Buf) (i : Nat) : Option Nat → Prop
  | none => True
  | some e => (cache i).lastUseTick < (cache e).lastUseTick

instance (cache : Nat → Buf) (i : Nat) : (e : Option Nat) → Decidable (Earlier cache i e)
  | none => inferInstanceAs (Decidable True)
  | some e => inferInstanceAs (Decidable ((cache i).lastUseTick < (cache e).lastUseTick))

namespace BufferLayer

def setBuf (i : Nat) (f : Buf → Buf) : BufComp Unit :=
  modify fun s => { s with bufCache := Function.update s.bufCache i (f (s.bufCache i)) }

/-- The loop of `allocBuffer`: the buffer with the block, or else `earliest`. -/
def scan (cache : Nat → Buf) (blockno : Int32) : List Nat → Option Nat → Nat ⊕ Option Nat
  | [], earliest => .inr earliest
  | i :: l, earliest =>
    let earliest := if (cache i).refcnt = 0 ∧ Earlier cache i earliest then some i else earliest
    if (cache i).blockno = blockno then .inl i else scan cache blockno l earliest

/-- `acquiresleep(&b->sleeplock)`. -/
def acquiresleep (p i : Nat) : BufComp Unit := do
  let s ← read
  match (s.bufCache i).sleeplock with
  | some _ => fault .diverge
  | none => setBuf i fun b => { b with sleeplock := some p }

def allocBuffer (p : Nat) (dev blockno : Int32) : BufComp Nat := do
  let s ← read
  match scan s.bufCache blockno (List.range BUFFER_NUM) none with
  | .inl i => do
    setBuf i fun b => { b with refcnt := b.refcnt + 1, lastUseTick := s.ticks.toUInt64 }
    acquiresleep p i
    pure i
  | .inr none => Comp.panic "alloc buf"
  | .inr (some i) => do
    setBuf i fun b => { b with
      valid := false, refcnt := 1, blockno := blockno, dev := dev
      lastUseTick := s.ticks.toUInt64 }
    acquiresleep p i
    pure i

/-- `disk_write`. -/
def write (i : Nat) : BufComp Unit :=
  modify fun s => { s with
    disk := Function.update s.disk (s.bufCache i).blockno (s.bufCache i).data }

/-- The second `release` is of a lock that has been given back: no call returns. -/
def freeBuffer (i : Nat) : BufComp Unit := do
  setBuf i fun b => { b with refcnt := b.refcnt - 1 }
  write i
  Comp.panic "release"

def diskRead (i : Nat) : BufComp Unit := do
  let s ← read
  setBuf i fun b => { b with data := s.disk b.blockno }

def read (p : Nat) (dev blockno : Int32) : BufComp Nat := do
  let i ← allocBuffer p dev blockno
  let s ← Comp.read
  if !(s.bufCache i).valid then diskRead i
  setBuf i fun b => { b with valid := true }
  pure i

end BufferLayer

/-- `asleep` are the processes that wait for the sleep lock of a buffer. `device` and `lastWritten`
are ghosts: the device that a buffer was asked for, and what was last written to each block of each
device. -/
structure BufWorld where
  layer : Buffers
  asleep : Finset Nat
  device : Nat → Int32
  lastWritten : Int32 → Int32 → BufData

/-- Every device number names the one disk there is. -/
structure BufStart (w : BufWorld) : Prop where
  cache : ∀ i, w.layer.bufCache i = Buf.zero
  asleep : w.asleep = ∅
  written : ∀ dev blockno, w.lastWritten dev blockno = w.layer.disk blockno

inductive BufAction where
  | read (p : Nat) (dev blockno : Int32)
  | allocBuffer (p : Nat) (dev blockno : Int32)
  | write (i : Nat)
  | freeBuffer (i : Nat)
  | edit (i : Nat) (data : BufData)
  | tick

namespace BufWorld

def CanCall (w : BufWorld) (p : Nat) : Prop := p < NPROC ∧ p ∉ w.asleep

instance (w : BufWorld) (p : Nat) : Decidable (w.CanCall p) := inferInstanceAs (Decidable (_ ∧ _))

/-- The buffers that a call has returned. -/
def Obtained (w : BufWorld) (i : Nat) : Prop :=
  i < BUFFER_NUM ∧ (w.layer.bufCache i).sleeplock.isSome

instance (w : BufWorld) (i : Nat) : Decidable (w.Obtained i) := inferInstanceAs (Decidable (_ ∧ _))

/-- What follows a call of `read` or `allocBuffer`. -/
def afterCall (w : BufWorld) (p : Nat) (dev : Int32) : Res Buffers Nat → Option BufWorld
  | .ok i s => some { w with layer := s, device := Function.update w.device i dev }
  | .fault .diverge s => some { w with layer := s, asleep := insert p w.asleep }
  | .fault _ _ => none

end BufWorld

def bufStep (w : BufWorld) : BufAction → Option BufWorld
  | .read p dev blockno =>
    if w.CanCall p then w.afterCall p dev (BufferLayer.read p dev blockno w.layer) else none
  | .allocBuffer p dev blockno =>
    if w.CanCall p then w.afterCall p dev (BufferLayer.allocBuffer p dev blockno w.layer) else none
  | .write i =>
    if w.Obtained i then
      match BufferLayer.write i w.layer with
      | .ok _ s =>
        let blockno := (w.layer.bufCache i).blockno
        some { w with
          layer := s
          lastWritten := Function.update w.lastWritten (w.device i)
            (Function.update (w.lastWritten (w.device i)) blockno (w.layer.bufCache i).data) }
      | .fault _ _ => none
    else none
  | .freeBuffer i =>
    match BufferLayer.freeBuffer i w.layer with
    | .ok _ s => some { w with layer := s }
    | .fault _ _ => none
  | .edit i data =>
    if w.Obtained i then
      some { w with layer := { w.layer with
        bufCache := Function.update w.layer.bufCache i
          { w.layer.bufCache i with data := data } } }
    else none
  | .tick => some { w with layer := { w.layer with ticks := w.layer.ticks + 1 } }

namespace Buffers

def Referenced (s : Buffers) (i : Nat) : Prop := i < BUFFER_NUM ∧ (s.bufCache i).refcnt ≠ 0

/-- A referenced buffer is for the block. -/
def Caches (s : Buffers) (blockno : Int32) : Prop :=
  ∃ i, s.Referenced i ∧ (s.bufCache i).blockno = blockno

/-- With the block no more than `BUFFER_NUM` are referenced. -/
def Room (s : Buffers) (blockno : Int32) : Prop :=
  s.Caches blockno ∨ ∃ i < BUFFER_NUM, (s.bufCache i).refcnt = 0

/-- At most one buffer with valid data is for a block of a device. -/
def OneEach (s : Buffers) : Prop :=
  ∀ i j, i < BUFFER_NUM → j < BUFFER_NUM → (s.bufCache i).valid → (s.bufCache j).valid →
    (s.bufCache i).dev = (s.bufCache j).dev → (s.bufCache i).blockno = (s.bufCache j).blockno →
    i = j

/-- No referenced buffer goes to another block. -/
def KeepsAssigned (s t : Buffers) : Prop :=
  ∀ i, s.Referenced i → (t.bufCache i).dev = (s.bufCache i).dev ∧
    (t.bufCache i).blockno = (s.bufCache i).blockno

end Buffers

/-- `read` returns a buffer with what was last written to the block of the device. -/
def BufWorld.ReadsLastWritten (w : BufWorld) (p : Nat) (dev blockno : Int32) : Prop :=
  ∃ i s, BufferLayer.read p dev blockno w.layer = .ok i s ∧
    (s.bufCache i).data = w.lastWritten dev blockno

/-! ## The scan -/

namespace BufferLayer

variable {cache : Nat → Buf} {blockno : Int32} {i : Nat} {l l' : List Nat}

/-- The first buffer with the block is the one that is found. -/
theorem scan_hit (hl : ∀ j ∈ l, (cache j).blockno ≠ blockno) (hi : (cache i).blockno = blockno)
    (e : Option Nat) : scan cache blockno (l ++ i :: l') e = .inl i := by
  induction l generalizing e with
  | nil => simp [scan, hi]
  | cons j l ih =>
    rw [List.cons_append, scan, if_neg (hl j List.mem_cons_self)]
    exact ih (fun k hk => hl k (List.mem_cons_of_mem _ hk)) _

/-- Without the block a scan of referenced buffers changes nothing. -/
theorem scan_referenced (hl : ∀ j ∈ l, (cache j).blockno ≠ blockno ∧ (cache j).refcnt ≠ 0)
    (e : Option Nat) : scan cache blockno (l ++ l') e = scan cache blockno l' e := by
  induction l with
  | nil => rfl
  | cons j l ih =>
    obtain ⟨hb, hr⟩ := hl j List.mem_cons_self
    rw [List.cons_append, scan, if_neg hb, if_neg fun h => hr h.1]
    exact ih fun k hk => hl k (List.mem_cons_of_mem _ hk)

/-- The first free buffer is the first `earliest`. -/
theorem scan_free (hb : (cache i).blockno ≠ blockno) (hi : (cache i).refcnt = 0) :
    scan cache blockno (i :: l) none = scan cache blockno l (some i) := by
  have hearlier : (cache i).refcnt = 0 ∧ Earlier cache i none := ⟨hi, trivial⟩
  simp only [scan, if_neg hb, if_pos hearlier]

/-- Without the block a scan keeps `earliest` where no free buffer was used before it. -/
theorem scan_earliest (hl : ∀ j ∈ l, (cache j).blockno ≠ blockno ∧
    ((cache j).refcnt = 0 → (cache i).lastUseTick ≤ (cache j).lastUseTick)) :
    scan cache blockno l (some i) = .inr (some i) := by
  induction l with
  | nil => rfl
  | cons j l ih =>
    obtain ⟨hb, hr⟩ := hl j List.mem_cons_self
    have hkeep : ¬ ((cache j).refcnt = 0 ∧ Earlier cache j (some i)) :=
      fun h => absurd h.2 (UInt64.not_lt.mpr (hr h.1))
    rw [scan, if_neg hb, if_neg hkeep]
    exact ih fun k hk => hl k (List.mem_cons_of_mem _ hk)

end BufferLayer

theorem range_split {i n : Nat} (h : i < n) :
    List.range n = List.range i ++ i :: (List.range' (i + 1) (n - i - 1)) := by
  have hn : n = i + ((n - i - 1) + 1) := by omega
  conv_lhs => rw [hn]
  rw [List.range_eq_range', List.range_eq_range', ← List.range'_append_1, Nat.zero_add,
    List.range'_succ]

/-! ## The invariant -/

/-- A buffer is as it was before the first call, or referenced for good: its lock stays taken, and
the calls that wait for it are the only other references. -/
structure BufInv (w : BufWorld) : Prop where
  sleepers : w.asleep ⊆ Finset.range NPROC
  fresh : ∀ i < BUFFER_NUM, (w.layer.bufCache i).refcnt = 0 → w.layer.bufCache i = Buf.zero
  locked : ∀ i, w.layer.Referenced i → (w.layer.bufCache i).sleeplock.isSome
  refs : ∀ i, (w.layer.bufCache i).refcnt.toNat ≤ 1 + w.asleep.card
  inOrder : ∀ i j, i < j → w.layer.Referenced j → w.layer.Referenced i
  distinct : ∀ i j, w.layer.Referenced i → w.layer.Referenced j →
    (w.layer.bufCache i).blockno = (w.layer.bufCache j).blockno → i = j
  unwritten : ∀ dev blockno, ¬ w.layer.Caches blockno →
    w.lastWritten dev blockno = w.layer.disk blockno

theorem bufInv_start {w : BufWorld} (h : BufStart w) : BufInv w := by
  have hnone : ∀ i, ¬ w.layer.Referenced i := by
    intro i hi
    refine hi.2 ?_
    rw [h.cache]
    rfl
  have hrefs : ∀ i, (w.layer.bufCache i).refcnt.toNat ≤ 1 + w.asleep.card := by
    intro i
    rw [h.cache]
    exact Nat.zero_le _
  exact ⟨by simp [h.asleep], fun i _ _ => h.cache i, fun i hi => absurd hi (hnone i), hrefs,
    fun i j _ hj => absurd hj (hnone j), fun i j hi => absurd hi (hnone i),
    fun dev blockno _ => h.written dev blockno⟩

/-! ## What a call does -/

/-- `s` with another buffer `i`. -/
def Buffers.set (s : Buffers) (i : Nat) (b : Buf) : Buffers :=
  { s with bufCache := Function.update s.bufCache i b }

namespace Buffers
variable (s : Buffers) (i : Nat) (b : Buf)

@[simp] theorem set_self : (s.set i b).bufCache i = b := Function.update_self ..

theorem set_ne {j : Nat} (h : j ≠ i) : (s.set i b).bufCache j = s.bufCache j :=
  Function.update_of_ne h ..

@[simp] theorem set_disk : (s.set i b).disk = s.disk := rfl

@[simp] theorem set_ticks : (s.set i b).ticks = s.ticks := rfl

@[simp] theorem set_set (c : Buf) : (s.set i b).set i c = s.set i c := by
  simp [set]

/-- The call waits for a buffer that is referenced for the block. -/
structure Slept (s : Buffers) (blockno : Int32) (i : Nat) (t : Buffers) : Prop where
  referenced : s.Referenced i
  block : (s.bufCache i).blockno = blockno
  after : ∃ tick, t = s.set i
    { s.bufCache i with refcnt := (s.bufCache i).refcnt + 1, lastUseTick := tick }

/-- The call returns the first free buffer, now for the block. -/
structure Took (s : Buffers) (blockno : Int32) (i : Nat) (t : Buffers) : Prop where
  lt : i < BUFFER_NUM
  free : (s.bufCache i).refcnt = 0
  before : ∀ j < i, s.Referenced j
  uncached : ¬ s.Caches blockno
  after : ∃ b : Buf, t = s.set i b ∧ b.refcnt = 1 ∧ b.blockno = blockno ∧ b.sleeplock.isSome

end Buffers

namespace BufferLayer

@[simp] theorem setBuf_apply (i : Nat) (f : Buf → Buf) (s : Buffers) :
    setBuf i f s = .ok () (s.set i (f (s.bufCache i))) := rfl

theorem diskRead_apply (i : Nat) (s : Buffers) : diskRead i s = .ok () (s.set i
    { s.bufCache i with data := s.disk (s.bufCache i).blockno }) := rfl

theorem acquiresleep_free {s : Buffers} {i : Nat} (h : (s.bufCache i).sleeplock = none) (p : Nat) :
    acquiresleep p i s = .ok () (s.set i { s.bufCache i with sleeplock := some p }) := by
  unfold acquiresleep
  rw [read_bind, h]
  rfl

theorem acquiresleep_taken {s : Buffers} {i : Nat} (h : (s.bufCache i).sleeplock.isSome) (p : Nat) :
    acquiresleep p i s = .fault .diverge s := by
  obtain ⟨q, hq⟩ := Option.isSome_iff_exists.mp h
  unfold acquiresleep
  rw [read_bind, hq]
  rfl

end BufferLayer

section Calls
variable {w : BufWorld} {blockno : Int32}

/-- A block that is referenced is found, and the call waits for its lock. -/
theorem BufInv.allocBuffer_slept (hw : BufInv w) {i : Nat} (hi : w.layer.Referenced i)
    (hb : (w.layer.bufCache i).blockno = blockno) (p : Nat) (dev : Int32) :
    ∃ t, BufferLayer.allocBuffer p dev blockno w.layer = .fault .diverge t ∧
      w.layer.Slept blockno i t := by
  have hbefore : ∀ j ∈ List.range i, (w.layer.bufCache j).blockno ≠ blockno := by
    intro j hj heq
    have hlt : j < i := List.mem_range.mp hj
    have := hw.distinct j i (hw.inOrder j i hlt hi) hi (heq.trans hb.symm)
    omega
  refine ⟨_, ?_, hi, hb, w.layer.ticks.toUInt64, rfl⟩
  unfold BufferLayer.allocBuffer
  rw [read_bind, range_split hi.1, BufferLayer.scan_hit hbefore hb]
  dsimp only
  rw [bind_ok (BufferLayer.setBuf_apply ..), bind_fault (BufferLayer.acquiresleep_taken ?_ p)]
  simpa using hw.locked i hi

/-- A block that is not referenced goes to the first free buffer. -/
theorem BufInv.allocBuffer_took (hw : BufInv w) (hb : ¬ w.layer.Caches blockno) {i : Nat}
    (hi : i < BUFFER_NUM) (hfree : (w.layer.bufCache i).refcnt = 0)
    (hbefore : ∀ j < i, w.layer.Referenced j) (p : Nat) (dev : Int32) :
    ∃ b : Buf, BufferLayer.allocBuffer p dev blockno w.layer = .ok i (w.layer.set i b) ∧
      b.valid = false ∧ b.refcnt = 1 ∧ b.blockno = blockno ∧ b.sleeplock = some p := by
  have hzero : w.layer.bufCache i = Buf.zero := hw.fresh i hi hfree
  have hpast : ∀ j ∈ List.range i, (w.layer.bufCache j).blockno ≠ blockno ∧
      (w.layer.bufCache j).refcnt ≠ 0 := by
    intro j hj
    have href := hbefore j (List.mem_range.mp hj)
    exact ⟨fun heq => hb ⟨j, href, heq⟩, href.2⟩
  unfold BufferLayer.allocBuffer
  rw [read_bind, range_split hi]
  by_cases h0 : blockno = 0
  · -- the block number of a buffer that was never used is taken for a hit
    have hhit : (w.layer.bufCache i).blockno = blockno := by
      rw [hzero, h0]
      rfl
    rw [BufferLayer.scan_hit (fun j hj => (hpast j hj).1) hhit]
    dsimp only
    rw [bind_ok (BufferLayer.setBuf_apply ..), bind_ok (BufferLayer.acquiresleep_free ?_ p)]
    · exact ⟨_, by rw [Buffers.set_set]; rfl, by simp [hzero, Buf.zero, h0]⟩
    · simp [hzero, Buf.zero]
  · have hmiss : ∀ j < BUFFER_NUM, (w.layer.bufCache j).blockno ≠ blockno := by
      intro j hj heq
      by_cases hr : (w.layer.bufCache j).refcnt = 0
      · rw [hw.fresh j hj hr] at heq
        exact h0 heq.symm
      · exact hb ⟨j, ⟨hj, hr⟩, heq⟩
    have hrest : ∀ j ∈ List.range' (i + 1) (BUFFER_NUM - i - 1),
        (w.layer.bufCache j).blockno ≠ blockno ∧ ((w.layer.bufCache j).refcnt = 0 →
          (w.layer.bufCache i).lastUseTick ≤ (w.layer.bufCache j).lastUseTick) := by
      intro j hj
      have hlt : j < BUFFER_NUM := by
        have := (List.mem_range'_1.mp hj).2
        omega
      refine ⟨hmiss j hlt, fun hr => ?_⟩
      rw [hzero, hw.fresh j hlt hr]
      exact UInt64.le_refl _
    have hscan : BufferLayer.scan w.layer.bufCache blockno
        (List.range i ++ i :: List.range' (i + 1) (BUFFER_NUM - i - 1)) none
          = .inr (some i) := by
      rw [BufferLayer.scan_referenced hpast, BufferLayer.scan_free (hmiss i hi) hfree]
      exact BufferLayer.scan_earliest hrest
    rw [hscan]
    dsimp only
    rw [bind_ok (BufferLayer.setBuf_apply ..), bind_ok (BufferLayer.acquiresleep_free ?_ p)]
    · exact ⟨_, by rw [Buffers.set_set]; rfl, by simp⟩
    · simp [hzero, Buf.zero]

/-- A call returns a buffer for the block, waits for the one that has it, or finds none. -/
def CallCases (s : Buffers) (blockno : Int32) (r : Res Buffers Nat) : Prop :=
  (∃ i t, r = .fault .diverge t ∧ s.Slept blockno i t) ∨
    (∃ i t, r = .ok i t ∧ s.Took blockno i t) ∨ ∃ t, r = .fault (.panic "alloc buf") t

/-- All buffers are referenced, or there is a first that is not. -/
theorem Buffers.first_free (s : Buffers) : (∀ j < BUFFER_NUM, s.Referenced j) ∨
    ∃ i < BUFFER_NUM, (s.bufCache i).refcnt = 0 ∧ ∀ j < i, s.Referenced j := by
  classical
  by_cases hall : ∀ j < BUFFER_NUM, s.Referenced j
  · exact .inl hall
  · have hex : ∃ j, j < BUFFER_NUM ∧ ¬ s.Referenced j := by
      push Not at hall
      exact hall
    obtain ⟨hlt, hfree⟩ := Nat.find_spec hex
    refine .inr ⟨Nat.find hex, hlt, ?_, fun j hj => ?_⟩
    · by_contra hr
      exact hfree ⟨hlt, hr⟩
    · by_contra hr
      exact Nat.find_min hex hj ⟨by omega, hr⟩

theorem allocBuffer_panics {s : Buffers} (hb : ¬ s.Caches blockno)
    (hall : ∀ j < BUFFER_NUM, s.Referenced j) (p : Nat) (dev : Int32) :
    BufferLayer.allocBuffer p dev blockno s = .fault (.panic "alloc buf") s := by
  have hpast : ∀ j ∈ List.range BUFFER_NUM, (s.bufCache j).blockno ≠ blockno ∧
      (s.bufCache j).refcnt ≠ 0 := by
    intro j hj
    have href := hall j (List.mem_range.mp hj)
    exact ⟨fun heq => hb ⟨j, href, heq⟩, href.2⟩
  have hscan : BufferLayer.scan s.bufCache blockno (List.range BUFFER_NUM ++ []) none
      = .inr none := by
    rw [BufferLayer.scan_referenced hpast]
    rfl
  unfold BufferLayer.allocBuffer
  rw [read_bind, ← List.append_nil (List.range BUFFER_NUM), hscan]
  rfl

theorem BufInv.allocBuffer_cases (hw : BufInv w) (p : Nat) (dev blockno : Int32) :
    CallCases w.layer blockno (BufferLayer.allocBuffer p dev blockno w.layer) := by
  by_cases hb : w.layer.Caches blockno
  · obtain ⟨i, hi, heq⟩ := hb
    obtain ⟨t, ht⟩ := hw.allocBuffer_slept hi heq p dev
    exact .inl ⟨i, t, ht⟩
  · obtain hall | ⟨i, hi, hfree, hbefore⟩ := w.layer.first_free
    · exact .inr (.inr ⟨_, allocBuffer_panics hb hall p dev⟩)
    · obtain ⟨b, hrun, -, hr, hbl, hs⟩ := hw.allocBuffer_took hb hi hfree hbefore p dev
      exact .inr (.inl ⟨i, _, hrun, hi, hfree, hbefore, hb, b, rfl, hr, hbl, by simp [hs]⟩)

/-- A buffer that `read` takes has the data of the block on the disk. -/
theorem BufInv.read_took (hw : BufInv w) (hb : ¬ w.layer.Caches blockno) {i : Nat}
    (hi : i < BUFFER_NUM) (hfree : (w.layer.bufCache i).refcnt = 0)
    (hbefore : ∀ j < i, w.layer.Referenced j) (p : Nat) (dev : Int32) :
    ∃ b : Buf, BufferLayer.read p dev blockno w.layer = .ok i (w.layer.set i b) ∧
      b.data = w.layer.disk blockno ∧ b.refcnt = 1 ∧ b.blockno = blockno ∧
      b.sleeplock.isSome := by
  obtain ⟨b, hrun, hv, hr, hbl, hs⟩ := hw.allocBuffer_took hb hi hfree hbefore p dev
  refine ⟨{ b with data := w.layer.disk blockno, valid := true }, ?_, rfl, hr, hbl, by simp [hs]⟩
  unfold BufferLayer.read
  rw [bind_ok hrun, read_bind]
  simp only [Buffers.set_self, hv, Bool.not_false, if_true]
  rw [bind_ok (BufferLayer.diskRead_apply ..), bind_ok (BufferLayer.setBuf_apply ..)]
  simp [hbl]

theorem BufInv.read_slept (hw : BufInv w) {i : Nat} (hi : w.layer.Referenced i)
    (hb : (w.layer.bufCache i).blockno = blockno) (p : Nat) (dev : Int32) :
    ∃ t, BufferLayer.read p dev blockno w.layer = .fault .diverge t ∧
      w.layer.Slept blockno i t := by
  obtain ⟨t, hrun, ht⟩ := hw.allocBuffer_slept hi hb p dev
  exact ⟨t, bind_fault hrun _, ht⟩

theorem BufInv.read_cases (hw : BufInv w) (p : Nat) (dev blockno : Int32) :
    CallCases w.layer blockno (BufferLayer.read p dev blockno w.layer) := by
  by_cases hb : w.layer.Caches blockno
  · obtain ⟨i, hi, heq⟩ := hb
    obtain ⟨t, ht⟩ := hw.read_slept hi heq p dev
    exact .inl ⟨i, t, ht⟩
  · obtain hall | ⟨i, hi, hfree, hbefore⟩ := w.layer.first_free
    · exact .inr (.inr ⟨_, bind_fault (allocBuffer_panics hb hall p dev) _⟩)
    · obtain ⟨b, hrun, -, hr, hbl, hs⟩ := hw.read_took hb hi hfree hbefore p dev
      exact .inr (.inl ⟨i, _, hrun, hi, hfree, hbefore, hb, b, rfl, hr, hbl, hs⟩)

end Calls

/-! ## The steps -/

/-- What a step can do. -/
inductive BufChange (w : BufWorld) : BufWorld → Prop where
  | slept {p i : Nat} {blockno : Int32} {t : Buffers} (hp : w.CanCall p)
      (ht : w.layer.Slept blockno i t) :
      BufChange w { w with layer := t, asleep := insert p w.asleep }
  | took {i : Nat} {dev blockno : Int32} {t : Buffers} (ht : w.layer.Took blockno i t) :
      BufChange w { w with layer := t, device := Function.update w.device i dev }
  | write {i : Nat} (hi : w.Obtained i) :
      BufChange w { w with
        layer := { w.layer with
          disk := Function.update w.layer.disk (w.layer.bufCache i).blockno
            (w.layer.bufCache i).data }
        lastWritten := Function.update w.lastWritten (w.device i)
          (Function.update (w.lastWritten (w.device i)) (w.layer.bufCache i).blockno
            (w.layer.bufCache i).data) }
  | edit {i : Nat} (data : BufData) (hi : w.Obtained i) :
      BufChange w { w with layer := w.layer.set i { w.layer.bufCache i with data := data } }
  | tick : BufChange w { w with layer := { w.layer with ticks := w.layer.ticks + 1 } }

theorem afterCall_change {w w' : BufWorld} {p : Nat} {dev blockno : Int32} {r : Res Buffers Nat}
    (hp : w.CanCall p) (hr : CallCases w.layer blockno r) (h : w.afterCall p dev r = some w') :
    BufChange w w' := by
  obtain ⟨i, t, rfl, ht⟩ | ⟨i, t, rfl, ht⟩ | ⟨t, rfl⟩ := hr
  · cases h
    exact .slept hp ht
  · cases h
    exact .took ht
  · cases h

theorem BufInv.change {w w' : BufWorld} (hw : BufInv w) {a : BufAction}
    (h : bufStep w a = some w') : BufChange w w' := by
  cases a with
  | read p dev blockno =>
    simp only [bufStep] at h
    split at h
    case isTrue hp => exact afterCall_change hp (hw.read_cases p dev blockno) h
    case isFalse => cases h
  | allocBuffer p dev blockno =>
    simp only [bufStep] at h
    split at h
    case isTrue hp => exact afterCall_change hp (hw.allocBuffer_cases p dev blockno) h
    case isFalse => cases h
  | write i =>
    simp only [bufStep] at h
    split at h
    case isTrue hi =>
      cases h
      exact .write hi
    case isFalse => cases h
  | freeBuffer i => cases h
  | edit i data =>
    simp only [bufStep] at h
    split at h
    case isTrue hi =>
      cases h
      exact .edit data hi
    case isFalse => cases h
  | tick =>
    cases h
    exact .tick

namespace Buffers
variable {s t : Buffers} {blockno : Int32} {i j : Nat}

theorem Slept.other (ht : s.Slept blockno i t) (hj : j ≠ i) : t.bufCache j = s.bufCache j := by
  obtain ⟨tick, rfl⟩ := ht.after
  exact set_ne s i _ hj

/-- A call that waits changes the count and the tick of the buffer alone. -/
theorem Slept.same (ht : s.Slept blockno i t) (j : Nat) :
    (t.bufCache j).dev = (s.bufCache j).dev ∧ (t.bufCache j).blockno = (s.bufCache j).blockno ∧
      (t.bufCache j).sleeplock = (s.bufCache j).sleeplock := by
  by_cases hj : j = i
  · obtain ⟨tick, rfl⟩ := ht.after
    subst hj
    simp
  · rw [ht.other hj]
    exact ⟨rfl, rfl, rfl⟩

theorem Slept.disk (ht : s.Slept blockno i t) : t.disk = s.disk := by
  obtain ⟨tick, rfl⟩ := ht.after
  rfl

theorem Took.other (ht : s.Took blockno i t) (hj : j ≠ i) : t.bufCache j = s.bufCache j := by
  obtain ⟨b, rfl, -⟩ := ht.after
  exact set_ne s i b hj

theorem Took.disk (ht : s.Took blockno i t) : t.disk = s.disk := by
  obtain ⟨b, rfl, -⟩ := ht.after
  rfl

theorem Took.taken (ht : s.Took blockno i t) : (t.bufCache i).refcnt = 1 ∧
    (t.bufCache i).blockno = blockno ∧ (t.bufCache i).sleeplock.isSome := by
  obtain ⟨b, rfl, hb⟩ := ht.after
  simpa using hb

theorem Took.ne (ht : s.Took blockno i t) (hj : s.Referenced j) : j ≠ i := by
  rintro rfl
  exact hj.2 ht.free

/-- The buffer that is taken is referenced besides those that were. -/
theorem Took.referenced (ht : s.Took blockno i t) :
    t.Referenced j ↔ s.Referenced j ∨ j = i := by
  by_cases hj : j = i
  · subst hj
    have hone : (t.bufCache j).refcnt ≠ 0 := by
      rw [ht.taken.1]
      decide
    exact ⟨fun _ => .inr rfl, fun _ => ⟨ht.lt, hone⟩⟩
  · simp [Referenced, ht.other hj, hj]

end Buffers

section Steps
variable {w : BufWorld} {blockno : Int32} {i : Nat} {t : Buffers}

theorem BufInv.few_sleepers (hw : BufInv w) : w.asleep.card ≤ NPROC := by
  simpa using Finset.card_le_card hw.sleepers

theorem BufInv.slept_count (hw : BufInv w) (ht : w.layer.Slept blockno i t) :
    (t.bufCache i).refcnt.toNat = (w.layer.bufCache i).refcnt.toNat + 1 := by
  have hle := hw.refs i
  have hcard := hw.few_sleepers
  have hN : NPROC = 50 := rfl
  obtain ⟨tick, rfl⟩ := ht.after
  simp only [Buffers.set_self, UInt32.toNat_add]
  exact Nat.mod_eq_of_lt (by simp; omega)

theorem BufInv.slept_referenced (hw : BufInv w) (ht : w.layer.Slept blockno i t) {j : Nat} :
    t.Referenced j ↔ w.layer.Referenced j := by
  by_cases hj : j = i
  · subst hj
    have hpos : (t.bufCache j).refcnt ≠ 0 := by
      intro h0
      have hcount := hw.slept_count ht
      rw [h0] at hcount
      exact absurd hcount (by simp)
    exact ⟨fun _ => ht.referenced, fun h => ⟨h.1, hpos⟩⟩
  · simp [Buffers.Referenced, ht.other hj]

theorem BufInv.slept (hw : BufInv w) {p : Nat} (hp : w.CanCall p)
    (ht : w.layer.Slept blockno i t) :
    BufInv { w with layer := t, asleep := insert p w.asleep } := by
  have href : ∀ j, t.Referenced j ↔ w.layer.Referenced j := fun j => hw.slept_referenced ht
  have hcard : (insert p w.asleep).card = w.asleep.card + 1 := Finset.card_insert_of_notMem hp.2
  refine ⟨?_, fun j hj h0 => ?_, fun j hj => ?_, fun j => ?_, fun j k hlt hk => ?_,
    fun j k hj hk heq => ?_, fun dev b hb => ?_⟩
  · exact Finset.insert_subset (Finset.mem_range.mpr hp.1) hw.sleepers
  · have hne : j ≠ i := by
      rintro rfl
      exact ((href j).mpr ht.referenced).2 h0
    show t.bufCache j = Buf.zero
    rw [ht.other hne]
    exact hw.fresh j hj (by rwa [← ht.other hne])
  · show (t.bufCache j).sleeplock.isSome
    rw [(ht.same j).2.2]
    exact hw.locked j ((href j).mp hj)
  · show (t.bufCache j).refcnt.toNat ≤ 1 + (insert p w.asleep).card
    have hle := hw.refs j
    by_cases hj : j = i
    · subst hj
      have hcount := hw.slept_count ht
      omega
    · rw [ht.other hj]
      omega
  · exact (href j).mpr (hw.inOrder j k hlt ((href k).mp hk))
  · rw [(ht.same j).2.1, (ht.same k).2.1] at heq
    exact hw.distinct j k ((href j).mp hj) ((href k).mp hk) heq
  · show w.lastWritten dev b = t.disk b
    rw [ht.disk]
    refine hw.unwritten dev b fun ⟨j, hj, heq⟩ => hb ⟨j, (href j).mpr hj, ?_⟩
    exact (ht.same j).2.1.trans heq

theorem BufInv.took (hw : BufInv w) (dev : Int32) (ht : w.layer.Took blockno i t) :
    BufInv { w with layer := t, device := Function.update w.device i dev } := by
  obtain ⟨hone, hblock, hlock⟩ := ht.taken
  refine ⟨hw.sleepers, fun j hj h0 => ?_, fun j hj => ?_, fun j => ?_, fun j k hlt hk => ?_,
    fun j k hj hk heq => ?_, fun dev b hb => ?_⟩
  · have hne : j ≠ i := by
      rintro rfl
      exact absurd (hone.symm.trans h0) (by decide)
    show t.bufCache j = Buf.zero
    rw [ht.other hne]
    exact hw.fresh j hj (by rwa [← ht.other hne])
  · obtain hj | rfl := ht.referenced.mp hj
    · show (t.bufCache j).sleeplock.isSome
      rw [ht.other (ht.ne hj)]
      exact hw.locked j hj
    · exact hlock
  · show (t.bufCache j).refcnt.toNat ≤ 1 + w.asleep.card
    by_cases hj : j = i
    · subst hj
      rw [hone]
      simp
    · rw [ht.other hj]
      exact hw.refs j
  · obtain hk | rfl := ht.referenced.mp hk
    · exact ht.referenced.mpr (.inl (hw.inOrder j k hlt hk))
    · exact ht.referenced.mpr (.inl (ht.before j hlt))
  · -- no buffer had the block before
    have hnew : ∀ l, w.layer.Referenced l → (t.bufCache l).blockno ≠ blockno := by
      intro l hl heq
      rw [ht.other (ht.ne hl)] at heq
      exact ht.uncached ⟨l, hl, heq⟩
    obtain hj' | rfl := ht.referenced.mp hj
    · obtain hk' | rfl := ht.referenced.mp hk
      · rw [ht.other (ht.ne hj'), ht.other (ht.ne hk')] at heq
        exact hw.distinct j k hj' hk' heq
      · exact absurd (heq.trans hblock) (hnew j hj')
    · obtain hk' | rfl := ht.referenced.mp hk
      · exact absurd (heq.symm.trans hblock) (hnew k hk')
      · rfl
  · show w.lastWritten dev b = t.disk b
    rw [ht.disk]
    refine hw.unwritten dev b fun ⟨j, hj, heq⟩ => hb ⟨j, ht.referenced.mpr (.inl hj), ?_⟩
    show (t.bufCache j).blockno = b
    rwa [ht.other (ht.ne hj)]

/-- A change of the data of a buffer that is held leaves the invariant as it is. -/
theorem BufInv.edit (hw : BufInv w) (hi : w.Obtained i) (data : BufData) :
    BufInv { w with layer := w.layer.set i { w.layer.bufCache i with data := data } } := by
  have hsame : ∀ j, ((w.layer.set i { w.layer.bufCache i with data := data }).bufCache j).refcnt =
        (w.layer.bufCache j).refcnt ∧
      ((w.layer.set i { w.layer.bufCache i with data := data }).bufCache j).blockno =
        (w.layer.bufCache j).blockno ∧
      ((w.layer.set i { w.layer.bufCache i with data := data }).bufCache j).sleeplock =
        (w.layer.bufCache j).sleeplock := by
    intro j
    by_cases hj : j = i
    · subst hj
      simp
    · simp [Buffers.set_ne _ _ _ hj]
  have href : ∀ j, (w.layer.set i { w.layer.bufCache i with data := data }).Referenced j ↔
      w.layer.Referenced j := by
    intro j
    simp only [Buffers.Referenced, (hsame j).1]
  refine ⟨hw.sleepers, fun j hj h0 => ?_, fun j hj => ?_, fun j => ?_, fun j k hlt hk => ?_,
    fun j k hj hk heq => ?_, fun dev b hb => ?_⟩
  · have hzero := hw.fresh j hj (by rwa [← (hsame j).1])
    have hne : j ≠ i := by
      rintro rfl
      have hlock := hi.2
      rw [hzero] at hlock
      cases hlock
    exact (Buffers.set_ne _ _ _ hne).trans hzero
  · exact (congrArg Option.isSome (hsame j).2.2).trans (hw.locked j ((href j).mp hj))
  · exact (congrArg UInt32.toNat (hsame j).1).le.trans (hw.refs j)
  · exact (href j).mpr (hw.inOrder j k hlt ((href k).mp hk))
  · rw [(hsame j).2.1, (hsame k).2.1] at heq
    exact hw.distinct j k ((href j).mp hj) ((href k).mp hk) heq
  · refine hw.unwritten dev b fun ⟨j, hj, heq⟩ => hb ⟨j, (href j).mpr hj, ?_⟩
    exact (hsame j).2.1.trans heq

/-- A buffer that is held is referenced, so that a write is to a block that some buffer is for. -/
theorem BufInv.obtained (hw : BufInv w) (hi : w.Obtained i) : w.layer.Referenced i := by
  refine ⟨hi.1, fun h0 => ?_⟩
  have hlock := hi.2
  rw [hw.fresh i hi.1 h0] at hlock
  cases hlock

theorem BufInv.step {w' : BufWorld} (hw : BufInv w) {a : BufAction}
    (h : bufStep w a = some w') : BufInv w' := by
  cases hw.change h with
  | slept hp ht => exact hw.slept hp ht
  | took ht => exact hw.took _ ht
  | @write i hi =>
    refine ⟨hw.sleepers, hw.fresh, hw.locked, hw.refs, hw.inOrder, hw.distinct,
      fun dev b hb => ?_⟩
    have hne : b ≠ (w.layer.bufCache i).blockno :=
      fun heq => hb ⟨_, hw.obtained hi, heq.symm⟩
    have hold : w.lastWritten dev b = w.layer.disk b := hw.unwritten dev b hb
    show Function.update w.lastWritten _ _ dev b = Function.update w.layer.disk _ _ b
    rw [Function.update_of_ne hne, ← hold]
    by_cases hdev : dev = w.device i
    · subst hdev
      rw [Function.update_self, Function.update_of_ne hne]
    · rw [Function.update_of_ne hdev]
  | edit data hi => exact hw.edit hi data
  | tick => exact ⟨hw.sleepers, hw.fresh, hw.locked, hw.refs, hw.inOrder, hw.distinct, hw.unwritten⟩

theorem BufInv.keepsAssigned {w' : BufWorld} (hw : BufInv w) {a : BufAction}
    (h : bufStep w a = some w') : w.layer.KeepsAssigned w'.layer := by
  intro j hj
  cases hw.change h with
  | slept hp ht => exact ⟨(ht.same j).1, (ht.same j).2.1⟩
  | took ht =>
    show _ ∧ _
    rw [ht.other (ht.ne hj)]
    exact ⟨rfl, rfl⟩
  | @edit i data hi =>
    by_cases heq : j = i
    · subst heq
      simp
    · simp [Buffers.set_ne _ _ _ heq]
  | write | tick => exact ⟨rfl, rfl⟩

/-- Only a referenced buffer is valid, and no two of these are for one block. -/
theorem BufInv.oneEach (hw : BufInv w) : w.layer.OneEach := by
  have hvalid : ∀ i < BUFFER_NUM, (w.layer.bufCache i).valid → w.layer.Referenced i := by
    intro i hi hv
    refine ⟨hi, fun h0 => ?_⟩
    rw [hw.fresh i hi h0] at hv
    cases hv
  intro i j hi hj hvi hvj _ heq
  exact hw.distinct i j (hvalid i hi hvi) (hvalid j hj hvj) heq

/-- `read` returns what was last written exactly if no buffer is for the block yet. -/
theorem BufInv.reads_iff (hw : BufInv w) (hroom : w.layer.Room blockno) (p : Nat) (dev : Int32) :
    w.ReadsLastWritten p dev blockno ↔ ¬ w.layer.Caches blockno := by
  constructor
  · rintro ⟨i, s, hrun, -⟩ ⟨j, hj, heq⟩
    obtain ⟨t, hslept, -⟩ := hw.read_slept hj heq p dev
    cases hslept.symm.trans hrun
  · intro hb
    obtain hall | ⟨i, hi, hfree, hbefore⟩ := w.layer.first_free
    · obtain hc | ⟨j, hj, h0⟩ := hroom
      · exact absurd hc hb
      · exact absurd h0 (hall j hj).2
    · obtain ⟨b, hrun, hdata, -⟩ := hw.read_took hb hi hfree hbefore p dev
      exact ⟨i, _, hrun, by rw [Buffers.set_self, hdata, hw.unwritten dev blockno hb]⟩

end Steps

/-- No call yet, and a disk of zeros. -/
def zeroBuffers : BufWorld where
  layer := ⟨fun _ => Buf.zero, 0, fun _ => .replicate 512 0⟩
  asleep := ∅
  device _ := 0
  lastWritten _ _ := .replicate 512 0

theorem zeroBuffers_start : BufStart zeroBuffers := ⟨fun _ => rfl, rfl, fun _ _ => rfl⟩

theorem zeroBuffers_uncached (blockno : Int32) : ¬ zeroBuffers.layer.Caches blockno :=
  fun ⟨_, hi, _⟩ => hi.2 rfl

end PageFaultOS
