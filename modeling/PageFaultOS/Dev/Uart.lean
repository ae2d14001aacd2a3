import Mathlib.Tactic
import PageFaultOS.Lib.Run
import PageFaultOS.Lib.Ring

/-! The transmit buffer of `driver/uart.cpp`. Any number of processes call `uartputc` and any
number of harts `uartIntr`; only the one that has `uart_tx_lock` looks at the buffer, and a round
of `uartStart` is two steps, its tests and what follows them. As for pipes a sleeper may come back
at any time, so that the call of `wakeup` needs no step. -/

namespace PageFaultOS

def UART_TX_BUF_SIZE : Int := 32

/-- The index behind `i`, as C computes it. -/
def uartNext (i : Int) : Int := (i + 1).tmod UART_TX_BUF_SIZE

/-- `uart_tx_buf` is as far as the indices go; they are `int`s. -/
structure Uart where
  txBuf : Int → UInt8
  txW : Int
  txR : Int

/-- The `char` that an `int` is stored as. -/
def uartChar (c : BitVec 32) : UInt8 := UInt8.ofBitVec (c.setWidth 8)

namespace Uart

/-- `uart_tx_buf[uart_tx_w] = c; uart_tx_w = (uart_tx_w + 1) % UART_TX_BUF_SIZE;` -/
def store (s : Uart) (c : UInt8) : Uart :=
  { s with txBuf := Function.update s.txBuf s.txW c, txW := uartNext s.txW }

/-- `uart_tx_buf[uart_tx_r]` -/
def front (s : Uart) : UInt8 := s.txBuf s.txR

/-- `uart_tx_r = (uart_tx_r + 1) % UART_TX_BUF_SIZE;` -/
def advance (s : Uart) : Uart := { s with txR := uartNext s.txR }

/-- The bytes from `uart_tx_r` to `uart_tx_w`, oldest first. -/
def pending (s : Uart) : List UInt8 :=
  (List.range ((s.txW - s.txR) % UART_TX_BUF_SIZE).toNat).map fun k : Nat =>
    s.txBuf ((s.txR + k) % UART_TX_BUF_SIZE)

end Uart

/-- Where a caller of `uartputc` or `uartIntr` is. In `start` and `take` it is in `uartStart`,
in front of its two tests and behind them. -/
inductive UartPc where
  | idle
  | putc (c : BitVec 32)
  | test (c : BitVec 32)
  | sleep (c : BitVec 32)
  | store (c : BitVec 32)
  | intr
  | start
  | take
  | release

/-- `stored` and `thr` are ghosts: the bytes that `uartputc` has stored and those that `uartStart`
has written to `THR`. -/
structure UartWorld where
  uart : Uart
  txLock : Option Nat
  pc : Nat → UartPc
  stored : List UInt8
  thr : List UInt8

namespace UartWorld

def goto (w : UartWorld) (p : Nat) (pc : UartPc) : UartWorld :=
  { w with pc := Function.update w.pc p pc }

/-- `acquire(&uart_tx_lock)`, which waits while another caller has it. -/
def acquire (w : UartWorld) (p : Nat) (pc : UartPc) : Option UartWorld :=
  if w.txLock = none then some ({ w with txLock := some p }.goto p pc) else none

def release (w : UartWorld) (p : Nat) (pc : UartPc) : UartWorld :=
  { w with txLock := none }.goto p pc

/-- The next step of caller `p`, if it need not wait. `txIdle` is the bit `LSR_TX_IDLE` when it is
read. -/
def run (w : UartWorld) (p : Nat) (txIdle : Bool) : Option UartWorld :=
  match w.pc p with
  | .idle => none
  | .putc c => w.acquire p (.test c)
  | .test c =>
    if uartNext w.uart.txW = w.uart.txR then some (w.release p (.sleep c))
    else some (w.goto p (.store c))
  | .sleep c => w.acquire p (.test c)
  | .store c => some ({ w with
      uart := w.uart.store (uartChar c), stored := w.stored ++ [uartChar c] }.goto p .start)
  | .intr => w.acquire p .start
  | .start =>
    if w.uart.txW = w.uart.txR then some (w.goto p .release)
    else if txIdle then some (w.goto p .take)
    else some (w.goto p .release)
  | .take => some ({ w with
      uart := w.uart.advance, thr := w.thr ++ [w.uart.front] }.goto p .start)
  | .release => some (w.release p .idle)

end UartWorld

inductive UartAction where
  | uartputc (p : Nat) (c : BitVec 32)
  | uartIntr (p : Nat)
  | run (p : Nat) (txIdle : Bool)

def uartStep (w : UartWorld) : UartAction → Option UartWorld
  | .uartputc p c => match w.pc p with
    | .idle => some (w.goto p (.putc c))
    | _ => none
  | .uartIntr p => match w.pc p with
    | .idle => some (w.goto p .intr)
    | _ => none
  | .run p txIdle => w.run p txIdle

/-- The buffer after `uartInit`. -/
structure UartStart (w : UartWorld) : Prop where
  txW : w.uart.txW = 0
  txR : w.uart.txR = 0
  free : w.txLock = none
  idle : ∀ p, w.pc p = .idle
  stored : w.stored = []
  thr : w.thr = []

abbrev UartReach : UartWorld → Prop :=
  Run.Reach UartStart (fun w a w' => uartStep w a = some w') Run.anyStep

/-! ## The buffer as a ring -/

structure Uart.Within (s : Uart) : Prop where
  txW : 0 ≤ s.txW ∧ s.txW < UART_TX_BUF_SIZE
  txR : 0 ≤ s.txR ∧ s.txR < UART_TX_BUF_SIZE

/-- The counters of this ring run modulo its size. -/
def Uart.ring (s : Uart) : Ring.Buffer UInt8 := ⟨s.txR.toNat, s.txW.toNat, fun i => s.txBuf i⟩

theorem uartNext_eq {i : Int} (h : 0 ≤ i) : uartNext i = ((i.toNat + 1) % 32 : Nat) := by
  rw [uartNext, Int.tmod_eq_emod_of_nonneg (by omega), UART_TX_BUF_SIZE]
  omega

theorem uartNext_within (i : Int) (h : 0 ≤ i) : 0 ≤ uartNext i ∧ uartNext i < UART_TX_BUF_SIZE := by
  rw [uartNext_eq h, UART_TX_BUF_SIZE]
  omega

namespace Uart.Within
variable {s : Uart} (h : s.Within)
include h

theorem count : Ring.count 32 s.ring = ((s.txW - s.txR) % UART_TX_BUF_SIZE).toNat := by
  obtain ⟨⟨hw0, hw⟩, hr0, hr⟩ := h
  show (s.txW.toNat + 32 - s.txR.toNat) % 32 = _
  rw [UART_TX_BUF_SIZE] at *
  omega

theorem valid : Ring.Valid 32 32 s.ring := by
  obtain ⟨⟨hw0, hw⟩, hr0, hr⟩ := h
  rw [UART_TX_BUF_SIZE] at hw hr
  refine ⟨?_, ?_, Nat.le_of_lt (Nat.mod_lt _ (by decide))⟩
  · show s.txR.toNat < 32
    omega
  · show s.txW.toNat < 32
    omega

theorem pending_eq : s.pending = Ring.contents 32 32 s.ring := by
  have hr0 := h.txR.1
  unfold Uart.pending Ring.contents
  rw [h.count]
  apply List.map_congr_left
  intro k _
  show s.txBuf _ = s.txBuf _
  congr 1
  show (s.txR + k) % UART_TX_BUF_SIZE = ((s.txR.toNat + k) % 32 % 32 : Nat)
  rw [UART_TX_BUF_SIZE]
  omega

theorem length : s.pending.length = Ring.count 32 s.ring := by
  rw [h.pending_eq, Ring.contents_length]

theorem length_le : s.pending.length ≤ 31 := by
  rw [h.length]
  exact Nat.le_of_lt_succ (Nat.mod_lt _ (by decide))

/-- The test in `uartputc` is whether the last but one cell is taken. -/
theorem full_iff : uartNext s.txW = s.txR ↔ s.pending.length = 31 := by
  have hw0 := h.txW.1
  have hr0 := h.txR.1
  have hlast : (s.txW.toNat + 1) % 32 = s.txR.toNat ↔ Ring.count 32 s.ring + 1 = 32 :=
    h.valid.last_iff
  rw [h.length, uartNext_eq hw0]
  omega

theorem empty_iff : s.txW = s.txR ↔ s.pending = [] := by
  have hw0 := h.txW.1
  have hr0 := h.txR.1
  have hempty : s.txR.toNat = s.txW.toNat ↔ Ring.count 32 s.ring = 0 := h.valid.empty_iff
  rw [← List.length_eq_zero_iff, h.length]
  omega

theorem store (c : UInt8) (hroom : s.pending.length < 31) :
    (s.store c).Within ∧ (s.store c).pending = s.pending ++ [c] := by
  have hw0 := h.txW.1
  have hwithin : (s.store c).Within := ⟨uartNext_within s.txW hw0, h.txR⟩
  have hring : (s.store c).ring = Ring.push 32 32 s.ring c := by
    have hcell : (fun i : Nat => (s.store c).txBuf i) =
        Function.update s.ring.cell (s.ring.nwrite % 32) c := by
      funext i
      have hindex : (s.ring.nwrite % 32 : Nat) = s.txW.toNat := Nat.mod_eq_of_lt h.valid.nwrite_lt
      show Function.update s.txBuf s.txW c i = _
      rw [hindex]
      by_cases hi : i = s.txW.toNat
      · rw [hi, Function.update_self, Int.toNat_of_nonneg hw0, Function.update_self]
      · rw [Function.update_of_ne hi, Function.update_of_ne (by omega)]
        rfl
    have hwrite : (s.store c).txW.toNat = (s.txW.toNat + 1) % 32 := by
      show (uartNext s.txW).toNat = _
      rw [uartNext_eq hw0, Int.toNat_natCast]
    rw [Uart.ring, hwrite, hcell]
    rfl
  rw [h.length] at hroom
  refine ⟨hwithin, ?_⟩
  rw [hwithin.pending_eq, hring, h.pending_eq]
  exact (h.valid.pushed_of_lt (Nat.dvd_refl 32) (by omega) (by omega) c).2

theorem advance (hsome : s.pending ≠ []) :
    s.advance.Within ∧ s.pending = s.front :: s.advance.pending := by
  have hr0 := h.txR.1
  have hwithin : s.advance.Within := ⟨h.txW, uartNext_within s.txR hr0⟩
  have hring : s.advance.ring = Ring.pop 32 s.ring := by
    have hread : s.advance.txR.toNat = (s.txR.toNat + 1) % 32 := by
      show (uartNext s.txR).toNat = _
      rw [uartNext_eq hr0, Int.toNat_natCast]
    rw [Uart.ring, hread]
    rfl
  have hcount : Ring.count 32 s.ring ≠ 0 := by
    rw [← h.length]
    exact fun h0 => hsome (List.length_eq_zero_iff.mp h0)
  have hfront : s.ring.cell (s.ring.nread % 32) = s.front := by
    rw [Nat.mod_eq_of_lt h.valid.nread_lt]
    show s.txBuf (s.txR.toNat : Int) = s.txBuf s.txR
    rw [Int.toNat_of_nonneg hr0]
  refine ⟨hwithin, ?_⟩
  rw [h.pending_eq, hwithin.pending_eq, hring, ← hfront]
  exact (h.valid.popped hcount).2

end Uart.Within

/-! ## The invariant -/

/-- Here a caller has the lock. -/
def UartPc.critical : UartPc → Bool
  | .test _ | .store _ | .start | .take | .release => true
  | _ => false

/-- The caller in front of the store has seen a free cell, and the one in front of the write to
`THR` a byte; nobody else has changed the buffer since. -/
structure UartInv (w : UartWorld) : Prop where
  critical : ∀ p, (w.pc p).critical → w.txLock = some p
  within : w.uart.Within
  room : ∀ p c, w.pc p = .store c → w.uart.pending.length < 31
  ready : ∀ p, w.pc p = .take → w.uart.pending ≠ []
  order : w.stored = w.thr ++ w.uart.pending

section Steps
variable {w w' : UartWorld} {p q : Nat} {pc : UartPc}

theorem uart_goto_self : (w.goto p pc).pc p = pc := Function.update_self ..

theorem uart_goto_other (h : q ≠ p) : (w.goto p pc).pc q = w.pc q := Function.update_of_ne h ..

/-- A step of caller `p` that leaves the buffer alone. -/
theorem UartInv.move (h : UartInv w) {lock : Option Nat} (hlock : pc.critical → lock = some p)
    (hothers : ∀ q, q ≠ p → (w.pc q).critical → lock = some q)
    (hroom : ∀ c, pc = .store c → w.uart.pending.length < 31)
    (hsome : pc = .take → w.uart.pending ≠ []) :
    UartInv ({ w with txLock := lock }.goto p pc) := by
  refine ⟨fun q hq => ?_, h.within, fun q c hq => ?_, fun q hq => ?_, h.order⟩
  · by_cases hqp : q = p
    · subst hqp
      rw [uart_goto_self] at hq
      exact hlock hq
    · rw [uart_goto_other hqp] at hq
      exact hothers q hqp hq
  · by_cases hqp : q = p
    · subst hqp
      rw [uart_goto_self] at hq
      exact hroom c hq
    · rw [uart_goto_other hqp] at hq
      exact h.room q c hq
  · by_cases hqp : q = p
    · subst hqp
      rw [uart_goto_self] at hq
      exact hsome hq
    · rw [uart_goto_other hqp] at hq
      exact h.ready q hq

theorem UartInv.goto (h : UartInv w) (hpc : pc.critical → (w.pc p).critical)
    (hroom : ∀ c, pc = .store c → w.uart.pending.length < 31)
    (hsome : pc = .take → w.uart.pending ≠ []) : UartInv (w.goto p pc) :=
  h.move (fun hc => h.critical p (hpc hc)) (fun q _ hq => h.critical q hq) hroom hsome

theorem UartInv.acquire (h : UartInv w) (hroom : ∀ c, pc ≠ .store c) (hsome : pc ≠ .take)
    (hstep : w.acquire p pc = some w') : UartInv w' := by
  unfold UartWorld.acquire at hstep
  split at hstep
  case isTrue hfree =>
    cases hstep
    refine h.move (fun _ => rfl) (fun q _ hq => ?_) (fun c hc => absurd hc (hroom c))
      fun hc => absurd hc hsome
    have hheld := h.critical q hq
    rw [hfree] at hheld
    cases hheld
  case isFalse => cases hstep

/-- Only the caller that has the lock is where the buffer matters. -/
theorem UartInv.alone (h : UartInv w) (hp : (w.pc p).critical) (hq : (w.pc q).critical) :
    q = p := Option.some.inj ((h.critical q hq).symm.trans (h.critical p hp))

theorem UartInv.release (h : UartInv w) (hp : (w.pc p).critical) (hpc : pc.critical = false) :
    UartInv (w.release p pc) := by
  refine h.move (fun hc => ?_) (fun q hqp hq => absurd (h.alone hp hq) hqp) (fun c hc => ?_)
    fun hc => ?_
  · rw [hpc] at hc
    cases hc
  · rw [hc] at hpc
    cases hpc
  · rw [hc] at hpc
    cases hpc

/-- The caller that has the lock changes the buffer and goes on in `uartStart`. -/
theorem UartInv.change (h : UartInv w) (hp : (w.pc p).critical) {uart : Uart}
    {stored thr : List UInt8} (hwithin : uart.Within) (horder : stored = thr ++ uart.pending) :
    UartInv ({ w with uart := uart, stored := stored, thr := thr }.goto p .start) := by
  refine ⟨fun q hq => ?_, hwithin, fun q c hq => ?_, fun q hq => ?_, horder⟩
  · by_cases hqp : q = p
    · subst hqp
      exact h.critical q hp
    · rw [uart_goto_other hqp] at hq
      exact h.critical q hq
  · by_cases hqp : q = p
    · subst hqp
      rw [uart_goto_self] at hq
      cases hq
    · rw [uart_goto_other hqp] at hq
      have hcritical : (w.pc q).critical := by rw [show w.pc q = .store c from hq]; rfl
      exact absurd (h.alone hp hcritical) hqp
  · by_cases hqp : q = p
    · subst hqp
      rw [uart_goto_self] at hq
      cases hq
    · rw [uart_goto_other hqp] at hq
      have hcritical : (w.pc q).critical := by rw [show w.pc q = .take from hq]; rfl
      exact absurd (h.alone hp hcritical) hqp

theorem UartInv.run {txIdle : Bool} (h : UartInv w) (hstep : w.run p txIdle = some w') :
    UartInv w' := by
  unfold UartWorld.run at hstep
  cases hpc : w.pc p with
  | idle => simp [hpc] at hstep
  | putc c =>
    simp only [hpc] at hstep
    exact h.acquire (by simp) (by simp) hstep
  | test c =>
    have hp : (w.pc p).critical := by rw [hpc]; rfl
    simp only [hpc] at hstep
    split at hstep
    · cases hstep
      exact h.release hp rfl
    case isFalse hfull =>
      cases hstep
      refine h.goto (fun _ => hp) (fun _ _ => ?_) nofun
      have hle := h.within.length_le
      rw [h.within.full_iff] at hfull
      omega
  | sleep c =>
    simp only [hpc] at hstep
    exact h.acquire (by simp) (by simp) hstep
  | store c =>
    have hp : (w.pc p).critical := by rw [hpc]; rfl
    simp only [hpc] at hstep
    cases hstep
    obtain ⟨hwithin, hpending⟩ := h.within.store (uartChar c) (h.room p c hpc)
    refine h.change hp hwithin ?_
    rw [hpending, h.order, List.append_assoc]
  | intr =>
    simp only [hpc] at hstep
    exact h.acquire (by simp) (by simp) hstep
  | start =>
    have hp : (w.pc p).critical := by rw [hpc]; rfl
    simp only [hpc] at hstep
    split at hstep
    · cases hstep
      exact h.goto (fun _ => hp) nofun nofun
    case isFalse hempty =>
      split at hstep
      · cases hstep
        refine h.goto (fun _ => hp) nofun fun _ => ?_
        rwa [h.within.empty_iff] at hempty
      · cases hstep
        exact h.goto (fun _ => hp) nofun nofun
  | take =>
    have hp : (w.pc p).critical := by rw [hpc]; rfl
    simp only [hpc] at hstep
    cases hstep
    obtain ⟨hwithin, hpending⟩ := h.within.advance (h.ready p hpc)
    refine h.change hp hwithin ?_
    rw [h.order, hpending, List.append_assoc]
    rfl
  | release =>
    simp only [hpc] at hstep
    cases hstep
    exact h.release (by rw [hpc]; rfl) rfl

theorem uartInv_step {a : UartAction} (h : UartInv w) (hstep : uartStep w a = some w') :
    UartInv w' := by
  cases a with
  | uartputc p c =>
    simp only [uartStep] at hstep
    split at hstep
    · cases hstep
      exact h.goto nofun nofun nofun
    · cases hstep
  | uartIntr p =>
    simp only [uartStep] at hstep
    split at hstep
    · cases hstep
      exact h.goto nofun nofun nofun
    · cases hstep
  | run p txIdle => exact h.run hstep

theorem uartInv_start (h : UartStart w) : UartInv w := by
  have hempty : w.uart.pending = [] := by
    unfold Uart.pending
    rw [h.txW, h.txR]
    rfl
  refine ⟨fun p hp => ?_, ⟨?_, ?_⟩, fun p c hp => ?_, fun p hp => ?_, ?_⟩
  · rw [h.idle p] at hp
    cases hp
  · rw [h.txW, UART_TX_BUF_SIZE]
    decide
  · rw [h.txR, UART_TX_BUF_SIZE]
    decide
  · rw [h.idle p] at hp
    cases hp
  · rw [h.idle p] at hp
    cases hp
  · rw [h.stored, h.thr, hempty]
    rfl

end Steps

/-- What has been written to `THR` is a prefix of what has been stored, and the rest is what is in
the ring. -/
theorem uart_in_order {w : UartWorld} (h : UartReach w) :
    w.thr <+: w.stored ∧ w.stored.drop w.thr.length = w.uart.pending ∧
      w.uart.pending.length ≤ 31 ∧ (0 ≤ w.uart.txR ∧ w.uart.txR < UART_TX_BUF_SIZE) ∧
      0 ≤ w.uart.txW ∧ w.uart.txW < UART_TX_BUF_SIZE := by
  have hinv : UartInv w :=
    h.invariant (fun _ => uartInv_start) fun _ _ _ hI _ hstep => uartInv_step hI hstep
  refine ⟨⟨_, hinv.order.symm⟩, ?_, hinv.within.length_le, hinv.within.txR, hinv.within.txW⟩
  rw [hinv.order, List.drop_left]

/-- The buffer after `uartInit`, with nobody in a call. -/
def idleUart : UartWorld := ⟨⟨fun _ => 0, 0, 0⟩, none, fun _ => .idle, [], []⟩

/-- Process 1 stores two bytes, of which the second waits for the interrupt. -/
def uartActions : List UartAction :=
  [.uartputc 1 0x41, .run 1 true, .run 1 true, .run 1 true, .run 1 true, .run 1 true, .run 1 true,
    .run 1 true, .uartputc 1 0x42, .run 1 false, .run 1 false, .run 1 false, .run 1 false,
    .run 1 false]

theorem uart_in_order_two : ∃ w : UartWorld, w.stored = [0x41, 0x42] ∧ w.thr = [0x41] ∧
    (w.thr <+: w.stored ∧ w.stored.drop w.thr.length = w.uart.pending ∧
      w.uart.pending.length ≤ 31 ∧ (0 ≤ w.uart.txR ∧ w.uart.txR < UART_TX_BUF_SIZE) ∧
      0 ≤ w.uart.txW ∧ w.uart.txW < UART_TX_BUF_SIZE) := by
  have hstart : UartReach idleUart := .start ⟨rfl, rfl, rfl, fun _ => rfl, rfl, rfl⟩
  have h := hstart.runSome uartActions rfl
  exact ⟨_, rfl, rfl, uart_in_order h⟩

end PageFaultOS
