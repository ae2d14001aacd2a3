import Mathlib.Tactic
import PageFaultOS.Lib.Run
import PageFaultOS.Lib.Ring
import PageFaultOS.Mm.Riscv

/-! The console, from `console/console.cpp`. Any number of processes are inside `consoleread`,
which holds the lock but while it sleeps; the interrupt handler `consoleintr` does not take the
lock, and comes between any two steps of a reader. As for pipes a sleeper may come back at any
time, so that the call of `wakeup` needs no step. -/

namespace PageFaultOS

def INPUT_BUF : Nat := 128

def backspace : UInt8 := 0x08
def del : UInt8 := 0x7f
def ctrlP : UInt8 := 0x10
def carriageReturn : UInt8 := 0x0d
def newline : UInt8 := 0x0a

/-- The cell of `buf` that an index is for: `i % INPUT_BUF`, as C computes it. -/
def inputCell (i : Int32) : Int := (i % 128).toInt

/-- `buf` is as far as the indices go; they are `int`s. -/
structure Console where
  buf : Int → UInt8
  readIndex : Int32
  writeIndex : Int32

namespace Console

/-- `console.buf[console.read_index % INPUT_BUF]`. -/
def front (s : Console) : UInt8 := s.buf (inputCell s.readIndex)

/-- `console.read_index++`. -/
def advance (s : Console) : Console := { s with readIndex := s.readIndex + 1 }

/-- `console.buf[console.write_index++ % INPUT_BUF] = c`. -/
def store (s : Console) (c : UInt8) : Console :=
  { s with
    buf := Function.update s.buf (inputCell s.writeIndex) c
    writeIndex := s.writeIndex + 1 }

/-- `console.write_index--`. -/
def erase (s : Console) : Console := { s with writeIndex := s.writeIndex - 1 }

end Console

/-- The arguments of `consoleread` as they are now, and the `n` of the call. -/
structure InputRead where
  user : Bool
  dst : Nat
  n : Int
  expect : Int
  deriving DecidableEq

/-- Where a process is: between calls, with the result of the last, or inside one. -/
inductive ConsolePc where
  | idle (r : Int)
  | acquire (c : InputRead)
  | loop (c : InputRead)
  | wait (c : InputRead)
  | sleep (c : InputRead)
  | take (c : InputRead)
  | leave (r : Int)
  deriving DecidableEq

/-- `user p a` is the byte at user address `a` of process `p`, where it has one. `delivered` and
`typed` are ghosts: what the readers have received, and what has been typed and not erased. -/
structure ConsoleWorld where
  console : Console
  holder : Option Nat
  pc : Nat → ConsolePc
  user : Nat → Nat → Option UInt8
  kernel : Nat → UInt8
  typed : List UInt8
  delivered : List UInt8

/-- The keys that erase a character. -/
def Erases (c : UInt8) : Prop := c = backspace ∨ c = del

instance (c : UInt8) : Decidable (Erases c) := inferInstanceAs (Decidable (_ ∨ _))

/-- The character that a key stands for: `'\\r'` is none on the K210, and `'\\n'` elsewhere. -/
def keyChar (k210 : Bool) (c : UInt8) : Option UInt8 :=
  if c = ctrlP then none
  else if c = carriageReturn then if k210 then none else some newline
  else some c

/-- `consoleintr`. -/
def Console.consoleintr (s : Console) (k210 : Bool) (c : UInt8) : Console :=
  if Erases c then
    if s.readIndex ≠ s.writeIndex then s.erase else s
  else
    match keyChar k210 c with
    | none => s
    | some ch => s.store ch

/-- What a key should do to the text, of which the first `delivered` characters have been read: it
appends a character, or takes back the last one of the current line. -/
def editLine (k210 : Bool) (text : List UInt8) (delivered : Nat) (c : UInt8) : List UInt8 :=
  if Erases c then
    if delivered < text.length ∧ text.getLast? ≠ some newline then text.dropLast else text
  else text ++ (keyChar k210 c).toList

namespace ConsoleWorld

def goto (w : ConsoleWorld) (p : Nat) (pc : ConsolePc) : ConsoleWorld :=
  { w with pc := Function.update w.pc p pc }

/-- `acquire`, which waits while another process has the lock. -/
def acquire (w : ConsoleWorld) (p : Nat) (pc : ConsolePc) : Option ConsoleWorld :=
  if w.holder = none then some ({ w with holder := some p }.goto p pc) else none

def release (w : ConsoleWorld) (p : Nat) (pc : ConsolePc) : ConsoleWorld :=
  { w with holder := none }.goto p pc

/-- `either_copyout` of one byte. -/
def eitherCopyout (w : ConsoleWorld) (p : Nat) (user : Bool) (dst : Nat) (ch : UInt8) :
    Option ConsoleWorld :=
  if user then
    if (w.user p dst).isSome then
      some { w with user := Function.update w.user p (Function.update (w.user p) dst (some ch)) }
    else none
  else some { w with kernel := Function.update w.kernel dst ch }

/-- `c = console.buf[console.read_index++ % INPUT_BUF]`. -/
def take (w : ConsoleWorld) : UInt8 × ConsoleWorld :=
  (w.console.front, { w with console := w.console.advance })

/-- The next step of process `p`, if it is in `consoleread` and need not wait. -/
def run (w : ConsoleWorld) (p : Nat) : Option ConsoleWorld :=
  match w.pc p with
  | .idle _ => none
  | .acquire c => w.acquire p (.loop c)
  | .loop c =>
    if 0 < c.n then some (w.goto p (.wait c)) else some (w.goto p (.leave (c.expect - c.n)))
  | .wait c =>
    if w.console.readIndex = w.console.writeIndex then some (w.release p (.sleep c))
    else some (w.goto p (.take c))
  | .sleep c => w.acquire p (.wait c)
  | .take c =>
    match w.take.2.eitherCopyout p c.user c.dst w.take.1 with
    | none => some (w.take.2.goto p (.leave (c.expect - c.n)))
    | some w' =>
      let c' : InputRead := { c with dst := u64 (c.dst + 1), n := c.n - 1 }
      let w' := { w' with delivered := w'.delivered ++ [w.take.1] }
      if w.take.1 = newline then some (w'.goto p (.leave (c'.expect - c'.n)))
      else some (w'.goto p (.loop c'))
  | .leave r => some (w.release p (.idle r))

/-- The ghost is what should come of the key. -/
def consoleintr (w : ConsoleWorld) (k210 : Bool) (c : UInt8) : ConsoleWorld :=
  { w with
    console := w.console.consoleintr k210 c
    typed := editLine k210 w.typed w.delivered.length c }

end ConsoleWorld

/-- `user` stands for everything else that changes the memory of the processes. -/
inductive ConsoleAction where
  | consoleintr (c : UInt8)
  | consoleread (p : Nat) (user : Bool) (dst : Nat) (n : Int)
  | run (p : Nat)
  | user (u : Nat → Nat → Option UInt8)

def consoleStep (k210 : Bool) (w : ConsoleWorld) : ConsoleAction → Option ConsoleWorld
  | .consoleintr c => some (w.consoleintr k210 c)
  | .consoleread p user dst n => match w.pc p with
    | .idle _ => some (w.goto p (.acquire ⟨user, dst, n, n⟩))
    | _ => none
  | .run p => w.run p
  | .user u => some { w with user := u }

/-- The console after `consoleinit`. -/
structure ConsoleStart (w : ConsoleWorld) : Prop where
  readIndex : w.console.readIndex = 0
  writeIndex : w.console.writeIndex = 0
  free : w.holder = none
  idle : ∀ p, ∃ r, w.pc p = .idle r
  typed : w.typed = []
  delivered : w.delivered = []

/-- The characters from `read_index` to `write_index`, oldest first. -/
def Console.pending (s : Console) : List UInt8 :=
  (List.range (s.writeIndex.toInt - s.readIndex.toInt).toNat).map fun k : Nat =>
    s.buf ((s.readIndex.toInt + k).tmod INPUT_BUF)

/-! ## The buffer as a ring -/

/-- The indices have not run out of their range, and are no further apart than the buffer is
long. -/
structure Console.Within (s : Console) : Prop where
  nonneg : 0 ≤ s.readIndex.toInt
  order : s.readIndex.toInt ≤ s.writeIndex.toInt
  bounded : s.writeIndex.toInt - s.readIndex.toInt ≤ INPUT_BUF

def Console.ring (s : Console) : Ring.Buffer UInt8 :=
  ⟨s.readIndex.toInt.toNat, s.writeIndex.toInt.toNat, fun i => s.buf i⟩

private theorem console_fits : Ring.Fits (2 ^ 32) INPUT_BUF :=
  ⟨⟨2 ^ 25, by decide⟩, by decide, by decide⟩

theorem inputCell_eq {i : Int32} (h : 0 ≤ i.toInt) :
    inputCell i = (i.toInt.toNat % INPUT_BUF : Nat) := by
  have hsize : (128 : Int32).toInt = 128 := by decide
  rw [inputCell, Int32.toInt_mod, hsize, Int.tmod_eq_emod_of_nonneg h, INPUT_BUF]
  omega

theorem int32_succ {i : Int32} (h : i.toInt + 1 < 2 ^ 31) : (i + 1).toInt = i.toInt + 1 := by
  have hone : (1 : Int32).toInt = 1 := by decide
  have hlow := i.le_toInt
  rw [Int32.toInt_add, hone, Int.bmod_eq_of_le (by omega) (by omega)]

theorem int32_pred {i : Int32} (h : 0 < i.toInt) : (i - 1).toInt = i.toInt - 1 := by
  have hone : (1 : Int32).toInt = 1 := by decide
  have hhigh := i.toInt_lt
  rw [Int32.toInt_sub, hone, Int.bmod_eq_of_le (by omega) (by omega)]

section
variable {s : Console} (h : s.Within)
include h

theorem Console.Within.count : Ring.count (2 ^ 32) s.ring =
    (s.writeIndex.toInt - s.readIndex.toInt).toNat := by
  have h1 := h.nonneg
  have h2 := h.order
  have h3 := s.writeIndex.toInt_lt
  refine Ring.count_eq_of_add ?_ ?_ ?_
  · show s.readIndex.toInt.toNat < 2 ^ 32
    omega
  · omega
  · show (s.readIndex.toInt.toNat + _) % 2 ^ 32 = s.writeIndex.toInt.toNat
    rw [Nat.mod_eq_of_lt (by omega)]
    omega

theorem Console.Within.valid : Ring.Valid (2 ^ 32) INPUT_BUF s.ring := by
  have h1 := h.nonneg
  have h2 := h.order
  have h3 := s.writeIndex.toInt_lt
  have h4 := h.bounded
  refine ⟨?_, ?_, ?_⟩
  · show s.readIndex.toInt.toNat < 2 ^ 32
    omega
  · show s.writeIndex.toInt.toNat < 2 ^ 32
    omega
  · rw [h.count]
    omega

theorem Console.Within.pending_eq : s.pending = Ring.contents (2 ^ 32) INPUT_BUF s.ring := by
  have h1 := h.nonneg
  have h2 := h.order
  have h3 := s.writeIndex.toInt_lt
  unfold Console.pending Ring.contents
  rw [h.count]
  apply List.map_congr_left
  intro k hk
  have hk' := List.mem_range.mp hk
  show s.buf _ = s.buf _
  congr 1
  show (s.readIndex.toInt + k).tmod INPUT_BUF =
    ((s.readIndex.toInt.toNat + k) % 2 ^ 32 % INPUT_BUF : Nat)
  rw [Nat.mod_eq_of_lt (show s.readIndex.toInt.toNat + k < 2 ^ 32 by omega),
    Int.tmod_eq_emod_of_nonneg (by omega), INPUT_BUF]
  omega

theorem Console.Within.length : s.pending.length =
    (s.writeIndex.toInt - s.readIndex.toInt).toNat := by
  rw [h.pending_eq, Ring.contents_length, h.count]

theorem Console.Within.empty_iff : s.readIndex = s.writeIndex ↔ s.pending = [] := by
  have h2 := h.order
  rw [← List.length_eq_zero_iff, h.length, ← Int32.toInt_inj]
  omega

/-- A reader takes the oldest character. -/
theorem Console.Within.advance (hne : s.readIndex ≠ s.writeIndex) :
    s.advance.Within ∧ s.pending = s.front :: s.advance.pending := by
  have h1 := h.nonneg
  have h2 := h.order
  have h3 := s.writeIndex.toInt_lt
  have h4 := h.bounded
  have hlt : s.readIndex.toInt < s.writeIndex.toInt := by
    have := mt Int32.toInt_inj.mp hne
    omega
  have hsucc : s.advance.readIndex.toInt = s.readIndex.toInt + 1 := int32_succ (by omega)
  have hsame : s.advance.writeIndex.toInt = s.writeIndex.toInt := rfl
  have hwithin : s.advance.Within := ⟨by omega, by omega, by omega⟩
  have hring : s.advance.ring = Ring.pop (2 ^ 32) s.ring := by
    have hread : s.advance.readIndex.toInt.toNat = (s.readIndex.toInt.toNat + 1) % 2 ^ 32 := by
      omega
    rw [Console.ring, Ring.pop, hread]
    rfl
  have hsome : Ring.count (2 ^ 32) s.ring ≠ 0 := by
    rw [h.count]
    omega
  refine ⟨hwithin, ?_⟩
  rw [h.pending_eq, hwithin.pending_eq, hring, (h.valid.popped hsome).2, Console.front,
    inputCell_eq h1]
  rfl

/-- A character is stored behind the youngest. -/
theorem Console.Within.store (hroom : s.pending.length < INPUT_BUF)
    (hindex : s.writeIndex.toInt + 1 < 2 ^ 31) (c : UInt8) :
    (s.store c).Within ∧ (s.store c).pending = s.pending ++ [c] := by
  have h1 := h.nonneg
  have h2 := h.order
  rw [h.length] at hroom
  have hsucc : (s.store c).writeIndex.toInt = s.writeIndex.toInt + 1 := int32_succ hindex
  have hsame : (s.store c).readIndex.toInt = s.readIndex.toInt := rfl
  have hwithin : (s.store c).Within := ⟨by omega, by omega, by omega⟩
  have hring : (s.store c).ring = Ring.push (2 ^ 32) INPUT_BUF s.ring c := by
    have hwrite : (s.store c).writeIndex.toInt.toNat =
        (s.writeIndex.toInt.toNat + 1) % 2 ^ 32 := by omega
    have hcell : (fun i : Nat => (s.store c).buf i) =
        Function.update s.ring.cell (s.ring.nwrite % INPUT_BUF) c := by
      funext i
      show Function.update s.buf (inputCell s.writeIndex) c i =
        Function.update (fun i : Nat => s.buf i) (s.writeIndex.toInt.toNat % INPUT_BUF) c i
      rw [inputCell_eq (Int.le_trans h1 h2)]
      by_cases hi : i = s.writeIndex.toInt.toNat % INPUT_BUF
      · rw [hi, Function.update_self, Function.update_self]
      · rw [Function.update_of_ne hi, Function.update_of_ne (fun heq => hi (Int.ofNat_inj.mp heq))]
    rw [Console.ring, hwrite, hcell]
    rfl
  have hcount : Ring.count (2 ^ 32) s.ring < INPUT_BUF := by
    rw [h.count]
    exact hroom
  refine ⟨hwithin, ?_⟩
  rw [hwithin.pending_eq, hring, (h.valid.pushed console_fits hcount c).2, h.pending_eq]

/-- The youngest character is taken back. -/
theorem Console.Within.erase (hne : s.readIndex ≠ s.writeIndex) :
    s.erase.Within ∧ s.erase.pending = s.pending.dropLast := by
  have h1 := h.nonneg
  have h2 := h.order
  have h3 := s.writeIndex.toInt_lt
  have h4 := h.bounded
  have hlt : s.readIndex.toInt < s.writeIndex.toInt := by
    have := mt Int32.toInt_inj.mp hne
    omega
  have hpred : s.erase.writeIndex.toInt = s.writeIndex.toInt - 1 := int32_pred (by omega)
  have hsame : s.erase.readIndex.toInt = s.readIndex.toInt := rfl
  have hwithin : s.erase.Within := ⟨by omega, by omega, by omega⟩
  have hring : s.erase.ring = Ring.unpush (2 ^ 32) s.ring := by
    have hwrite : s.erase.writeIndex.toInt.toNat =
        (s.writeIndex.toInt.toNat + (2 ^ 32 - 1)) % 2 ^ 32 := by omega
    rw [Console.ring, Ring.unpush, hwrite]
    rfl
  have hsome : Ring.count (2 ^ 32) s.ring ≠ 0 := by
    rw [h.count]
    omega
  refine ⟨hwithin, ?_⟩
  rw [hwithin.pending_eq, hring, (h.valid.unpushed hsome).2, h.pending_eq]

end

/-! ## The invariant -/

/-- A key that leaves the text as it should be: what is typed has room, and what is erased is no
end of line, nor the character that a reader is about to take. -/
def KeySafe (k210 : Bool) (w : ConsoleWorld) (c : UInt8) : Prop :=
  if Erases c then
    w.console.pending.getLast? ≠ some newline ∧
      (w.console.pending.length = 1 → ∀ p call, w.pc p ≠ .take call)
  else
    keyChar k210 c = none ∨
      w.console.pending.length < INPUT_BUF ∧ w.console.writeIndex.toInt + 1 < 2 ^ 31

/-- The keys are safe, and a character that a reader takes is copied out. -/
def ConsoleSafe (k210 : Bool) (w : ConsoleWorld) : ConsoleAction → Prop
  | .consoleintr c => KeySafe k210 w c
  | .run p => ∀ call, w.pc p = .take call → call.user = true → (w.user p call.dst).isSome
  | _ => True

/-- Where a process is only with the lock. -/
def ConsolePc.Locked : ConsolePc → Prop
  | .idle _ | .acquire _ | .sleep _ => False
  | _ => True

/-- What the test before it has shown a reader that is about to take a character. -/
def ConsolePc.Tested (s : Console) : ConsolePc → Prop
  | .take _ => s.readIndex ≠ s.writeIndex
  | _ => True

structure ConsoleInv (w : ConsoleWorld) : Prop where
  within : w.console.Within
  text : w.delivered ++ w.console.pending = w.typed
  locked : ∀ p, (w.pc p).Locked → w.holder = some p
  tested : ∀ p, (w.pc p).Tested w.console

theorem ConsolePc.tested_of_not_locked {pc : ConsolePc} (h : ¬ pc.Locked) (s : Console) :
    pc.Tested s := by
  cases pc <;> first | trivial | exact absurd trivial h

theorem consoleInv_start {w : ConsoleWorld} (h : ConsoleStart w) : ConsoleInv w := by
  have hidle : ∀ p, ¬ (w.pc p).Locked := by
    intro p
    obtain ⟨r, hr⟩ := h.idle p
    rw [hr]
    exact id
  have hzero : (0 : Int32).toInt = 0 := by decide
  have hread : w.console.readIndex.toInt = 0 := by rw [h.readIndex, hzero]
  have hwrite : w.console.writeIndex.toInt = 0 := by rw [h.writeIndex, hzero]
  have hwithin : w.console.Within := by
    refine ⟨?_, ?_, ?_⟩
    · omega
    · omega
    · rw [hread, hwrite, INPUT_BUF]
      decide
  refine ⟨hwithin, ?_, fun p hp => absurd hp (hidle p),
    fun p => ConsolePc.tested_of_not_locked (hidle p) _⟩
  rw [h.delivered, h.typed, hwithin.empty_iff.mp (h.readIndex.trans h.writeIndex.symm)]
  rfl

/-- A step of process `p` while nobody else has the lock. -/
theorem consoleInv_of_alone {w w' : ConsoleWorld} {p : Nat}
    (hothers : ∀ q, q ≠ p → ¬ (w.pc q).Locked) (hpc : ∀ q, q ≠ p → w'.pc q = w.pc q)
    (hwithin : w'.console.Within) (htext : w'.delivered ++ w'.console.pending = w'.typed)
    (hlocked : (w'.pc p).Locked → w'.holder = some p) (htested : (w'.pc p).Tested w'.console) :
    ConsoleInv w' := by
  have hout : ∀ q, q ≠ p → ¬ (w'.pc q).Locked := by
    intro q hq
    rw [hpc q hq]
    exact hothers q hq
  refine ⟨hwithin, htext, fun q hq => ?_, fun q => ?_⟩
  · by_cases hqp : q = p
    · subst hqp
      exact hlocked hq
    · exact absurd hq (hout q hqp)
  · by_cases hqp : q = p
    · subst hqp
      exact htested
    · exact ConsolePc.tested_of_not_locked (hout q hqp) _

section Steps
variable {w w' : ConsoleWorld} {p : Nat} {pc : ConsolePc} (hI : ConsoleInv w)
include hI

theorem ConsoleInv.alone (hp : (w.pc p).Locked) : ∀ q, q ≠ p → ¬ (w.pc q).Locked := by
  intro q hq hlocked
  have h1 := hI.locked p hp
  rw [hI.locked q hlocked] at h1
  exact hq (Option.some.inj h1)

/-- On to another place inside the critical section. -/
theorem ConsoleInv.goto (hp : (w.pc p).Locked) (htested : pc.Tested w.console) :
    ConsoleInv (w.goto p pc) := by
  refine consoleInv_of_alone (hI.alone hp) (fun q hq => Function.update_of_ne hq ..) hI.within
    hI.text (fun _ => hI.locked p hp) ?_
  simp only [ConsoleWorld.goto, Function.update_self]
  exact htested

theorem ConsoleInv.release (hp : (w.pc p).Locked) (hout : ¬ pc.Locked) :
    ConsoleInv (w.release p pc) := by
  have hpc : (w.release p pc).pc p = pc := Function.update_self ..
  refine consoleInv_of_alone (hI.alone hp) (fun q hq => Function.update_of_ne hq ..) hI.within
    hI.text (fun h => ?_) ?_
  · rw [hpc] at h
    exact absurd h hout
  · rw [hpc]
    exact ConsolePc.tested_of_not_locked hout _

theorem ConsoleInv.acquire (hrun : w.acquire p pc = some w') (htested : ∀ s, pc.Tested s) :
    ConsoleInv w' := by
  unfold ConsoleWorld.acquire at hrun
  split at hrun
  · rename_i hfree
    cases hrun
    have hnone : ∀ q, q ≠ p → ¬ (w.pc q).Locked := by
      intro q _ hq
      have h1 := hI.locked q hq
      rw [hfree] at h1
      cases h1
    refine consoleInv_of_alone hnone (fun q hq => Function.update_of_ne hq ..) hI.within hI.text
      (fun _ => rfl) ?_
    simp only [ConsoleWorld.goto, Function.update_self]
    exact htested _
  · cases hrun

/-- A character that reaches its reader was the oldest. -/
theorem ConsoleInv.take {call : InputRead} (hpc : w.pc p = .take call)
    (hcopy : w.take.2.eitherCopyout p call.user call.dst w.take.1 = some w')
    (htested : ∀ s, pc.Tested s) :
    ConsoleInv ({ w' with delivered := w'.delivered ++ [w.take.1] }.goto p pc) := by
  have hp : (w.pc p).Locked := by rw [hpc]; trivial
  have hne : w.console.readIndex ≠ w.console.writeIndex := by
    have htaken := hI.tested p
    rw [hpc] at htaken
    exact htaken
  obtain ⟨hwithin, hpending⟩ := hI.within.advance hne
  have hsame : w'.console = w.console.advance ∧ w'.delivered = w.delivered ∧
      w'.typed = w.typed ∧ w'.pc = w.pc ∧ w'.holder = w.holder := by
    unfold ConsoleWorld.eitherCopyout at hcopy
    split at hcopy
    · split at hcopy
      · cases hcopy
        exact ⟨rfl, rfl, rfl, rfl, rfl⟩
      · cases hcopy
    · cases hcopy
      exact ⟨rfl, rfl, rfl, rfl, rfl⟩
  obtain ⟨hconsole, hdelivered, htyped, hpcs, hholder⟩ := hsame
  refine consoleInv_of_alone (p := p) (hI.alone hp) (fun q hq => ?_) ?_ ?_ (fun _ => ?_) ?_
  · show Function.update w'.pc p pc q = w.pc q
    rw [Function.update_of_ne hq, hpcs]
  · show w'.console.Within
    rw [hconsole]
    exact hwithin
  · show (w'.delivered ++ [w.console.front]) ++ w'.console.pending = w'.typed
    rw [hconsole, hdelivered, htyped, ← hI.text, hpending, List.append_assoc]
    rfl
  · show w'.holder = some p
    rw [hholder]
    exact hI.locked p hp
  · simp only [ConsoleWorld.goto, Function.update_self]
    exact htested _

omit hI in
/-- Where there is a character, readers may take it. -/
theorem ConsolePc.tested_of_pending {s : Console} (hs : s.Within) (hsome : s.pending ≠ [])
    (pc : ConsolePc) : pc.Tested s := by
  cases pc with
  | take call => exact fun h => hsome (hs.empty_iff.mp h)
  | _ => trivial

/-- A character is erased, or there is none. -/
theorem ConsoleInv.erase {k210 : Bool} {c : UInt8} (herases : Erases c)
    (hline : w.console.pending.getLast? ≠ some newline)
    (hreader : w.console.pending.length = 1 → ∀ p call, w.pc p ≠ .take call) :
    ConsoleInv (w.consoleintr k210 c) := by
  have htext := hI.text
  have hempty := hI.within.empty_iff
  unfold ConsoleWorld.consoleintr Console.consoleintr editLine
  simp only [if_pos herases]
  by_cases hne : w.console.readIndex ≠ w.console.writeIndex
  · obtain ⟨hwithin, hpending⟩ := hI.within.erase hne
    have hsome : w.console.pending ≠ [] := fun h => hne (hempty.mpr h)
    have hlast : w.typed.getLast? = w.console.pending.getLast? := by
      rw [← htext, List.getLast?_append_of_ne_nil _ hsome]
    have hlength : w.delivered.length < w.typed.length := by
      have hpos := List.length_pos_of_ne_nil hsome
      rw [← htext, List.length_append]
      omega
    rw [if_pos hne, if_pos ⟨hlength, hlast ▸ hline⟩]
    refine ⟨hwithin, ?_, hI.locked, fun p => ?_⟩
    · show w.delivered ++ w.console.erase.pending = w.typed.dropLast
      rw [hpending, ← htext, List.dropLast_append_of_ne_nil hsome]
    · by_cases hone : w.console.pending.length = 1
      · -- no reader is about to take the character
        show (w.pc p).Tested w.console.erase
        cases hpc : w.pc p with
        | take call => exact absurd hpc (hreader hone p call)
        | _ => trivial
      · refine ConsolePc.tested_of_pending hwithin (fun hnil => ?_) _
        have hpos := List.length_pos_of_ne_nil hsome
        have hlen := congrArg List.length (hpending.symm.trans hnil)
        rw [List.length_dropLast, List.length_nil] at hlen
        omega
  · have hnone : w.console.pending = [] := hempty.mp (not_not.mp hne)
    have hnot : ¬ (w.delivered.length < w.typed.length ∧ w.typed.getLast? ≠ some newline) := by
      rw [← htext, hnone, List.append_nil]
      exact fun h => Nat.lt_irrefl _ h.1
    rw [if_neg hne, if_neg hnot]
    exact ⟨hI.within, htext, hI.locked, hI.tested⟩

/-- A key that is pressed in between. -/
theorem ConsoleInv.key {k210 : Bool} {c : UInt8} (hok : KeySafe k210 w c) :
    ConsoleInv (w.consoleintr k210 c) := by
  unfold KeySafe at hok
  by_cases herases : Erases c
  · rw [if_pos herases] at hok
    exact hI.erase herases hok.1 hok.2
  · rw [if_neg herases] at hok
    unfold ConsoleWorld.consoleintr Console.consoleintr editLine
    simp only [if_neg herases]
    cases hchar : keyChar k210 c with
    | none =>
      refine ⟨hI.within, ?_, hI.locked, hI.tested⟩
      show w.delivered ++ w.console.pending = w.typed ++ []
      rw [hI.text, List.append_nil]
    | some ch =>
      rw [hchar] at hok
      obtain ⟨hroom, hindex⟩ := hok.resolve_left (by simp)
      obtain ⟨hwithin, hpending⟩ := hI.within.store hroom hindex ch
      refine ⟨hwithin, ?_, hI.locked, fun p => ?_⟩
      · show w.delivered ++ (w.console.store ch).pending = w.typed ++ [ch]
        rw [hpending, ← hI.text, List.append_assoc]
      · refine ConsolePc.tested_of_pending hwithin (fun hnil => ?_) _
        rw [hpending] at hnil
        simp at hnil

/-- A step of a reader. -/
theorem ConsoleInv.run {k210 : Bool} (hok : ConsoleSafe k210 w (.run p))
    (hrun : w.run p = some w') : ConsoleInv w' := by
  unfold ConsoleWorld.run at hrun
  have hp : (pc : ConsolePc) → w.pc p = pc → pc.Locked → (w.pc p).Locked := by
    intro pc hpc h
    rw [hpc]
    exact h
  cases hpc : w.pc p with
  | idle r => simp [hpc] at hrun
  | acquire call =>
    simp only [hpc] at hrun
    exact hI.acquire hrun fun _ => trivial
  | loop call =>
    have hl := hp _ hpc trivial
    simp only [hpc] at hrun
    split at hrun
    · cases hrun
      exact hI.goto hl trivial
    · cases hrun
      exact hI.goto hl trivial
  | wait call =>
    have hl := hp _ hpc trivial
    simp only [hpc] at hrun
    split at hrun
    · cases hrun
      exact hI.release hl id
    · rename_i hne
      cases hrun
      exact hI.goto hl hne
  | sleep call =>
    simp only [hpc] at hrun
    exact hI.acquire hrun fun _ => trivial
  | take call =>
    have hcopies := hok call hpc
    simp only [hpc] at hrun
    cases hcopy : w.take.2.eitherCopyout p call.user call.dst w.take.1 with
    | none =>
      have huser : w.take.2.user = w.user := rfl
      unfold ConsoleWorld.eitherCopyout at hcopy
      rw [huser] at hcopy
      split at hcopy
      · rename_i hcall
        rw [if_pos (hcopies hcall)] at hcopy
        cases hcopy
      · cases hcopy
    | some w'' =>
      rw [hcopy] at hrun
      simp only at hrun
      split at hrun
      · cases hrun
        exact hI.take hpc hcopy fun _ => trivial
      · cases hrun
        exact hI.take hpc hcopy fun _ => trivial
  | leave r =>
    have hl := hp _ hpc trivial
    simp only [hpc] at hrun
    cases hrun
    exact hI.release hl id

theorem ConsoleInv.step {k210 : Bool} {a : ConsoleAction} (hok : ConsoleSafe k210 w a)
    (hstep : consoleStep k210 w a = some w') : ConsoleInv w' := by
  cases a with
  | consoleintr c =>
    cases hstep
    exact hI.key hok
  | consoleread p user dst n =>
    unfold consoleStep at hstep
    cases hpc : w.pc p with
    | idle r =>
      simp only [hpc] at hstep
      cases hstep
      refine ⟨hI.within, hI.text, fun q hq => ?_, fun q => ?_⟩
      · by_cases hqp : q = p
        · subst hqp
          simp only [ConsoleWorld.goto, Function.update_self] at hq
          exact hq.elim
        · simp only [ConsoleWorld.goto, Function.update_of_ne hqp] at hq
          exact hI.locked q hq
      · by_cases hqp : q = p
        · subst hqp
          simp only [ConsoleWorld.goto, Function.update_self]
          trivial
        · simp only [ConsoleWorld.goto, Function.update_of_ne hqp]
          exact hI.tested q
    | _ => simp [hpc] at hstep
  | run p => exact hI.run hok hstep
  | user u =>
    cases hstep
    exact ⟨hI.within, hI.text, hI.locked, hI.tested⟩

end Steps

/-- A console that nobody reads. -/
def quietConsole : ConsoleWorld where
  console := ⟨fun _ => 0, 0, 0⟩
  holder := none
  pc _ := .idle 0
  user _ _ := none
  kernel _ := 0
  typed := []
  delivered := []

theorem quietConsole_start : ConsoleStart quietConsole :=
  ⟨rfl, rfl, rfl, fun _ => ⟨0, rfl⟩, rfl, rfl⟩

end PageFaultOS
