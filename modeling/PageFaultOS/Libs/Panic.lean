import Mathlib.Tactic
import PageFaultOS.Libs.Printf

/-! `panic` and `backtrace` of `libs/printf.c`. `printf` takes and gives back `pr.lock`, and a check
that fails on the way calls `panic` again: a fault of `printf` that is a panic is where that call is
made. -/

namespace PageFaultOS
open Exec Exec.Comp ByteMem

/-- What the hart finds where `panic` runs: the strings of the kernel, and `s0` in the `backtrace`
of a call of `panic` from within which that many others fit on the stack. -/
structure PanicEnv where
  h : Nat
  strings : BitVec 64 → List UInt8
  fp : Nat → BitVec 64
  /-- A bound for the loop of `backtrace`. -/
  rounds : Nat

def pgRoundDown (x : BitVec 64) : BitVec 64 := x &&& ~~~4095

def pgRoundUp (x : BitVec 64) : BitVec 64 := pgRoundDown (x + 4095)

section
variable (E : PanicEnv)

def kprintf (fmt : String) (ap : VaList) : PrintComp Unit := printf E.strings E.h (some (cstr fmt)) ap

def backtraceRound (top bottom fp : BitVec 64) : PrintComp (BitVec 64 ⊕ Unit) := do
  if fp ≠ top ∧ fp ≠ bottom then do
    let w ← read
    kprintf E "%p\n" [BitVec.ofNat 64 (readWord w.mem (fp - 8).toNat)]
    let w ← read
    pure (.inl (BitVec.ofNat 64 (readWord w.mem (fp - 16).toNat)))
  else
    pure (.inr ())

def backtrace (s0 : BitVec 64) : PrintComp Unit := do
  kprintf E "backtrace:\n" []
  loop (backtraceRound E (pgRoundUp s0) (pgRoundDown s0)) E.rounds s0

/-- `panic` up to its endless loop. -/
def panicSays (s0 : BitVec 64) (s : List UInt8) : PrintComp Unit := do
  kprintf E "panic: " []
  printf E.strings E.h (some s) []
  kprintf E "\n" []
  backtrace E s0
  modify fun w => { w with panicked := true }

/-- How a call of `panic` ends: in its loop, where the stack is used up, or in another fault. -/
inductive PanicEnd where
  | spins (w : PrintWorld)
  | overflow (w : PrintWorld)
  | stuck (f : Fault) (w : PrintWorld)

/-- `panic`, with a stack for `depth` calls. -/
def panic : (depth : Nat) → List UInt8 → PrintWorld → PanicEnd
  | 0, _, w => .overflow w
  | depth + 1, s, w =>
    match panicSays E (E.fp depth) s w with
    | .ok _ w => .spins w
    | .fault (.panic msg) w => panic depth (cstr msg) w
    | .fault f w => .stuck f w

end

/-- The return addresses that `backtrace` finds from `fp` to an end of its page. -/
inductive Frames (m : Mem) (top bottom : BitVec 64) : BitVec 64 → List (BitVec 64) → Prop where
  | stop {fp : BitVec 64} (h : ¬ (fp ≠ top ∧ fp ≠ bottom)) : Frames m top bottom fp []
  | next {fp : BitVec 64} {l : List (BitVec 64)} (h : fp ≠ top ∧ fp ≠ bottom)
      (hrest : Frames m top bottom (BitVec.ofNat 64 (readWord m (fp - 16).toNat)) l) :
      Frames m top bottom fp (BitVec.ofNat 64 (readWord m (fp - 8).toNat) :: l)

def frameLines (l : List (BitVec 64)) : List UInt8 :=
  l.flatMap fun ra => ptrText kernelDigits ra ++ cstr "\n"

/-- What `panic` writes where it comes to its loop. -/
def panicText (text : List UInt8) (l : List (BitVec 64)) : List UInt8 :=
  cstr "panic: " ++ text ++ cstr "\n" ++ cstr "backtrace:\n" ++ frameLines l

section
variable {E : PanicEnv} {w w' : PrintWorld} {h : Nat}

/-- A format without a `%` is what it says. -/
theorem render_plain (k : Conversion) {fmt : List UInt8} (hfmt : ascii '%' ∉ fmt) (ap : VaList) :
    render k (directives fmt) ap = (fmt, true) := by
  induction fmt with
  | nil => rfl
  | cons c fmt ih =>
    rw [List.mem_cons, not_or] at hfmt
    rw [directives_plain (Ne.symm hfmt.1), render, ih hfmt.2]

/-! ### The hart holds no lock -/

theorem PrintWorld.Printed.trans {text text' : List UInt8} {w'' : PrintWorld}
    (h1 : w.Printed h text w') (h2 : w'.Printed h text' w'') :
    w.Printed h (text ++ text') w'' where
  console := by rw [h2.console, h1.console, List.append_assoc]
  clear := h2.clear
  locking := h2.locking.trans h1.locking
  panicked := h2.panicked.trans h1.panicked
  mem := h2.mem.trans h1.mem

theorem kprintf_prints (hclear : w.Clear E.h) (fmt : String) (hfmt : ascii '%' ∉ cstr fmt) :
    ∃ w', kprintf E fmt [] w = .ok () w' ∧ w.Printed E.h (cstr fmt) w' :=
  printf_prints hclear (render_plain _ hfmt [])

theorem kprintf_frame (hclear : w.Clear E.h) (ra : BitVec 64) :
    ∃ w', kprintf E "%p\n" [ra] w = .ok () w' ∧
      w.Printed E.h (ptrText kernelDigits ra ++ cstr "\n") w' := by
  apply printf_prints hclear
  have hfmt : directives (cstr "%p\n") = [.conv (ascii 'p'), .plain 10] := by decide
  have hnl : cstr "\n" = [10] := by decide
  have hp : ascii 'p' ≠ ascii 'd' ∧ ascii 'p' ≠ ascii 'x' := by decide
  simp [hfmt, hnl, render, kernelConversion, takesArg, hp.1, hp.2]

/-- The frames are printed one after the other. -/
theorem backtraceLoop_prints {top bottom fp : BitVec 64} {l : List (BitVec 64)}
    (hframes : Frames w.mem top bottom fp l) (hclear : w.Clear E.h) {rounds : Nat}
    (hrounds : l.length < rounds) :
    ∃ w', loop (backtraceRound E top bottom) rounds fp w = .ok () w' ∧
      w.Printed E.h (frameLines l) w' := by
  induction rounds generalizing w fp l with
  | zero => omega
  | succ rounds ih =>
    cases hframes with
    | stop hstop =>
      refine ⟨w, ?_, by simp [frameLines], hclear, rfl, rfl, rfl⟩
      apply loop_done
      rw [backtraceRound, if_neg hstop]
      rfl
    | @next _ l hgoes hrest =>
      obtain ⟨w1, hrun, hprinted⟩ := kprintf_frame (E := E) hclear
        (BitVec.ofNat 64 (readWord w.mem (fp - 8).toNat))
      have hround : backtraceRound E top bottom fp w =
          .ok (.inl (BitVec.ofNat 64 (readWord w1.mem (fp - 16).toNat))) w1 := by
        rw [backtraceRound, if_pos hgoes, read_bind, bind_ok hrun]
        rfl
      rw [← hprinted.mem] at hrest
      obtain ⟨w2, hloop, hprinted2⟩ := ih hrest hprinted.clear (Nat.lt_of_succ_lt_succ hrounds)
      refine ⟨w2, (loop_again hround rounds).trans hloop, ?_⟩
      exact hprinted.trans hprinted2

theorem panicSays_clear {s0 : BitVec 64} {s text : List UInt8} {l : List (BitVec 64)}
    (hclear : w.Clear E.h)
    (hr : render (kernelConversion E.strings) (directives s) [] = (text, true))
    (hframes : Frames w.mem (pgRoundUp s0) (pgRoundDown s0) s0 l) (hrounds : l.length < E.rounds) :
    ∃ w', panicSays E s0 s w = .ok () w' ∧ w'.console = w.console ++ panicText text l ∧
      w'.panicked = true := by
  obtain ⟨w1, hrun1, hp1⟩ := kprintf_prints (E := E) hclear "panic: " (by decide)
  obtain ⟨w2, hrun2, hp2⟩ := printf_prints hp1.clear hr
  obtain ⟨w3, hrun3, hp3⟩ := kprintf_prints (E := E) hp2.clear "\n" (by decide)
  obtain ⟨w4, hrun4, hp4⟩ := kprintf_prints (E := E) hp3.clear "backtrace:\n" (by decide)
  have hall := ((hp1.trans hp2).trans hp3).trans hp4
  rw [← hall.mem] at hframes
  obtain ⟨w5, hrun5, hp5⟩ := backtraceLoop_prints hframes hp4.clear hrounds
  refine ⟨{ w5 with panicked := true }, ?_, ?_, rfl⟩
  · rw [panicSays, bind_ok hrun1, bind_ok hrun2, bind_ok hrun3, backtrace, bind_assoc_apply,
      bind_ok hrun4, bind_ok hrun5]
    rfl
  · exact (hall.trans hp5).console

/-! ### It holds one -/

/-- `pr.lock` is free, and the hart holds another lock. -/
theorem panicSays_busy (s0 : BitVec 64) (s : List UInt8) (hlocking : w.locking = true)
    (hfree : (w.kern.locks prLock).locked = false) (hdeep : 1 ≤ (w.kern.cpus E.h).noff)
    (hmax : (w.kern.cpus E.h).noff < intMax) :
    panicSays E s0 s w = .fault (.panic "pop_off")
      { w.write (cstr "panic: ") with kern := handedBack w.kern E.h prLock } := by
  obtain ⟨hsie, hnoff⟩ := handedBack_cpu w.kern E.h prLock
  have hprint : kprintf E "panic: " [] w = .fault (.panic "pop_off")
      { w.write (cstr "panic: ") with kern := handedBack w.kern E.h prLock } := by
    rw [kprintf, printf_locked hlocking hmax.ne hfree, render_plain _ (by decide)]
    dsimp only
    rw [if_pos rfl, onPrintKern, popOff_deep _ E.h hsie (by omega)]
  rw [panicSays, bind_fault hprint]

theorem acquire_held {σ : Kern} {l : LockId} (hheld : σ.Holds h l)
    (hmax : (σ.cpus h).noff ≠ intMax) :
    acquire h l σ = .fault (.panic "acquire") (pushed σ h) := by
  have hheld' : (pushed σ h).Holds h l := hheld
  unfold acquire acquireEnter
  rw [bind_assoc_apply, bind_ok (pushOff_eq σ h hmax)]
  simp [holding, bind_apply, hheld']

/-- `pr.lock` is the hart's own. -/
theorem panicSays_mine (s0 : BitVec 64) (s : List UInt8) (hlocking : w.locking = true)
    (hheld : w.kern.Holds E.h prLock) (hmax : (w.kern.cpus E.h).noff < intMax) :
    panicSays E s0 s w = .fault (.panic "acquire") { w with kern := pushed w.kern E.h } := by
  have hacquire : onPrintKern (acquire E.h prLock) w =
      .fault (.panic "acquire") { w with kern := pushed w.kern E.h } := by
    rw [onPrintKern, acquire_held hheld hmax.ne]
  have hprint : kprintf E "panic: " [] w =
      .fault (.panic "acquire") { w with kern := pushed w.kern E.h } := by
    rw [kprintf, printf, read_bind, if_pos hlocking, bind_fault hacquire]
  rw [panicSays, bind_fault hprint]

theorem panic_busy (hlocking : w.locking = true) (hfree : (w.kern.locks prLock).locked = false)
    (hdeep : 1 ≤ (w.kern.cpus E.h).noff) {depth : Nat}
    (hmax : (w.kern.cpus E.h).noff + depth ≤ intMax) (s : List UInt8) :
    ∃ w', panic E depth s w = .overflow w' ∧
      w'.console = w.console ++ (List.replicate depth (cstr "panic: ")).flatten := by
  induction depth generalizing w s with
  | zero => exact ⟨w, rfl, by simp⟩
  | succ depth ih =>
    obtain ⟨hsie, hnoff⟩ := handedBack_cpu w.kern E.h prLock
    push_cast at hmax
    have hsays := panicSays_busy (E.fp depth) s hlocking hfree hdeep (by omega)
    obtain ⟨w', hrest, hconsole⟩ :=
      ih (w := { w.write (cstr "panic: ") with kern := handedBack w.kern E.h prLock }) hlocking
        (by simp [handedBack]) (by dsimp only; omega) (by dsimp only; omega) (cstr "pop_off")
    refine ⟨w', ?_, ?_⟩
    · rw [panic, hsays]
      exact hrest
    · rw [hconsole, List.replicate_succ, List.flatten_cons, write_console, List.append_assoc]

theorem panic_mine (hlocking : w.locking = true) (hheld : w.kern.Holds E.h prLock) {depth : Nat}
    (hmax : (w.kern.cpus E.h).noff + depth ≤ intMax) (s : List UInt8) :
    ∃ w', panic E depth s w = .overflow w' ∧ w'.console = w.console := by
  induction depth generalizing w s with
  | zero => exact ⟨w, rfl, rfl⟩
  | succ depth ih =>
    push_cast at hmax
    have hsays := panicSays_mine (E.fp depth) s hlocking hheld (by omega)
    have hnoff : ((pushed w.kern E.h).cpus E.h).noff = (w.kern.cpus E.h).noff + 1 := by simp [pushed]
    obtain ⟨w', hrest, hconsole⟩ := ih (w := { w with kern := pushed w.kern E.h }) hlocking hheld
      (by dsimp only; omega) (cstr "acquire")
    refine ⟨w', ?_, hconsole⟩
    rw [panic, hsays]
    exact hrest

/-- The message of a panic comes out, with the frames of the stack, where the hart holds no lock.
Where it holds one, `panic: ` comes out until the stack is used up, and where that one is `pr.lock`
nothing does. -/
theorem panic_message (hlocking : w.locking = true)
    (hmine : (w.kern.locks prLock).locked = true → (w.kern.locks prLock).cpu = some E.h)
    (hnoff : 0 ≤ (w.kern.cpus E.h).noff) (depth : Nat)
    (hmax : (w.kern.cpus E.h).noff + (depth + 1 : Nat) ≤ intMax) {s text : List UInt8}
    (hr : render (kernelConversion E.strings) (directives s) [] = (text, true))
    {l : List (BitVec 64)} (hframes : Frames w.mem (pgRoundUp (E.fp depth)) (pgRoundDown (E.fp depth))
      (E.fp depth) l) (hrounds : l.length < E.rounds) :
    ∃ w', if (w.kern.locks prLock).locked = false ∧ (w.kern.cpus E.h).noff = 0 then
        panic E (depth + 1) s w = .spins w' ∧ w'.console = w.console ++ panicText text l ∧
          w'.panicked = true
      else
        panic E (depth + 1) s w = .overflow w' ∧ w'.console = w.console ++ (List.replicate
          (if (w.kern.locks prLock).locked then 0 else depth + 1) (cstr "panic: ")).flatten := by
  cases hlocked : (w.kern.locks prLock).locked with
  | true =>
    obtain ⟨w', hrun, hconsole⟩ := panic_mine hlocking ⟨hlocked, hmine hlocked⟩ hmax s
    refine ⟨w', ?_⟩
    simpa using ⟨hrun, hconsole⟩
  | false =>
    by_cases hdeep : (w.kern.cpus E.h).noff = 0
    · obtain ⟨w', hrun, hconsole, hpanicked⟩ := panicSays_clear (E := E) (w := w)
        (fun _ => ⟨hlocked, hdeep⟩) hr hframes hrounds
      refine ⟨w', ?_⟩
      rw [if_pos ⟨rfl, hdeep⟩]
      exact ⟨by rw [panic, hrun], hconsole, hpanicked⟩
    · obtain ⟨w', hrun, hconsole⟩ := panic_busy hlocking hlocked (by omega) hmax s
      refine ⟨w', ?_⟩
      rw [if_neg fun hboth => hdeep hboth.2]
      exact ⟨hrun, hconsole⟩

end

/-! ### A stack of one frame -/

def smallPanicEnv : PanicEnv where
  h := 0
  strings _ := []
  fp _ := 0x80300ff0
  rounds := 2

/-- A hart that holds `noff` locks, with the caller of `panic` at `0x80021234`. -/
def smallPanicWorld (noff : Int) : PrintWorld :=
  { smallPrintWorld noff with mem := wordsAt [(0x80300fe8, 0x80021234), (0x80300fe0, 0x80301000)] }

theorem smallPanicWorld_frames (noff : Int) : Frames (smallPanicWorld noff).mem
    (pgRoundUp 0x80300ff0) (pgRoundDown 0x80300ff0) 0x80300ff0 [0x80021234] := by
  have hra : readWord (smallPanicWorld noff).mem 0x80300fe8 = 0x80021234 :=
    readWord_wordsAt (by decide) (by decide)
  have hfp : readWord (smallPanicWorld noff).mem 0x80300fe0 = 0x80301000 :=
    readWord_wordsAt (by decide) (by decide)
  have hnext : Frames (smallPanicWorld noff).mem (pgRoundUp 0x80300ff0) (pgRoundDown 0x80300ff0)
      (BitVec.ofNat 64 (readWord (smallPanicWorld noff).mem (0x80300ff0#64 - 16).toNat)) [] := by
    show Frames _ _ _ (BitVec.ofNat 64 (readWord _ 0x80300fe0)) []
    rw [hfp]
    exact .stop (by decide)
  have hframes := Frames.next (by decide) hnext
  have hword : BitVec.ofNat 64 (readWord (smallPanicWorld noff).mem (0x80300ff0#64 - 8).toNat) =
      0x80021234 := by
    show BitVec.ofNat 64 (readWord _ 0x80300fe8) = _
    rw [hra]
    rfl
  rwa [hword] at hframes

theorem panic_message_small :
    (∃ w', panic smallPanicEnv 3 (cstr "kfree") (smallPanicWorld 0) = .spins w' ∧
      w'.console = panicText (cstr "kfree") [0x80021234]) ∧
    ∃ w', panic smallPanicEnv 3 (cstr "kfree") (smallPanicWorld 1) = .overflow w' ∧
      w'.console = cstr "panic: panic: panic: " := by
  constructor
  · obtain ⟨w', hrun⟩ := panic_message (E := smallPanicEnv) (w := smallPanicWorld 0) (s := cstr "kfree")
      rfl (fun h => by cases h) (by decide) 2 (by decide) (render_plain _ (by decide) [])
      (smallPanicWorld_frames 0) (by decide)
    rw [if_pos ⟨rfl, rfl⟩] at hrun
    exact ⟨w', hrun.1, hrun.2.1⟩
  · obtain ⟨w', hrun⟩ := panic_message (E := smallPanicEnv) (w := smallPanicWorld 1) (s := cstr "kfree")
      rfl (fun h => by cases h) (by decide) 2 (by decide) (render_plain _ (by decide) [])
      (smallPanicWorld_frames 1) (by decide)
    rw [if_neg (by decide)] at hrun
    refine ⟨w', hrun.1, hrun.2.trans ?_⟩
    decide

end PageFaultOS
