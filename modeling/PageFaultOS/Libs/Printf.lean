import Mathlib.Tactic
import PageFaultOS.Lib.ByteMem
import PageFaultOS.Lib.Numeral
import PageFaultOS.Sync.Spinlock

/-! `printf` of `libs/printf.c`, which writes to the console under `pr.lock`, and the `vprintf` of
`user/printf.c`, which writes to a descriptor, with `atoi` of `user/ulib.c`. A C string is the list of
its characters, and `ap` the list of the words that `va_arg` has still to take. -/

namespace PageFaultOS
open Exec Exec.Comp

def ascii (c : Char) : UInt8 := UInt8.ofNat c.toNat

def cstr (s : String) : List UInt8 := s.toList.map ascii

abbrev VaList := List (BitVec 64)

/-! ### What the two have in common -/

section Common
variable {σ : Type} (digits : List UInt8) (put : UInt8 → Comp σ Unit)
  (strings : BitVec 64 → List UInt8)

/-- `buf[16]` of `printint`. -/
def bufSize : Nat := 16

def digit (i : Nat) : Comp σ UInt8 :=
  match digits[i]? with
  | some d => pure d
  | none => fault (.undefined "digits[x % base]")

/-- The loop of `printint`, which has `room` cells of `buf` left. -/
def fillBuf (base : BitVec 32) : Nat → BitVec 32 → List UInt8 → Comp σ (List UInt8)
  | 0, _, _ => fault (.undefined "buf[i++]")
  | room + 1, x, buf => do
    let d ← digit digits (x % base).toNat
    if x / base = 0 then
      pure (buf ++ [d])
    else
      fillBuf base room (x / base) (buf ++ [d])

/-- `-num` wraps. -/
def printint (num base : BitVec 32) (sign : Bool) : Comp σ Unit := do
  let neg := sign && num.slt 0
  let x := if neg then -num else num
  let buf ← fillBuf digits base bufSize x []
  let buf ← if neg then
      if buf.length < bufSize then pure (buf ++ [ascii '-']) else fault (.undefined "buf[i++]")
    else
      pure buf
  forEach buf.reverse put

def printptrLoop : Nat → BitVec 64 → Comp σ Unit
  | 0, _ => pure ()
  | i + 1, x => do
    put (← digit digits (x >>> 60).toNat)
    printptrLoop i (x <<< 4)

def printptr (x : BitVec 64) : Comp σ Unit := do
  put (ascii '0')
  put (ascii 'x')
  printptrLoop digits put 16 x

/-- `va_arg`; an argument that the caller did not pass is not there. -/
def vaArg : VaList → Comp σ (BitVec 64 × VaList)
  | [] => fault (.undefined "va_arg")
  | v :: ap => pure (v, ap)

def putInt (base : BitVec 32) (sign : Bool) (ap : VaList) : Comp σ VaList := do
  let (v, ap) ← vaArg ap
  printint digits put (v.setWidth 32) base sign
  pure ap

def putPtr (ap : VaList) : Comp σ VaList := do
  let (v, ap) ← vaArg ap
  printptr digits put v
  pure ap

def putStr (ap : VaList) : Comp σ VaList := do
  let (s, ap) ← vaArg ap
  forEach (if s = 0 then cstr "(null)" else strings s) put
  pure ap

end Common

/-! ### The kernel's -/

structure PrintWorld where
  kern : Kern
  /-- `pr.locking`. -/
  locking : Bool
  /-- What went out through `sbi_console_putchar`. -/
  console : List UInt8
  panicked : Bool
  mem : ByteMem.Mem

abbrev PrintComp := Comp PrintWorld

/-- `pr.lock`. -/
def prLock : LockId := .other 2

def onPrintKern {α : Type} (x : KernComp α) : PrintComp α := fun w =>
  match x w.kern with
  | .ok a σ => .ok a { w with kern := σ }
  | .fault f σ => .fault f { w with kern := σ }

/-- The firmware puts the low byte of its argument. -/
def sbiConsolePutchar (c : BitVec 32) : PrintComp Unit :=
  modify fun w => { w with console := w.console ++ [UInt8.ofBitVec (c.setWidth 8)] }

/-- `BACKSPACE` of `console/console.cpp`. -/
def consBackspace : BitVec 32 := 0x100

def consputc (c : BitVec 32) : PrintComp Unit :=
  if c = consBackspace then do
    sbiConsolePutchar 8
    sbiConsolePutchar 32
    sbiConsolePutchar 8
  else
    sbiConsolePutchar c

def consputChar (c : UInt8) : PrintComp Unit := consputc (c.toBitVec.setWidth 32)

def kernelDigits : List UInt8 := cstr "0123456789abcdef"

section Kernel
variable (strings : BitVec 64 → List UInt8)

/-- The `switch` of `printf`. -/
def printfCase (c : UInt8) (ap : VaList) : PrintComp VaList :=
  if c = ascii 'd' then
    putInt kernelDigits consputChar 10 true ap
  else if c = ascii 'x' then
    putInt kernelDigits consputChar 16 true ap
  else if c = ascii 'p' then
    putPtr kernelDigits consputChar ap
  else if c = ascii 's' then
    putStr consputChar strings ap
  else if c = ascii '%' then do
    consputChar (ascii '%')
    pure ap
  else do
    consputChar (ascii '%')
    consputChar c
    pure ap

/-- The loop of `printf` from a character of the format on. -/
def printfLoop : List UInt8 → VaList → PrintComp Unit
  | [], _ => pure ()
  | c :: fmt, ap =>
    if c ≠ ascii '%' then do
      consputChar c
      printfLoop fmt ap
    else
      match fmt with
      | [] => pure ()
      | c :: fmt => do
        let ap ← printfCase strings c ap
        printfLoop fmt ap

/-- A null pointer has no string. -/
def printf (h : Nat) (fmt : Option (List UInt8)) (ap : VaList) : PrintComp Unit := do
  let w ← read
  if w.locking then
    onPrintKern (acquire h prLock)
  match fmt with
  | none => Comp.panic "null fmt"
  | some fmt => do
    printfLoop strings fmt ap
    if w.locking then
      onPrintKern (release h prLock)

end Kernel

/-! ### The user's -/

namespace User

/-- The calls `write(fd, &c, 1)` so far. -/
abbrev Writes := List (Int × UInt8)

abbrev WriteComp := Comp Writes

def putc (fd : Int) (c : UInt8) : WriteComp Unit := modify fun out => out ++ [(fd, c)]

def userDigits : List UInt8 := cstr "0123456789ABCDEF"

variable (strings : BitVec 64 → List UInt8) (fd : Int)

/-- What `vprintf` does with the character after a `%`. -/
def vprintfCase (c : UInt8) (ap : VaList) : WriteComp VaList :=
  if c = ascii 'd' then
    putInt userDigits (putc fd) 10 true ap
  else if c = ascii 'l' then
    putInt userDigits (putc fd) 10 false ap
  else if c = ascii 'x' then
    putInt userDigits (putc fd) 16 false ap
  else if c = ascii 'p' then
    putPtr userDigits (putc fd) ap
  else if c = ascii 's' then
    putStr (putc fd) strings ap
  else if c = ascii 'c' then do
    let (v, ap) ← vaArg ap
    putc fd (UInt8.ofBitVec (v.setWidth 8))
    pure ap
  else if c = ascii '%' then do
    putc fd c
    pure ap
  else do
    putc fd (ascii '%')
    putc fd c
    pure ap

/-- The loop of `vprintf`; `percent` says that `state` is `'%'`. -/
def vprintfLoop : List UInt8 → (percent : Bool) → VaList → WriteComp Unit
  | [], _, _ => pure ()
  | c :: fmt, false, ap =>
    if c = ascii '%' then
      vprintfLoop fmt true ap
    else do
      putc fd c
      vprintfLoop fmt false ap
  | c :: fmt, true, ap => do
    let ap ← vprintfCase strings fd c ap
    vprintfLoop fmt false ap

def vprintf (fmt : List UInt8) (ap : VaList) : WriteComp Unit :=
  vprintfLoop strings fd fmt false ap

def printf (fmt : List UInt8) (ap : VaList) : WriteComp Unit := vprintf strings 1 fmt ap

/-- The loop of `atoi`. -/
def atoiLoop : List UInt8 → BitVec 32 → BitVec 32
  | [], n => n
  | c :: s, n =>
    if ascii '0' ≤ c ∧ c ≤ ascii '9' then
      atoiLoop s (n * 10 + c.toBitVec.setWidth 32 - (ascii '0').toBitVec.setWidth 32)
    else
      n

def atoi (s : List UInt8) : BitVec 32 := atoiLoop s 0

end User

/-! ### What a format says -/

/-- A character that stands for itself, or the one after a `%`. -/
inductive Directive where
  | plain (c : UInt8)
  | conv (c : UInt8)
  deriving DecidableEq, Repr

/-- A `%` at the end of a format says nothing. -/
def directives : List UInt8 → List Directive
  | [] => []
  | c :: fmt =>
    if c ≠ ascii '%' then
      .plain c :: directives fmt
    else
      match fmt with
      | [] => []
      | c :: fmt => .conv c :: directives fmt

/-- What a conversion writes and which arguments it leaves; `none` where it misses one. -/
abbrev Conversion := UInt8 → VaList → Option (List UInt8 × VaList)

def takesArg (text : BitVec 64 → List UInt8) : VaList → Option (List UInt8 × VaList)
  | [] => none
  | v :: ap => some (text v, ap)

def digitText (digits : List UInt8) (l : List Nat) : List UInt8 := l.map fun d => digits.getD d 0

def natText (digits : List UInt8) (base n : Nat) : List UInt8 :=
  digitText digits (Numeral.numeral base n)

def intText (digits : List UInt8) (base : Nat) (n : Int) : List UInt8 :=
  if n < 0 then ascii '-' :: natText digits base n.natAbs else natText digits base n.natAbs

def ptrText (digits : List UInt8) (x : BitVec 64) : List UInt8 :=
  ascii '0' :: ascii 'x' :: digitText digits (Numeral.fixed 16 16 x.toNat)

def strText (strings : BitVec 64 → List UInt8) (s : BitVec 64) : List UInt8 :=
  if s = 0 then cstr "(null)" else strings s

/-- The conversions of the kernel: `%x` has a sign. -/
def kernelConversion (strings : BitVec 64 → List UInt8) : Conversion := fun c ap =>
  if c = ascii 'd' then takesArg (fun v => intText kernelDigits 10 (v.setWidth 32).toInt) ap
  else if c = ascii 'x' then takesArg (fun v => intText kernelDigits 16 (v.setWidth 32).toInt) ap
  else if c = ascii 'p' then takesArg (ptrText kernelDigits) ap
  else if c = ascii 's' then takesArg (strText strings) ap
  else if c = ascii '%' then some ([ascii '%'], ap)
  else some ([ascii '%', c], ap)

/-- The conversions of the user's `vprintf`: `%l` has the low half of its argument. -/
def userConversion (strings : BitVec 64 → List UInt8) : Conversion := fun c ap =>
  if c = ascii 'd' then takesArg (fun v => intText User.userDigits 10 (v.setWidth 32).toInt) ap
  else if c = ascii 'l' then takesArg (fun v => natText User.userDigits 10 (v.toNat % 2 ^ 32)) ap
  else if c = ascii 'x' then takesArg (fun v => natText User.userDigits 16 (v.toNat % 2 ^ 32)) ap
  else if c = ascii 'p' then takesArg (ptrText User.userDigits) ap
  else if c = ascii 's' then takesArg (strText strings) ap
  else if c = ascii 'c' then takesArg (fun v => [UInt8.ofBitVec (v.setWidth 8)]) ap
  else if c = ascii '%' then some ([ascii '%'], ap)
  else some ([ascii '%', c], ap)

/-- The text of the directives, up to the first one whose argument is missing, and whether there is
none. -/
def render (conversion : Conversion) : List Directive → VaList → List UInt8 × Bool
  | [], _ => ([], true)
  | .plain c :: l, ap =>
    let rest := render conversion l ap
    (c :: rest.1, rest.2)
  | .conv c :: l, ap =>
    match conversion c ap with
    | none => ([], false)
    | some (text, ap) =>
      let rest := render conversion l ap
      (text ++ rest.1, rest.2)

/-- How a call ends that writes what `render` says. -/
def rendered {σ : Type} (emit : List UInt8 → σ → σ) (r : List UInt8 × Bool) (s : σ) : Res σ Unit :=
  if r.2 then .ok () (emit r.1 s) else .fault (.undefined "va_arg") (emit r.1 s)

/-- `put` adds one character to the output that `emit` adds to. -/
structure Sink {σ : Type} (put : UInt8 → Comp σ Unit) (emit : List UInt8 → σ → σ) : Prop where
  put : ∀ c s, put c s = .ok () (emit [c] s)
  nil : ∀ s, emit [] s = s
  append : ∀ l l' s, emit l' (emit l s) = emit (l ++ l') s

/-! ### Numbers -/

section Common
variable {σ : Type} {digits : List UInt8} {put : UInt8 → Comp σ Unit}
  {emit : List UInt8 → σ → σ} {strings : BitVec 64 → List UInt8}

theorem Sink.forEach (h : Sink put emit) (l : List UInt8) (s : σ) :
    Comp.forEach l put s = .ok () (emit l s) := by
  induction l generalizing s with
  | nil => rw [h.nil]; rfl
  | cons c l ih =>
    rw [Comp.forEach, bind_ok (h.put c s), ih, h.append, List.singleton_append]

theorem digit_apply {i : Nat} (hi : i < digits.length) (s : σ) :
    digit digits i s = .ok (digits.getD i 0) s := by
  simp [digit, hi]

/-- The buffer gets the digits of the number, last one first. -/
theorem fillBuf_eq {base : BitVec 32} (hpos : 0 < base.toNat) (hlen : base.toNat ≤ digits.length)
    {room : Nat} {x : BitVec 32} {l : List Nat}
    (h : Numeral.lowDigits base.toNat room x.toNat = some l) (buf : List UInt8) (s : σ) :
    fillBuf digits base room x buf s = .ok (buf ++ digitText digits l) s := by
  induction room generalizing x l buf with
  | zero => cases h
  | succ room ih =>
    have hmod : (x % base).toNat = x.toNat % base.toNat := BitVec.toNat_umod
    have hdiv : (x / base).toNat = x.toNat / base.toNat := BitVec.toNat_udiv
    have hlt : (x % base).toNat < digits.length := by
      rw [hmod]
      exact (Nat.mod_lt _ hpos).trans_le hlen
    have hzero : x / base = 0 ↔ x.toNat / base.toNat = 0 := by
      rw [← hdiv, ← BitVec.toNat_inj]
      rfl
    rw [fillBuf, bind_ok (digit_apply hlt s)]
    unfold Numeral.lowDigits at h
    by_cases hlast : x.toNat / base.toNat = 0
    · rw [if_pos hlast] at h
      cases h
      rw [if_pos (hzero.mpr hlast), hmod]
      rfl
    · rw [if_neg hlast, ← hdiv] at h
      obtain ⟨l', hl', rfl⟩ := Option.map_eq_some_iff.mp h
      rw [if_neg (mt hzero.mp hlast), ih hl', hmod, List.append_assoc]
      rfl

theorem toNat_neg_of_slt {num : BitVec 32} (h : num.slt 0 = true) :
    (-num).toNat = num.toInt.natAbs ∧ num.toInt < 0 ∧ num.toInt.natAbs ≤ 2 ^ 31 := by
  have hneg : num.toInt < 0 := by simpa [BitVec.slt] using h
  have hint := BitVec.toInt_eq_toNat_cond num
  have hlt := num.isLt
  rw [BitVec.toNat_neg]
  split at hint <;> omega

theorem toNat_of_not_slt {num : BitVec 32} (h : num.slt 0 = false) :
    num.toNat = num.toInt.natAbs ∧ 0 ≤ num.toInt := by
  have hnonneg : 0 ≤ num.toInt := by simpa [BitVec.slt] using h
  have hint := BitVec.toInt_eq_toNat_cond num
  have hlt := num.isLt
  split at hint <;> omega

/-- Fifteen cells are enough for a number in base 5 and more. -/
theorem length_numeral_uint {b n : Nat} (hb : 5 ≤ b) (hn : n < 2 ^ 32) :
    (Numeral.numeral b n).length ≤ 15 := by
  apply Numeral.length_numeral_le (by omega)
  calc n < 2 ^ 32 := hn
    _ ≤ 5 ^ 15 := by decide
    _ ≤ b ^ 15 := Nat.pow_le_pow_left hb 15

/-- `printint` does not overrun `buf`, and writes the numeral of the number, the least one included. -/
theorem printint_text (hsink : Sink put emit) {base : BitVec 32} (hbase : 5 ≤ base.toNat)
    (hlen : base.toNat ≤ digits.length) (num : BitVec 32) (sign : Bool) (s : σ) :
    printint digits put num base sign s = .ok () (emit
      (if sign then intText digits base.toNat num.toInt else natText digits base.toNat num.toNat)
      s) := by
  have hfill : ∀ x : BitVec 32, fillBuf digits base bufSize x [] s =
      .ok (natText digits base.toNat x.toNat).reverse s := by
    intro x
    have hroom := length_numeral_uint hbase x.isLt
    have hlow : Numeral.lowDigits base.toNat bufSize x.toNat =
        some (Numeral.numeral base.toNat x.toNat).reverse :=
      Numeral.lowDigits_eq (by omega) (hroom.trans (by decide))
    rw [fillBuf_eq (by omega) hlen hlow, List.nil_append, digitText, List.map_reverse]
    rfl
  have hlength : ∀ x : BitVec 32, (natText digits base.toNat x.toNat).reverse.length < bufSize := by
    intro x
    have hroom := length_numeral_uint hbase x.isLt
    simp only [natText, digitText, List.length_reverse, List.length_map, bufSize]
    omega
  unfold printint
  cases hneg : (sign && num.slt 0) with
  | true =>
    rw [Bool.and_eq_true] at hneg
    obtain ⟨hnat, hlt, -⟩ := toNat_neg_of_slt hneg.2
    simp only [if_true]
    rw [bind_ok (hfill (-num)), if_pos (hlength (-num)), pure_bind_apply, hsink.forEach]
    simp [hneg.1, intText, hlt, hnat]
  | false =>
    simp only [Bool.false_eq_true, if_false]
    rw [bind_ok (hfill num), pure_bind_apply, hsink.forEach, List.reverse_reverse]
    cases sign with
    | true =>
      obtain ⟨hnat, hge⟩ := toNat_of_not_slt hneg
      simp [intText, Int.not_lt.mpr hge, hnat]
    | false => rfl

/-- The loop of `printptr` shifts the digits out at the top. -/
theorem printptrLoop_text (hsink : Sink put emit) (hlen : 16 ≤ digits.length) (i : Nat)
    {n : Nat} {x : BitVec 64} (hx : x.toNat = n * 16 ^ (16 - i) % 2 ^ 64) (hi : i ≤ 16) (s : σ) :
    printptrLoop digits put i x s = .ok () (emit (digitText digits (Numeral.fixed 16 i n)) s) := by
  induction i generalizing x s with
  | zero => rw [Numeral.fixed, digitText, List.map_nil, hsink.nil]; rfl
  | succ i ih =>
    have htop : (x >>> 60).toNat = n / 16 ^ i % 16 := by
      have hpow : (16 : Nat) ^ (16 - (i + 1)) * 16 ^ i = 2 ^ 60 := by
        rw [← Nat.pow_add, show 16 - (i + 1) + i = 15 by omega]
        decide
      rw [BitVec.toNat_ushiftRight, Nat.shiftRight_eq_div_pow, hx]
      have hsplit : (2 : Nat) ^ 64 = 2 ^ 60 * 16 := by decide
      rw [hsplit, Nat.mod_mul_right_div_self, ← hpow, Nat.mul_comm n,
        Nat.mul_div_mul_left _ _ (by positivity)]
    have hnext : (x <<< 4).toNat = n * 16 ^ (16 - i) % 2 ^ 64 := by
      have hpow : (16 : Nat) ^ (16 - i) = 16 ^ (16 - (i + 1)) * 2 ^ 4 := by
        rw [show 16 - i = 16 - (i + 1) + 1 by omega, Nat.pow_succ]
        norm_num
      rw [BitVec.toNat_shiftLeft, Nat.shiftLeft_eq, hx, Nat.mod_mul_mod, hpow, Nat.mul_assoc]
    have hlt : (x >>> 60).toNat < digits.length := by
      rw [htop]
      exact (Nat.mod_lt _ (by decide)).trans_le hlen
    rw [printptrLoop, bind_ok (digit_apply hlt s), bind_ok (hsink.put _ _), ih hnext (by omega),
      hsink.append, htop]
    rfl

theorem printptr_text (hsink : Sink put emit) (hlen : 16 ≤ digits.length) (x : BitVec 64) (s : σ) :
    printptr digits put x s = .ok () (emit (ptrText digits x) s) := by
  have hx : x.toNat = x.toNat * 16 ^ (16 - 16) % 2 ^ 64 := by
    rw [Nat.sub_self, Nat.pow_zero, Nat.mul_one, Nat.mod_eq_of_lt x.isLt]
  rw [printptr, bind_ok (hsink.put _ _), bind_ok (hsink.put _ _),
    printptrLoop_text hsink hlen 16 hx le_rfl, hsink.append, hsink.append]
  rfl

/-- How a conversion ends that writes what `p` says. -/
def converted (emit : List UInt8 → σ → σ) (p : Option (List UInt8 × VaList)) (s : σ) :
    Res σ VaList :=
  match p with
  | none => .fault (.undefined "va_arg") s
  | some (text, ap) => .ok ap (emit text s)

theorem putInt_text (hsink : Sink put emit) {base : BitVec 32} (hbase : 5 ≤ base.toNat)
    (hlen : base.toNat ≤ digits.length) (sign : Bool) (ap : VaList) (s : σ) :
    putInt digits put base sign ap s = converted emit (takesArg (fun v =>
      if sign then intText digits base.toNat (v.setWidth 32).toInt
      else natText digits base.toNat (v.toNat % 2 ^ 32)) ap) s := by
  cases ap with
  | nil => rfl
  | cons v ap =>
    have htext := printint_text hsink hbase hlen (v.setWidth 32) sign s
    rw [BitVec.toNat_setWidth] at htext
    exact bind_ok htext _

theorem putPtr_text (hsink : Sink put emit) (hlen : 16 ≤ digits.length) (ap : VaList) (s : σ) :
    putPtr digits put ap s = converted emit (takesArg (ptrText digits) ap) s := by
  cases ap with
  | nil => rfl
  | cons v ap => exact bind_ok (printptr_text hsink hlen v s) _

theorem putStr_text (hsink : Sink put emit) (ap : VaList) (s : σ) :
    putStr put strings ap s = converted emit (takesArg (strText strings) ap) s := by
  cases ap with
  | nil => rfl
  | cons v ap => exact bind_ok (hsink.forEach _ s) _

theorem rendered_append (hsink : Sink put emit) (text : List UInt8) (r : List UInt8 × Bool) (s : σ) :
    rendered emit r (emit text s) = rendered emit (text ++ r.1, r.2) s := by
  rw [rendered, rendered, hsink.append]

/-- A conversion and then the rest of the format. -/
theorem converted_rest (hsink : Sink put emit) {conversion : Conversion} {c : UInt8} {ap : VaList}
    {s : σ} {x : Comp σ VaList} (hx : x s = converted emit (conversion c ap) s)
    {k : VaList → Comp σ Unit} {l : List Directive}
    (hk : ∀ ap s, k ap s = rendered emit (render conversion l ap) s) :
    (x >>= k) s = rendered emit (render conversion (.conv c :: l) ap) s := by
  rw [render]
  cases hc : conversion c ap with
  | none =>
    rw [hc] at hx
    rw [bind_fault hx]
    simp [rendered, hsink.nil]
  | some p =>
    rw [hc] at hx
    rw [bind_ok hx, hk, rendered_append hsink]

/-- A character that stands for itself and then the rest of the format. -/
theorem plain_rest (hsink : Sink put emit) {conversion : Conversion} {c : UInt8} {ap : VaList}
    {x : Comp σ Unit} {l : List Directive}
    (hx : ∀ s, x s = rendered emit (render conversion l ap) s) (s : σ) :
    (put c >>= fun _ => x) s = rendered emit (render conversion (.plain c :: l) ap) s := by
  rw [bind_ok (hsink.put c s), hx, rendered_append hsink]
  rfl

end Common

theorem directives_plain {c : UInt8} (hc : c ≠ ascii '%') (fmt : List UInt8) :
    directives (c :: fmt) = .plain c :: directives fmt := by
  conv_lhs => rw [directives.eq_def]
  simp only [if_pos hc]

theorem directives_conv (c : UInt8) (fmt : List UInt8) :
    directives (ascii '%' :: c :: fmt) = .conv c :: directives fmt := by
  conv_lhs => rw [directives.eq_def]
  simp

theorem directives_percent : directives [ascii '%'] = [] := by
  conv_lhs => rw [directives.eq_def]
  simp

/-! ### The kernel's `printf` -/

def PrintWorld.write (text : List UInt8) (w : PrintWorld) : PrintWorld :=
  { w with console := w.console ++ text }

@[simp] theorem write_kern (text : List UInt8) (w : PrintWorld) : (w.write text).kern = w.kern := rfl
@[simp] theorem write_locking (text : List UInt8) (w : PrintWorld) :
    (w.write text).locking = w.locking := rfl
@[simp] theorem write_console (text : List UInt8) (w : PrintWorld) :
    (w.write text).console = w.console ++ text := rfl

/-- No character of a string is the `BACKSPACE` of `consputc`. -/
theorem consputChar_sink : Sink consputChar PrintWorld.write where
  put c w := by
    have hne : c.toBitVec.setWidth 32 ≠ consBackspace := by
      intro h
      have hlt := c.toBitVec.isLt
      have hnat := congrArg BitVec.toNat h
      rw [BitVec.toNat_setWidth, Nat.mod_eq_of_lt (by omega)] at hnat
      rw [hnat] at hlt
      exact absurd hlt (by decide)
    rw [consputChar, consputc, if_neg hne, sbiConsolePutchar, BitVec.setWidth_setWidth_of_le _ (by decide),
      BitVec.setWidth_eq]
    rfl
  nil w := by simp [PrintWorld.write]
  append l l' w := by simp [PrintWorld.write]

section Kernel
variable {strings : BitVec 64 → List UInt8}

theorem printfCase_conversion (c : UInt8) (ap : VaList) (w : PrintWorld) :
    printfCase strings c ap w =
      converted PrintWorld.write (kernelConversion strings c ap) w := by
  unfold printfCase kernelConversion
  by_cases hd : c = ascii 'd'
  · rw [if_pos hd, if_pos hd]
    exact putInt_text consputChar_sink (by decide) (by decide) true ap w
  rw [if_neg hd, if_neg hd]
  by_cases hx : c = ascii 'x'
  · rw [if_pos hx, if_pos hx]
    exact putInt_text consputChar_sink (by decide) (by decide) true ap w
  rw [if_neg hx, if_neg hx]
  by_cases hp : c = ascii 'p'
  · rw [if_pos hp, if_pos hp]
    exact putPtr_text consputChar_sink (by decide) ap w
  rw [if_neg hp, if_neg hp]
  by_cases hs : c = ascii 's'
  · rw [if_pos hs, if_pos hs]
    exact putStr_text consputChar_sink ap w
  rw [if_neg hs, if_neg hs]
  by_cases hpercent : c = ascii '%'
  · rw [if_pos hpercent, if_pos hpercent]
    exact bind_ok (consputChar_sink.put _ w) _
  · rw [if_neg hpercent, if_neg hpercent, bind_ok (consputChar_sink.put _ w),
      bind_ok (consputChar_sink.put _ _), consputChar_sink.append]
    rfl

/-- The loop of `printf` writes what the format says. -/
theorem printfLoop_render (fmt : List UInt8) (ap : VaList) (w : PrintWorld) :
    printfLoop strings fmt ap w =
      rendered PrintWorld.write (render (kernelConversion strings) (directives fmt) ap) w := by
  induction fmt using directives.induct generalizing ap w with
  | case1 => simp [printfLoop, directives, render, rendered, PrintWorld.write]
  | case2 c fmt hc ih =>
    rw [directives_plain hc]
    unfold printfLoop
    rw [if_pos hc]
    exact plain_rest consputChar_sink (ih ap) w
  | case3 c hc =>
    rw [ne_eq, not_not] at hc
    subst hc
    simp [printfLoop, directives_percent, render, rendered, PrintWorld.write]
  | case4 c hc c' fmt ih =>
    rw [ne_eq, not_not] at hc
    subst hc
    rw [directives_conv]
    unfold printfLoop
    rw [if_neg (by simp)]
    exact converted_rest consputChar_sink (printfCase_conversion c' ap w) ih

/-- The state in which a `release` of a lock that was just acquired comes to `pop_off`. -/
def handedBack (σ : Kern) (h : Nat) (l : LockId) : Kern :=
  { pushed σ h with locks := Function.update σ.locks l ⟨false, none⟩ }

theorem release_acquired (σ : Kern) (h : Nat) (l : LockId) :
    release h l (acquired σ h l) = popOff h (handedBack σ h l) := by
  have hheld : (acquired σ h l).Holds h l := by simp [Kern.Holds, acquired]
  simp only [release, releaseEnter, holding, lockRelease, setLock, bind_apply, read_apply, pure_apply,
    hheld, decide_true, if_true, modify_apply]
  simp [acquired, handedBack]

theorem handedBack_cpu (σ : Kern) (h : Nat) (l : LockId) :
    (handedBack σ h l).sie h = false ∧ ((handedBack σ h l).cpus h).noff = (σ.cpus h).noff + 1 := by
  simp [handedBack, pushed]

theorem printf_unlocked {w : PrintWorld} (hlocking : w.locking = false) (h : Nat)
    (fmt : List UInt8) (ap : VaList) :
    printf strings h (some fmt) ap w =
      rendered PrintWorld.write (render (kernelConversion strings) (directives fmt) ap) w := by
  rw [printf, read_bind, hlocking, ← printfLoop_render]
  show (printfLoop strings fmt ap >>= fun _ => pure ()) w = _
  rw [bind_apply]
  cases printfLoop strings fmt ap w with
  | ok a s => rfl
  | fault f s => rfl

/-- With the lock, all but the `pop_off` at the end. -/
theorem printf_locked {w : PrintWorld} {h : Nat} (hlocking : w.locking = true)
    (hmax : (w.kern.cpus h).noff ≠ intMax) (hfree : (w.kern.locks prLock).locked = false)
    (fmt : List UInt8) (ap : VaList) :
    printf strings h (some fmt) ap w =
      let r := render (kernelConversion strings) (directives fmt) ap
      if r.2 then
        onPrintKern (popOff h) { w.write r.1 with kern := handedBack w.kern h prLock }
      else
        .fault (.undefined "va_arg") { w.write r.1 with kern := acquired w.kern h prLock } := by
  have hacquire : onPrintKern (acquire h prLock) w =
      .ok () { w with kern := acquired w.kern h prLock } := by
    rw [onPrintKern, acquire_free hmax hfree]
  rw [printf, read_bind, hlocking, if_pos rfl, bind_ok hacquire]
  dsimp only
  rw [bind_apply, printfLoop_render, rendered]
  obtain ⟨text, done⟩ := render (kernelConversion strings) (directives fmt) ap
  cases done with
  | true =>
    simp only [if_true, onPrintKern, write_kern, release_acquired]
    rfl
  | false => rfl

/-- Where `printf` does lock, the hart holds no lock and no hart holds `pr.lock`. -/
def PrintWorld.Clear (w : PrintWorld) (h : Nat) : Prop :=
  w.locking = true → (w.kern.locks prLock).locked = false ∧ (w.kern.cpus h).noff = 0

/-- What `printf` leaves as it finds it. -/
structure PrintWorld.Printed (w : PrintWorld) (h : Nat) (text : List UInt8) (w' : PrintWorld) :
    Prop where
  console : w'.console = w.console ++ text
  clear : w'.Clear h
  locking : w'.locking = w.locking
  panicked : w'.panicked = w.panicked
  mem : w'.mem = w.mem

/-- `printf` writes what its format says, and can be called again. -/
theorem printf_writes {w : PrintWorld} {h : Nat} (hclear : w.Clear h) {fmt : List UInt8}
    {ap : VaList} {r : List UInt8 × Bool}
    (hr : render (kernelConversion strings) (directives fmt) ap = r) :
    (printf strings h (some fmt) ap w).Holds (fun _ w' => r.2 = true ∧ w.Printed h r.1 w')
      (fun f w' => r.2 = false ∧ f = .undefined "va_arg" ∧ w'.console = w.console ++ r.1) := by
  cases hlocking : w.locking with
  | false =>
    rw [printf_unlocked hlocking, hr, rendered]
    split
    · rename_i hok
      exact ⟨hok, rfl, hclear, rfl, rfl, rfl⟩
    · rename_i hok
      exact ⟨Bool.eq_false_iff.mpr hok, rfl, rfl⟩
  | true =>
    obtain ⟨hfree, hnoff⟩ := hclear hlocking
    have hmax : (w.kern.cpus h).noff ≠ intMax := by
      rw [hnoff]
      decide
    obtain ⟨hsie, hdeep⟩ := handedBack_cpu w.kern h prLock
    rw [hnoff] at hdeep
    rw [printf_locked hlocking hmax hfree, hr]
    dsimp only
    split
    · rename_i hok
      rw [onPrintKern, popOff_one _ h hsie hdeep]
      refine ⟨hok, rfl, fun _ => ⟨?_, ?_⟩, rfl, rfl, rfl⟩
      · simp [popped, handedBack]
      · simp [popped, hdeep]
    · rename_i hok
      exact ⟨Bool.eq_false_iff.mpr hok, rfl, rfl⟩

theorem printf_prints {w : PrintWorld} {h : Nat} (hclear : w.Clear h) {fmt : List UInt8}
    {ap : VaList} {text : List UInt8}
    (hr : render (kernelConversion strings) (directives fmt) ap = (text, true)) :
    ∃ w', printf strings h (some fmt) ap w = .ok () w' ∧ w.Printed h text w' := by
  have hwrites := printf_writes hclear hr
  cases hrun : printf strings h (some fmt) ap w with
  | ok a w' =>
    rw [hrun] at hwrites
    exact ⟨w', rfl, hwrites.2⟩
  | fault f w' =>
    rw [hrun] at hwrites
    cases hwrites.1

end Kernel

/-! ### The user's `vprintf` -/

namespace User
variable {strings : BitVec 64 → List UInt8} {fd : Int}

def write (fd : Int) (text : List UInt8) (out : Writes) : Writes := out ++ text.map fun c => (fd, c)

theorem putc_sink : Sink (putc fd) (write fd) where
  put _ _ := rfl
  nil out := by simp [write]
  append l l' out := by simp [write]

theorem vprintfCase_conversion (c : UInt8) (ap : VaList) (out : Writes) :
    vprintfCase strings fd c ap out = converted (write fd) (userConversion strings c ap) out := by
  unfold vprintfCase userConversion
  by_cases hd : c = ascii 'd'
  · rw [if_pos hd, if_pos hd]
    exact putInt_text putc_sink (by decide) (by decide) true ap out
  rw [if_neg hd, if_neg hd]
  by_cases hl : c = ascii 'l'
  · rw [if_pos hl, if_pos hl]
    exact putInt_text putc_sink (by decide) (by decide) false ap out
  rw [if_neg hl, if_neg hl]
  by_cases hx : c = ascii 'x'
  · rw [if_pos hx, if_pos hx]
    exact putInt_text putc_sink (by decide) (by decide) false ap out
  rw [if_neg hx, if_neg hx]
  by_cases hp : c = ascii 'p'
  · rw [if_pos hp, if_pos hp]
    exact putPtr_text putc_sink (by decide) ap out
  rw [if_neg hp, if_neg hp]
  by_cases hs : c = ascii 's'
  · rw [if_pos hs, if_pos hs]
    exact putStr_text putc_sink ap out
  rw [if_neg hs, if_neg hs]
  by_cases hc : c = ascii 'c'
  · rw [if_pos hc, if_pos hc]
    cases ap with
    | nil => rfl
    | cons v ap => rfl
  rw [if_neg hc, if_neg hc]
  by_cases hpercent : c = ascii '%'
  · rw [if_pos hpercent, if_pos hpercent, hpercent]
    rfl
  · rw [if_neg hpercent, if_neg hpercent, bind_ok (putc_sink.put _ out),
      bind_ok (putc_sink.put _ _), putc_sink.append]
    rfl

/-- The state of `vprintf` is whether the last character was a `%` that stands for no character. -/
theorem vprintf_render (fmt : List UInt8) (ap : VaList) (out : Writes) :
    vprintf strings fd fmt ap out =
      rendered (write fd) (render (userConversion strings) (directives fmt) ap) out := by
  unfold vprintf
  induction fmt using directives.induct generalizing ap out with
  | case1 => simp [vprintfLoop, directives, render, rendered, write]
  | case2 c fmt hc ih =>
    rw [directives_plain hc, vprintfLoop, if_neg hc]
    exact plain_rest putc_sink (ih ap) out
  | case3 c hc =>
    rw [ne_eq, not_not] at hc
    subst hc
    simp [vprintfLoop, directives_percent, render, rendered, write]
  | case4 c hc c' fmt ih =>
    rw [ne_eq, not_not] at hc
    subst hc
    rw [directives_conv, vprintfLoop, if_pos rfl, vprintfLoop]
    exact converted_rest putc_sink (vprintfCase_conversion c' ap out) ih

end User

/-! ### The two agree -/

/-- The conversions that the two printfs treat differently. -/
def differing : List UInt8 := [ascii 'x', ascii 'l', ascii 'c', ascii 'p']

theorem digitText_decimal {l : List Nat} (h : ∀ d ∈ l, d < 10) :
    digitText kernelDigits l = digitText User.userDigits l := by
  have hsame : ∀ d < 10, kernelDigits.getD d 0 = User.userDigits.getD d 0 := by decide
  exact List.map_congr_left fun d hd => hsame d (h d hd)

theorem intText_decimal (n : Int) : intText kernelDigits 10 n = intText User.userDigits 10 n := by
  have hnat : natText kernelDigits 10 n.natAbs = natText User.userDigits 10 n.natAbs :=
    digitText_decimal fun d hd => Numeral.lt_of_mem_numeral (by decide) hd
  rw [intText, intText, hnat]

theorem conversion_agree {strings : BitVec 64 → List UInt8} {c : UInt8} (hc : c ∉ differing)
    (ap : VaList) : kernelConversion strings c ap = userConversion strings c ap := by
  simp only [differing, List.mem_cons, List.not_mem_nil, or_false, not_or] at hc
  obtain ⟨hx, hl, hchar, hp⟩ := hc
  simp only [kernelConversion, userConversion, hx, hl, hchar, hp, if_false, intText_decimal]

theorem render_congr {k k' : Conversion} {l : List Directive}
    (h : ∀ c, .conv c ∈ l → ∀ ap, k c ap = k' c ap) (ap : VaList) :
    render k l ap = render k' l ap := by
  induction l generalizing ap with
  | nil => rfl
  | cons d l ih =>
    have hrest := ih fun c hc => h c (List.mem_cons_of_mem _ hc)
    cases d with
    | plain c => simp only [render, hrest]
    | conv c => simp only [render, h c List.mem_cons_self, hrest]

/-- For a format of conversions that both know, the kernel puts on the console what the user's
`printf` writes to its descriptor, and the one misses an argument where the other does. -/
theorem printf_agree (strings : BitVec 64 → List UInt8) {w : PrintWorld} {h : Nat}
    (hclear : w.Clear h) {fmt : List UInt8}
    (hshared : ∀ c, .conv c ∈ directives fmt → c ∉ differing) (ap : VaList) (fd : Int)
    (out : User.Writes) :
    let text := (render (kernelConversion strings) (directives fmt) ap).1
    (printf strings h (some fmt) ap w).Holds
      (fun _ w' => w.Printed h text w' ∧
        User.vprintf strings fd fmt ap out = .ok () (User.write fd text out))
      (fun f w' => f = .undefined "va_arg" ∧ w'.console = w.console ++ text ∧
        User.vprintf strings fd fmt ap out = .fault f (User.write fd text out)) := by
  have hrender : render (userConversion strings) (directives fmt) ap =
      render (kernelConversion strings) (directives fmt) ap :=
    render_congr (fun c hc ap => (conversion_agree (hshared c hc) ap).symm) ap
  have huser : User.vprintf strings fd fmt ap out = rendered (User.write fd)
      (render (kernelConversion strings) (directives fmt) ap) out := by
    rw [User.vprintf_render, hrender]
  rw [rendered] at huser
  apply (printf_writes hclear rfl).mono
  · rintro _ w' ⟨hdone, hprinted⟩
    exact ⟨hprinted, by rw [huser, if_pos hdone]⟩
  · rintro f w' ⟨hmissing, rfl, hconsole⟩
    refine ⟨rfl, hconsole, ?_⟩
    rw [huser, hmissing]
    rfl

/-- A hart that holds `noff` locks, and none is `pr.lock`. -/
def smallPrintWorld (noff : Int) : PrintWorld where
  kern :=
    { sie := fun _ => false
      cpus := fun _ => ⟨none, noff, false⟩
      locks := fun _ => ⟨false, none⟩
      procTable := fun _ => ⟨.unused, none, .null, 0, [], fun _ => none, fun _ => none⟩
      initproc := none }
  locking := true
  console := []
  panicked := false
  mem := fun _ => 0

theorem printf_agree_small :
    (∃ w', printf (fun _ => []) 0 (some (cstr "a %s%%")) [0] (smallPrintWorld 0) = .ok () w' ∧
      w'.console = cstr "a (null)%") ∧
    User.vprintf (fun _ => []) 1 (cstr "a %s%%") [0] [] =
      .ok () (User.write 1 (cstr "a (null)%") []) := by
  have hfmt : directives (cstr "a %s%%") =
      [.plain (ascii 'a'), .plain (ascii ' '), .conv (ascii 's'), .conv (ascii '%')] := by decide
  have hnull : kernelConversion (fun _ => []) (ascii 's') [0] = some (cstr "(null)", []) := by
    simp [kernelConversion, takesArg, strText, ascii]
  have hpercent : kernelConversion (fun _ => []) (ascii '%') [] = some ([ascii '%'], []) := by
    simp [kernelConversion, ascii]
  have htext : render (kernelConversion fun _ => []) (directives (cstr "a %s%%")) [0] =
      (cstr "a (null)%", true) := by
    simp only [hfmt, render, hnull, hpercent]
    decide
  have hclear : (smallPrintWorld 0).Clear 0 := fun _ => ⟨rfl, rfl⟩
  have hshared : ∀ c, .conv c ∈ directives (cstr "a %s%%") → c ∉ differing := by
    intro c hc
    rw [hfmt] at hc
    simp only [List.mem_cons, Directive.conv.injEq, reduceCtorEq, List.not_mem_nil, or_false,
      false_or] at hc
    rcases hc with rfl | rfl <;> decide
  obtain ⟨w', hrun, -⟩ := printf_prints hclear htext
  have hagree := printf_agree (fun _ => []) hclear hshared [0] 1 []
  simp only [hrun, htext, Res.holds_ok] at hagree
  exact ⟨⟨w', hrun, hagree.1.console.trans (List.nil_append _)⟩, hagree.2⟩

/-! ### A number that is read back -/

namespace User

/-- The text behind a number that is read does not go on with a digit. -/
def Ends (rest : List UInt8) : Prop := ∀ c ∈ rest.head?, ¬ (ascii '0' ≤ c ∧ c ≤ ascii '9')

theorem atoiLoop_ends {rest : List UInt8} (h : Ends rest) (n : BitVec 32) : atoiLoop rest n = n := by
  cases rest with
  | nil => rfl
  | cons c rest => rw [atoiLoop, if_neg (h c rfl)]

theorem atoiLoop_digits {l : List Nat} (h : ∀ d ∈ l, d < 10) (rest : List UInt8) (n : Nat) :
    atoiLoop (digitText userDigits l ++ rest) (BitVec.ofNat 32 n) =
      atoiLoop rest (BitVec.ofNat 32 (l.foldl (fun v d => 10 * v + d) n)) := by
  induction l generalizing n with
  | nil => rfl
  | cons d l ih =>
    have hdigit : ∀ d < 10, ascii '0' ≤ userDigits.getD d 0 ∧ userDigits.getD d 0 ≤ ascii '9' ∧
        (userDigits.getD d 0).toBitVec.setWidth 32 - (ascii '0').toBitVec.setWidth 32 =
          BitVec.ofNat 32 d := by decide
    obtain ⟨hlow, hhigh, hval⟩ := hdigit d (h d List.mem_cons_self)
    have hstep : BitVec.ofNat 32 n * 10 + (userDigits.getD d 0).toBitVec.setWidth 32 -
        (ascii '0').toBitVec.setWidth 32 = BitVec.ofNat 32 (10 * n + d) := by
      rw [BitVec.sub_eq_add_neg, BitVec.add_assoc, ← BitVec.sub_eq_add_neg, hval, BitVec.ofNat_add,
        Nat.mul_comm, BitVec.ofNat_mul]
      rfl
    rw [digitText, List.map_cons, List.cons_append, atoiLoop, if_pos ⟨hlow, hhigh⟩, hstep]
    exact ih (fun d hd => h d (List.mem_cons_of_mem _ hd)) _

theorem atoi_natText (n : Nat) {rest : List UInt8} (hrest : Ends rest) :
    atoi (natText userDigits 10 n ++ rest) = BitVec.ofNat 32 n := by
  have hdigits := atoiLoop_digits (l := Numeral.numeral 10 n)
    (fun d hd => Numeral.lt_of_mem_numeral (by decide) hd) rest 0
  have hvalue : (Numeral.numeral 10 n).foldl (fun v d => 10 * v + d) 0 = n :=
    Numeral.value_numeral (by decide) n
  rw [hvalue, atoiLoop_ends hrest] at hdigits
  exact hdigits

/-- `atoi` reads back what `%d` has written: the number, or for a negative one the number without
its sign behind the `-`. -/
theorem atoi_printed (strings : BitVec 64 → List UInt8) (v : BitVec 64) (ap : VaList) (fd : Int) (out : Writes) {rest : List UInt8}
    (hrest : Ends rest) :
    ∃ text, vprintf strings fd (cstr "%d") (v :: ap) out = .ok () (write fd text out) ∧
      if (v.setWidth 32).toInt < 0 then
        ∃ t, text = ascii '-' :: t ∧ atoi (t ++ rest) = -(v.setWidth 32)
      else
        atoi (text ++ rest) = v.setWidth 32 := by
  refine ⟨intText userDigits 10 (v.setWidth 32).toInt, ?_, ?_⟩
  · rw [vprintf_render]
    have hfmt : directives (cstr "%d") = [.conv (ascii 'd')] := by decide
    simp [hfmt, render, userConversion, takesArg, rendered]
  · have habs : BitVec.ofNat 32 (v.setWidth 32).toInt.natAbs =
        if (v.setWidth 32).toInt < 0 then -(v.setWidth 32) else v.setWidth 32 := by
      split
      · rename_i hneg
        have hslt : (v.setWidth 32).slt 0 = true := by simpa [BitVec.slt] using hneg
        rw [← (toNat_neg_of_slt hslt).1, BitVec.ofNat_toNat, BitVec.setWidth_eq]
      · rename_i hneg
        have hslt : (v.setWidth 32).slt 0 = false := by simpa [BitVec.slt] using hneg
        rw [← (toNat_of_not_slt hslt).1, BitVec.ofNat_toNat, BitVec.setWidth_eq]
    have hread := atoi_natText (v.setWidth 32).toInt.natAbs hrest
    rw [habs] at hread
    split
    · rename_i hneg
      rw [if_pos hneg] at hread
      exact ⟨_, by rw [intText, if_pos hneg], hread⟩
    · rename_i hneg
      rw [if_neg hneg] at hread
      rw [intText, if_neg hneg]
      exact hread

theorem atoi_printed_small :
    ∃ text, vprintf (fun _ => []) 1 (cstr "%d") [0xffffffff80000000] [] = .ok () (write 1 text []) ∧
      ∃ t, text = ascii '-' :: t ∧ atoi (t ++ cstr " ticks") = 0x80000000 := by
  have hrest : Ends (cstr " ticks") := by
    intro c hc
    cases hc
    decide
  obtain ⟨text, hrun, hread⟩ := atoi_printed (fun _ => []) 0xffffffff80000000 [] 1 [] hrest
  rw [if_pos (by decide)] at hread
  exact ⟨text, hrun, hread⟩

end User

end PageFaultOS
