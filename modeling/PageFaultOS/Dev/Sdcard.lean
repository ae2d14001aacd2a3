import Mathlib.Tactic
import PageFaultOS.Lib.Exec

/-! The SD card of the K210, from `driver/sdcard.cpp`: what goes to it over SPI, and what the
driver waits for. A call begins where it gets `sdcard_lock`. -/

namespace PageFaultOS
open Exec Exec.Comp

/-- `answers` is what the card still has to say, with `0xff` behind it; `sent` is what it was sent,
oldest first. -/
structure SdBus where
  answers : List UInt8
  sent : List (List UInt8)
  isStandardSd : Bool
  sdcardLock : Bool

abbrev SdComp := Comp SdBus

def SD_CMD13 : UInt8 := 13
def SD_CMD17 : UInt8 := 17
def SD_CMD24 : UInt8 := 24

/-- The bytes of a sector, from `fs/buf.hpp`. -/
def SdBus.BFSIZE : Nat := 512

/-- `sd_write_data`, and `sd_write_data_dma`. -/
def sdWriteData (dataBuff : List UInt8) : SdComp Unit :=
  modify fun s => { s with sent := s.sent ++ [dataBuff] }

/-- `sd_read_data`, and `sd_read_data_dma`. -/
def sdReadData (length : Nat) : SdComp (List UInt8) := do
  let s ← read
  modify fun s => { s with answers := s.answers.drop length }
  pure ((List.range length).map fun i => s.answers.getD i 0xff)

/-- One byte of `arg`, from bit `i` on. -/
def argByte (arg : BitVec 32) (i : Nat) : UInt8 := UInt8.ofBitVec ((arg >>> i).setWidth 8)

/-- The six bytes of a command. -/
def sdFrame (cmd : UInt8) (arg : BitVec 32) (crc : UInt8) : List UInt8 :=
  [cmd ||| 0x40, argByte arg 24, argByte arg 16, argByte arg 8, argByte arg 0, crc]

def sdSendCmd (cmd : UInt8) (arg : BitVec 32) (crc : UInt8) : SdComp Unit :=
  sdWriteData (sdFrame cmd arg crc)

def sdEndCmd : SdComp Unit := sdWriteData [0xff]

/-- Up to `rounds` bytes are read, until `stop` is true of one. -/
def waitFor (stop : UInt8 → Bool) : Nat → SdComp (Option UInt8)
  | 0 => pure none
  | rounds + 1 => do
    let got ← sdReadData 1
    if stop (got.headD 0xff) then pure (some (got.headD 0xff)) else waitFor stop rounds

/-- `while (timeout--)` -/
def sdGetResponseR1 : SdComp UInt8 := do
  let result ← waitFor (· ≠ 0xff) 0xff
  pure (result.getD 0xff)

def acquireSdcard : SdComp Unit := modify fun s => { s with sdcardLock := true }

def releaseSdcard : SdComp Unit := modify fun s => { s with sdcardLock := false }

/-- A card that is not block-addressed gets the number of a byte. -/
def sdAddress (isStandardSd : Bool) (sectorno : BitVec 32) : BitVec 32 :=
  if isStandardSd then sectorno <<< 9 else sectorno

/-- `while (--timeout)`: a round less than `timeout`. -/
def sdcardReadSector (sectorno : BitVec 32) : SdComp (List UInt8) := do
  let s ← read
  let address := sdAddress s.isStandardSd sectorno
  acquireSdcard
  sdSendCmd SD_CMD17 address 0
  let result ← sdGetResponseR1
  if result ≠ 0 then do
    releaseSdcard
    Comp.panic "sdcard: fail to read"
  else do
    let token ← waitFor (· = 0xfe) (0xffffff - 1)
    if token = none then Comp.panic "sdcard: timeout waiting for reading"
    else do
      let buf ← sdReadData SdBus.BFSIZE
      let _ ← sdReadData 2
      sdEndCmd
      releaseSdcard
      pure buf

/-- The last command of a write: the card's status. -/
def sdCheckWritten : SdComp Unit := do
  sdSendCmd SD_CMD13 0 0
  let result ← sdGetResponseR1
  let errorCode ← sdReadData 1
  sdEndCmd
  if result ≠ 0 ∨ errorCode ≠ [0] then do
    releaseSdcard
    Comp.panic "sdcard: an error occurs when writing"
  else releaseSdcard

def sdcardWriteSector (buf : List UInt8) (sectorno : BitVec 32) : SdComp Unit := do
  let s ← read
  let address := sdAddress s.isStandardSd sectorno
  acquireSdcard
  sdSendCmd SD_CMD24 address 0
  let result ← sdGetResponseR1
  if result ≠ 0 then do
    releaseSdcard
    Comp.panic "sdcard: fail to write"
  else do
    sdWriteData [0xfe]
    sdWriteData buf
    sdWriteData [0xff, 0xff]
    let token ← waitFor (fun r => r &&& 0x1f = 0x05) (0xfff - 1)
    if token = none then do
      releaseSdcard
      Comp.panic "sdcard: invalid response token"
    else do
      let ready ← waitFor (· ≠ 0) (0xffffff - 1)
      if ready = none then do
        releaseSdcard
        Comp.panic "sdcard: timeout waiting for response"
      else do
        sdEndCmd
        sdCheckWritten

/-! ## The argument of a command -/

/-- The argument in a command's frame, high byte first. -/
def frameArg (frame : List UInt8) : Nat :=
  (frame.drop 1).take 4 |>.foldl (fun n b => n * 256 + b.toNat) 0

theorem argByte_toNat (arg : BitVec 32) (i : Nat) :
    (argByte arg i).toNat = arg.toNat / 2 ^ i % 256 := by
  show ((arg >>> i).setWidth 8).toNat = _
  rw [BitVec.toNat_setWidth, BitVec.toNat_ushiftRight, Nat.shiftRight_eq_div_pow]

theorem frameArg_sdFrame (cmd : UInt8) (arg : BitVec 32) (crc : UInt8) :
    frameArg (sdFrame cmd arg crc) = arg.toNat := by
  show (((0 * 256 + (argByte arg 24).toNat) * 256 + (argByte arg 16).toNat) * 256 +
    (argByte arg 8).toNat) * 256 + (argByte arg 0).toNat = arg.toNat
  simp only [argByte_toNat]
  have hlt := arg.isLt
  omega

/-! ## What is sent first -/

variable {α : Type}

/-- Nothing that was sent is taken back. -/
def SentMore (s t : SdBus) : Prop := s.sent <+: t.sent

instance : Std.Refl SentMore := ⟨fun s => List.prefix_refl s.sent⟩

instance : IsTrans SdBus SentMore := ⟨fun _ _ _ => List.IsPrefix.trans⟩

abbrev Sends (x : SdComp α) : Prop := Res.Follows SentMore (fun _ => True) x

theorem sends_modify {f : SdBus → SdBus} (h : ∀ s, (f s).sent = s.sent) : Sends (modify f) :=
  Res.follows_modify fun s => by
    rw [SentMore, h s]

theorem sends_panic (msg : String) : Sends (Comp.panic msg : SdComp α) :=
  Res.follows_fault trivial

theorem sends_write (data : List UInt8) : Sends (sdWriteData data) :=
  Res.follows_modify fun s => List.prefix_append s.sent [data]

theorem sends_read (length : Nat) : Sends (sdReadData length) :=
  Res.follows_bind Res.follows_read fun _ =>
    Res.follows_bind (sends_modify fun _ => rfl) fun _ => Res.follows_pure _

theorem sends_waitFor (stop : UInt8 → Bool) (rounds : Nat) : Sends (waitFor stop rounds) := by
  induction rounds with
  | zero => exact Res.follows_pure _
  | succ rounds ih =>
    exact Res.follows_bind (sends_read 1) fun _ => Res.follows_ite (Res.follows_pure _) ih

theorem sends_response : Sends sdGetResponseR1 :=
  Res.follows_bind (sends_waitFor _ _) fun _ => Res.follows_pure _

theorem sends_release : Sends releaseSdcard := sends_modify fun _ => rfl

theorem sends_fail (msg : String) :
    Sends (releaseSdcard >>= fun _ => (Comp.panic msg : SdComp α)) :=
  Res.follows_bind sends_release fun _ => sends_panic msg

theorem sends_checkWritten : Sends sdCheckWritten := by
  refine Res.follows_bind (sends_write _) fun _ => ?_
  refine Res.follows_bind sends_response fun _ => ?_
  refine Res.follows_bind (sends_read 1) fun _ => ?_
  refine Res.follows_bind (sends_write _) fun _ => ?_
  exact Res.follows_ite (sends_fail _) sends_release

/-- Whatever comes of it, the first that `x` sends is `frame`. -/
def SendsFirst (frame : List UInt8) (s : SdBus) (x : SdComp α) : Prop :=
  (x s).Holds (fun _ t => s.sent ++ [frame] <+: t.sent) (fun _ t => s.sent ++ [frame] <+: t.sent)

theorem SendsFirst.bind {β : Type} {frame : List UInt8} {s : SdBus} {x : SdComp α}
    {k : α → SdComp β} (h : SendsFirst frame s x) (hk : ∀ a, Sends (k a)) :
    SendsFirst frame s (x >>= k) :=
  Res.holds_bind h fun a t ht =>
    (hk a t).mono (fun _ _ hu => ht.trans hu) fun _ _ hu => ht.trans hu.2

/-- Only one frame is the first. -/
theorem SendsFirst.unique {x : SdComp α} {s : SdBus} {frame frame' : List UInt8}
    (h : SendsFirst frame s x) (h' : SendsFirst frame' s x) : frame = frame' := by
  have hsame : ∀ l : List (List UInt8), s.sent ++ [frame] <+: l → s.sent ++ [frame'] <+: l →
      frame = frame' := by
    intro l hl hl'
    have heq : s.sent ++ [frame] = s.sent ++ [frame'] :=
      (List.prefix_of_prefix_length_le hl hl' (by simp)).eq_of_length (by simp)
    exact List.singleton_inj.mp (List.append_cancel_left heq)
  unfold SendsFirst at h h'
  cases hx : x s with
  | ok a t =>
    rw [hx] at h h'
    exact hsame _ h h'
  | fault e t =>
    rw [hx] at h h'
    exact hsame _ h h'

theorem sendsFirst_cmd (cmd crc : UInt8) (arg : BitVec 32) {k : Unit → SdComp α}
    (hk : Sends (k ())) (s : SdBus) :
    SendsFirst (sdFrame cmd arg crc) s (acquireSdcard >>= fun _ => sdSendCmd cmd arg crc >>= k) :=
  (hk _).mono (fun _ _ ht => ht) fun _ _ ht => ht.2

theorem sendsFirst_read {frame : List UInt8} {s : SdBus} {k : SdBus → SdComp α}
    (h : SendsFirst frame s (k s)) : SendsFirst frame s (read >>= k) := h

theorem sdcardReadSector_sends (sectorno : BitVec 32) (s : SdBus) :
    SendsFirst (sdFrame SD_CMD17 (sdAddress s.isStandardSd sectorno) 0) s
      (sdcardReadSector sectorno) := by
  refine sendsFirst_read (sendsFirst_cmd _ _ _ ?_ s)
  refine Res.follows_bind sends_response fun _ => Res.follows_ite (sends_fail _) ?_
  refine Res.follows_bind (sends_waitFor _ _) fun _ => Res.follows_ite (sends_panic _) ?_
  refine Res.follows_bind (sends_read _) fun _ => Res.follows_bind (sends_read _) fun _ => ?_
  refine Res.follows_bind (sends_write _) fun _ => ?_
  exact Res.follows_bind sends_release fun _ => Res.follows_pure _

theorem sdcardWriteSector_sends (buf : List UInt8) (sectorno : BitVec 32) (s : SdBus) :
    SendsFirst (sdFrame SD_CMD24 (sdAddress s.isStandardSd sectorno) 0) s
      (sdcardWriteSector buf sectorno) := by
  refine sendsFirst_read (sendsFirst_cmd _ _ _ ?_ s)
  refine Res.follows_bind sends_response fun _ => Res.follows_ite (sends_fail _) ?_
  refine Res.follows_bind (sends_write _) fun _ => Res.follows_bind (sends_write _) fun _ => ?_
  refine Res.follows_bind (sends_write _) fun _ => ?_
  refine Res.follows_bind (sends_waitFor _ _) fun _ => Res.follows_ite (sends_fail _) ?_
  refine Res.follows_bind (sends_waitFor _ _) fun _ => Res.follows_ite (sends_fail _) ?_
  exact Res.follows_bind (sends_write _) fun _ => sends_checkWritten

end PageFaultOS
