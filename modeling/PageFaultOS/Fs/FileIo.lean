import Mathlib.Tactic
import PageFaultOS.Fs.FileTable
import PageFaultOS.Fs.Mount
import PageFaultOS.Fs.LongName

/-! Reading and writing an open file: `vfsread` and `vfswrite` of `fs/vfs.cpp`. The file
systems and the pipes behind the virtual calls are a parameter; what goes over these calls is
recorded, so that it can be said where a transfer takes place. -/

namespace PageFaultOS
open Exec Exec.Comp ByteMem

/-- The virtual calls on the state `σ` of the file systems and pipes. A `size_t` is a natural
number; the `int` of a pipe is made one by `vfsread`. -/
structure FileOps (σ : Type) where
  read : FileSystem → CStr → Bool → Nat → Int → Int → Comp σ Nat
  write : FileSystem → CStr → Bool → Nat → Int → Int → Comp σ Nat
  piperead : Nat → Nat → Int → Comp σ Int
  pipewrite : Nat → Nat → Int → Comp σ Int

/-- A ghost: the offset that a call has asked for, if it has one, and its result. -/
structure Transfer where
  offset : Option Int
  result : Nat
  deriving DecidableEq

/-- An open file, the mounted file systems and what is behind them. -/
structure FileIo (σ : Type) where
  file : File
  mounted : MountTable
  fs : σ
  log : List Transfer

abbrev IoComp (σ : Type) := Comp (FileIo σ)

/-- `(size_t)-1`. -/
def sizeError : Nat := 2 ^ 64 - 1

def File.moved (fp : File) (position : Nat) : File := { fp with position := position }

/-- The size grows where the new position is behind it. -/
def File.grown (fp : File) (position : Nat) : File :=
  { fp with
    size := if position < fp.size then fp.size else position
    position := position }

namespace FileIo
variable {σ : Type}

def transfer (offset : Option Int) (x : Comp σ Nat) : IoComp σ Nat := fun w =>
  match x w.fs with
  | .ok r s => .ok r { w with fs := s, log := w.log ++ [⟨offset, r⟩] }
  | .fault e s => .fault e { w with fs := s }

/-- `vfsgetFs(fp->filepath)`. -/
def fileSystem (w : FileIo σ) : Option FileSystem :=
  vfsgetFs w.mounted fun i => w.file.filepath.getD i 0

def getFs : IoComp σ FileSystem := do
  let w ← Comp.read
  match w.fileSystem with
  | some fs => pure fs
  | none => fault (.undefined "null file system")

def getPipe : IoComp σ Nat := do
  let w ← Comp.read
  match w.file.pip with
  | some p => pure p
  | none => fault (.undefined "null pipe")

/-- An `int` as a `size_t`. -/
def sizeOf (r : Int) : Nat := toUint64 (toInt r)

/-- `fp->position += r`. -/
def readBy (r : Nat) (fp : File) : File := fp.moved (toUint64 (fp.position + toInt r))

def writtenBy (r : Nat) (fp : File) : File := fp.grown (toUint64 (fp.position + toInt r))

def vfsread (ops : FileOps σ) (user : Bool) (dst n : Nat) : IoComp σ Nat := do
  let w ← Comp.read
  let fp := w.file
  if fp.readable = false then pure sizeError
  else match fp.type with
  | .pipe => do
    let p ← getPipe
    let r ← transfer none (ops.piperead p dst (toInt n) >>= fun r => pure (sizeOf r))
    pure (sizeOf r)
  | .device => do
    let fs ← getFs
    let r ← transfer (some 0) (ops.read fs fp.filepath user dst 0 (toInt n))
    pure (sizeOf r)
  | .entry => do
    let fs ← getFs
    let offset := toInt fp.position
    let r ← transfer (some offset) (ops.read fs fp.filepath user dst offset (toInt n))
    modify fun w => { w with file := readBy r w.file }
    pure (sizeOf r)
  | .none => Comp.panic "vfsread"

/-- The result of `pipewrite` is not kept, and the offset of a file is not used. -/
def vfswrite (ops : FileOps σ) (user : Bool) (src n : Nat) : IoComp σ Nat := do
  let w ← Comp.read
  let fp := w.file
  if fp.writable = false then pure sizeError
  else match fp.type with
  | .pipe => do
    let p ← getPipe
    let _ ← transfer none (ops.pipewrite p src (toInt n) >>= fun r => pure (sizeOf r))
    pure 0
  | .device => do
    let fs ← getFs
    let r ← transfer (some 0) (ops.write fs fp.filepath user src 0 (toInt n))
    pure (sizeOf r)
  | .entry => do
    let fs ← getFs
    let r ← transfer (some 0) (ops.write fs fp.filepath user src 0 (toInt n))
    modify fun w => { w with file := writtenBy r w.file }
    pure (sizeOf r)
  | .none => Comp.panic "vfswrite"

end FileIo

/-! ## The calls on a file -/

inductive IoCall where
  | read (user : Bool) (dst n : Nat)
  | write (user : Bool) (src n : Nat)

variable {σ : Type}

def IoCall.run (ops : FileOps σ) : IoCall → IoComp σ Nat
  | .read user dst n => FileIo.vfsread ops user dst n
  | .write user src n => FileIo.vfswrite ops user src n

def runIo (ops : FileOps σ) : List IoCall → IoComp σ (List Nat)
  | [] => pure []
  | c :: cs => do
    let r ← c.run ops
    let rs ← runIo ops cs
    pure (r :: rs)

/-! ## What a call is for -/

/-- A number of bytes, as against a negative result. -/
def isCount (r : Nat) : Prop := r < 2 ^ 63

instance : DecidablePred isCount := fun _ => inferInstanceAs (Decidable (_ < _))

/-- Where the position is to be after a result. -/
def advance (position r : Nat) : Nat := if isCount r then position + r else position

/-- A transfer of the call gives its result, and of a regular file it takes place at the
position and moves it on by the bytes transferred. -/
def Transfers (w : FileIo σ) (r : Nat) (w' : FileIo σ) : Prop :=
  ∃ t, w'.log = w.log ++ [t] ∧ r = t.result ∧
    (w.file.type = .entry → t.offset = some (w.file.position : Int) ∧
      w'.file.position = advance w.file.position r)

/-- A call does what it is for, or is refused and changes nothing. -/
def Meets (w : FileIo σ) (r : Nat) (w' : FileIo σ) : Prop :=
  Transfers w r w' ∨ r = sizeError ∧ w' = w

/-- The call behind `x` returns a value in `P`. -/
def Returns (x : Comp σ Nat) (s : σ) (P : Nat → Prop) : Prop := ∃ r t, x s = .ok r t ∧ P r

/-- The calls that go right: a regular file is read at a position below `2 ^ 31` and written
at the position `0`, without an error; nothing is written to a pipe; and a result is an
`int`. -/
def CallOk (ops : FileOps σ) (w : FileIo σ) : IoCall → Prop
  | .read user dst n => w.file.readable = true → match w.file.type with
    | .pipe => ∃ p, w.file.pip = some p ∧
        Returns (ops.piperead p dst (toInt n) >>= fun r => pure (FileIo.sizeOf r)) w.fs
          fun _ => True
    | .device => ∃ fs, w.fileSystem = some fs ∧
        Returns (ops.read fs w.file.filepath user dst 0 (toInt n)) w.fs
          fun r => FileIo.sizeOf r = r
    | .entry => w.file.position < 2 ^ 31 ∧ ∃ fs, w.fileSystem = some fs ∧
        Returns (ops.read fs w.file.filepath user dst w.file.position (toInt n)) w.fs
          fun r => r < 2 ^ 31
    | .none => False
  | .write user src n => w.file.writable = true → match w.file.type with
    | .pipe => ∃ p, w.file.pip = some p ∧
        Returns (ops.pipewrite p src (toInt n) >>= fun r => pure (FileIo.sizeOf r)) w.fs
          fun r => r = 0
    | .device => ∃ fs, w.fileSystem = some fs ∧
        Returns (ops.write fs w.file.filepath user src 0 (toInt n)) w.fs
          fun r => FileIo.sizeOf r = r
    | .entry => w.file.position = 0 ∧ ∃ fs, w.fileSystem = some fs ∧
        Returns (ops.write fs w.file.filepath user src 0 (toInt n)) w.fs fun r => r < 2 ^ 31
    | .none => False

/-- All calls of the run go right. -/
def RunOk (ops : FileOps σ) : List IoCall → FileIo σ → Prop
  | [], _ => True
  | c :: cs, w => CallOk ops w c ∧ ∀ r w', c.run ops w = .ok r w' → RunOk ops cs w'

/-- Each call of the run does what it is for. -/
inductive Served : FileIo σ → List Nat → FileIo σ → Prop where
  | nil (w : FileIo σ) : Served w [] w
  | cons {w w' w'' : FileIo σ} {r : Nat} {rs : List Nat} (h : Meets w r w')
      (hrest : Served w' rs w'') : Served w (r :: rs) w''

/-! ## One call -/

theorem transfer_ok {w : FileIo σ} {x : Comp σ Nat} {r : Nat} {t : σ} (offset : Option Int)
    (h : x w.fs = .ok r t) : FileIo.transfer offset x w =
      .ok r { w with fs := t, log := w.log ++ [⟨offset, r⟩] } := by
  simp only [FileIo.transfer, h]

theorem transfer_fault {w : FileIo σ} {x : Comp σ Nat} {e : Fault} {t : σ} (offset : Option Int)
    (h : x w.fs = .fault e t) :
    FileIo.transfer offset x w = .fault e { w with fs := t } := by
  simp only [FileIo.transfer, h]

theorem meets_logged {w w' : FileIo σ} {t : Transfer} (r : Nat) (h : w'.log = w.log ++ [t]) :
    Meets w r w' ↔ r = t.result ∧ (w.file.type = .entry →
      t.offset = some (w.file.position : Int) ∧ w'.file.position = advance w.file.position r) := by
  constructor
  · intro hmeets
    cases hmeets with
    | inl htransfers =>
      obtain ⟨u, hlog, hrest⟩ := htransfers
      rw [h, List.append_cancel_left_eq, List.singleton_inj] at hlog
      rw [hlog]
      exact hrest
    | inr hrefused =>
      rw [hrefused.2] at h
      simp at h
  · intro hrest
    exact Or.inl ⟨t, h, hrest⟩

/-- The numbers that an `int` and then a `size_t` keep. -/
theorem sizeOf_eq_iff (r : Nat) :
    FileIo.sizeOf r = r ↔ r < 2 ^ 31 ∨ 2 ^ 64 - 2 ^ 31 ≤ r ∧ r < 2 ^ 64 := by
  simp only [FileIo.sizeOf, toUint64, toInt, Int.bmod_def]
  omega

theorem sizeOf_sizeOf (r : Int) : FileIo.sizeOf (FileIo.sizeOf r) = FileIo.sizeOf r := by
  simp only [FileIo.sizeOf, toUint64, toInt, Int.bmod_def]
  omega

/-- A result moves the position as it should just if it is an `int` that is no error. -/
theorem position_iff {position r : Nat} (hp : position < 2 ^ 31) :
    (FileIo.sizeOf r = r ∧ toUint64 (position + toInt r) = advance position r) ↔ r < 2 ^ 31 := by
  rw [sizeOf_eq_iff]
  constructor
  · rintro ⟨hsmall | ⟨hhigh, hlt⟩, hpos⟩
    · exact hsmall
    · -- a negative result takes the position back
      have hneg : toInt r = (r : Int) - 2 ^ 64 := by
        rw [toInt, Int.bmod_def]
        omega
      have herror : ¬ isCount r := by
        rw [isCount]
        omega
      rw [hneg, advance, if_neg herror, toUint64] at hpos
      omega
  · intro hr
    have hnat : toInt r = (r : Int) := by
      rw [toInt, Int.bmod_def]
      omega
    have hcount : isCount r := by
      rw [isCount]
      omega
    refine ⟨Or.inl hr, ?_⟩
    rw [hnat, advance, if_pos hcount, toUint64]
    omega

/-- A virtual call whose result is returned as an `int`. -/
theorem plain_meets_iff {w : FileIo σ} (hentry : w.file.type ≠ .entry) (offset : Option Int)
    (x : Comp σ Nat) (f : Nat → Nat) :
    (∃ r w', (FileIo.transfer offset x >>= fun r => pure (f r)) w = .ok r w' ∧ Meets w r w') ↔
      Returns x w.fs fun r => f r = r := by
  cases hx : x w.fs with
  | ok r t =>
    have hrun : (FileIo.transfer offset x >>= fun r => pure (f r)) w = _ :=
      bind_ok (transfer_ok offset hx) _
    rw [hrun]
    constructor
    · rintro ⟨_, _, hok, hmeets⟩
      cases hok
      exact ⟨r, t, hx, ((meets_logged _ rfl).mp hmeets).1⟩
    · rintro ⟨r', t', hx', hr⟩
      rw [hx] at hx'
      cases hx'
      exact ⟨_, _, rfl, (meets_logged _ rfl).mpr ⟨hr, fun h => absurd h hentry⟩⟩
  | fault e t =>
    have hrun : (FileIo.transfer offset x >>= fun r => pure (f r)) w = _ :=
      bind_fault (transfer_fault offset hx) _
    rw [hrun]
    constructor
    · rintro ⟨_, _, hok, -⟩
      cases hok
    · rintro ⟨r', t', hx', -⟩
      rw [hx] at hx'
      cases hx'

/-- A virtual call for a regular file, at the offset `off`; `g` is what becomes of the file. -/
theorem entry_meets_iff {w : FileIo σ} (hentry : w.file.type = .entry) (off : Int)
    (x : Comp σ Nat) (g : Nat → File → File)
    (hg : ∀ r f, (g r f).position = toUint64 (f.position + toInt r)) :
    (∃ r w', (FileIo.transfer (some off) x >>= fun r =>
        modify (fun w => { w with file := g r w.file }) >>= fun _ =>
          pure (FileIo.sizeOf r)) w = .ok r w' ∧ Meets w r w') ↔
      off = w.file.position ∧ Returns x w.fs fun r => FileIo.sizeOf r = r ∧
        toUint64 (w.file.position + toInt r) = advance w.file.position r := by
  cases hx : x w.fs with
  | ok r t =>
    have hrun : (FileIo.transfer (some off) x >>= fun r =>
        modify (fun w => { w with file := g r w.file }) >>= fun _ =>
          pure (FileIo.sizeOf r)) w =
        .ok (FileIo.sizeOf r)
          { w with file := g r w.file, fs := t, log := w.log ++ [⟨some off, r⟩] } :=
      bind_ok (transfer_ok (some off) hx) _
    rw [hrun]
    constructor
    · rintro ⟨_, _, hok, hmeets⟩
      obtain ⟨rfl, rfl⟩ := Res.ok.inj hok
      obtain ⟨hr, hpos⟩ := (meets_logged (t := ⟨some off, r⟩) _ rfl).mp hmeets
      obtain ⟨hoff, hmoved⟩ := hpos hentry
      refine ⟨Option.some.inj hoff, r, t, hx, hr, ?_⟩
      rw [hr] at hmoved
      exact (hg r w.file).symm.trans hmoved
    · rintro ⟨hoff, r', t', hx', hr, hmoved⟩
      rw [hx] at hx'
      cases hx'
      refine ⟨_, _, rfl, (meets_logged (t := ⟨some off, r⟩) _ rfl).mpr
        ⟨hr, fun _ => ⟨congrArg some hoff, ?_⟩⟩⟩
      rw [hr]
      exact (hg r w.file).trans hmoved
  | fault e t =>
    have hrun : (FileIo.transfer (some off) x >>= fun r =>
        modify (fun w => { w with file := g r w.file }) >>= fun _ =>
          pure (FileIo.sizeOf r)) w = _ := bind_fault (transfer_fault (some off) hx) _
    rw [hrun]
    constructor
    · rintro ⟨_, _, hok, -⟩
      cases hok
    · rintro ⟨-, r', t', hx', -⟩
      rw [hx] at hx'
      cases hx'

theorem returns_congr {x : Comp σ Nat} {s : σ} {P Q : Nat → Prop} (h : ∀ r, P r ↔ Q r) :
    Returns x s P ↔ Returns x s Q := by
  simp only [Returns, h]

theorem getFs_some {w : FileIo σ} {fs : FileSystem} (h : w.fileSystem = some fs) :
    FileIo.getFs w = .ok fs w := by
  simp only [FileIo.getFs, read_bind, h]
  rfl

theorem getFs_none {w : FileIo σ} (h : w.fileSystem = none) :
    FileIo.getFs w = .fault (.undefined "null file system") w := by
  simp only [FileIo.getFs, read_bind, h]
  rfl

theorem getPipe_some {w : FileIo σ} {p : Nat} (h : w.file.pip = some p) :
    FileIo.getPipe w = .ok p w := by
  simp only [FileIo.getPipe, read_bind, h]
  rfl

theorem getPipe_none {w : FileIo σ} (h : w.file.pip = none) :
    FileIo.getPipe w = .fault (.undefined "null pipe") w := by
  simp only [FileIo.getPipe, read_bind, h]
  rfl

/-- What comes first may fault; otherwise it leaves the state and gives the value of `o`. -/
theorem meets_of_first {α : Type} {w : FileIo σ} {get : IoComp σ α} {o : Option α}
    {k : α → IoComp σ Nat} {P : α → Prop} {e : Fault}
    (hsome : ∀ a, o = some a → get w = .ok a w) (hnone : o = none → get w = .fault e w)
    (hk : ∀ a, (∃ r w', k a w = .ok r w' ∧ Meets w r w') ↔ P a) :
    (∃ r w', (get >>= k) w = .ok r w' ∧ Meets w r w') ↔ ∃ a, o = some a ∧ P a := by
  cases ho : o with
  | none =>
    rw [bind_fault (hnone ho)]
    constructor
    · rintro ⟨_, _, hok, -⟩
      cases hok
    · rintro ⟨_, hfalse, -⟩
      cases hfalse
  | some a =>
    rw [bind_ok (hsome a ho), hk a]
    constructor
    · intro hP
      exact ⟨a, rfl, hP⟩
    · rintro ⟨b, hb, hP⟩
      cases hb
      exact hP

theorem toInt_eq_iff (position : Nat) : toInt position = position ↔ position < 2 ^ 31 := by
  rw [toInt, Int.bmod_def]
  omega

theorem File.moved_position (f : File) (position : Nat) : (f.moved position).position = position :=
  rfl

theorem File.grown_position (f : File) (position : Nat) : (f.grown position).position = position :=
  rfl

theorem readBy_position (r : Nat) (f : File) :
    (FileIo.readBy r f).position = toUint64 (f.position + toInt r) := File.moved_position f _

theorem writtenBy_position (r : Nat) (f : File) :
    (FileIo.writtenBy r f).position = toUint64 (f.position + toInt r) := File.grown_position f _

theorem vfsread_meets_iff (ops : FileOps σ) (w : FileIo σ) (user : Bool) (dst n : Nat) :
    (∃ r w', FileIo.vfsread ops user dst n w = .ok r w' ∧ Meets w r w') ↔
      CallOk ops w (.read user dst n) := by
  simp only [FileIo.vfsread, read_bind, CallOk]
  cases hreadable : w.file.readable with
  | false =>
    rw [if_pos rfl]
    exact ⟨fun _ h => absurd h (by decide), fun _ => ⟨sizeError, w, rfl, Or.inr ⟨rfl, rfl⟩⟩⟩
  | true =>
    rw [if_neg (by decide)]
    simp only [true_implies]
    cases htype : w.file.type with
    | none =>
      refine ⟨?_, False.elim⟩
      rintro ⟨_, _, hok, -⟩
      cases hok
    | pipe =>
      have hentry : w.file.type ≠ .entry := by simp [htype]
      refine meets_of_first (fun _ => getPipe_some) getPipe_none fun p => ?_
      rw [plain_meets_iff hentry none _ fun r => FileIo.sizeOf r]
      constructor
      · rintro ⟨r, t, hrun, -⟩
        exact ⟨r, t, hrun, trivial⟩
      · rintro ⟨r, t, hrun, -⟩
        obtain ⟨r', u, -, hpure⟩ := bind_eq_ok.mp hrun
        cases hpure
        exact ⟨_, _, hrun, sizeOf_sizeOf r'⟩
    | device =>
      have hentry : w.file.type ≠ .entry := by simp [htype]
      refine meets_of_first (fun _ => getFs_some) getFs_none fun fs => ?_
      exact plain_meets_iff hentry (some 0) _ fun r => FileIo.sizeOf r
    | entry =>
      have hbody : ∀ fs, (∃ r w', (FileIo.transfer (some (toInt w.file.position))
          (ops.read fs w.file.filepath user dst (toInt w.file.position) (toInt n)) >>= fun r =>
          modify (fun w => { w with file := FileIo.readBy r w.file }) >>= fun _ =>
          pure (FileIo.sizeOf r)) w = .ok r w' ∧ Meets w r w') ↔
          w.file.position < 2 ^ 31 ∧
          Returns (ops.read fs w.file.filepath user dst w.file.position (toInt n)) w.fs
            (· < 2 ^ 31) := by
        intro fs
        rw [entry_meets_iff htype _ _ _ readBy_position, toInt_eq_iff]
        refine and_congr_right fun hp => ?_
        rw [(toInt_eq_iff _).mpr hp]
        exact returns_congr fun r => position_iff hp
      rw [meets_of_first (fun _ => getFs_some) getFs_none hbody]
      constructor
      · rintro ⟨fs, hfs, hp, hreturns⟩
        exact ⟨hp, fs, hfs, hreturns⟩
      · rintro ⟨hp, fs, hfs, hreturns⟩
        exact ⟨fs, hfs, hp, hreturns⟩

theorem vfswrite_meets_iff (ops : FileOps σ) (w : FileIo σ) (user : Bool) (src n : Nat) :
    (∃ r w', FileIo.vfswrite ops user src n w = .ok r w' ∧ Meets w r w') ↔
      CallOk ops w (.write user src n) := by
  simp only [FileIo.vfswrite, read_bind, CallOk]
  cases hwritable : w.file.writable with
  | false =>
    rw [if_pos rfl]
    exact ⟨fun _ h => absurd h (by decide), fun _ => ⟨sizeError, w, rfl, Or.inr ⟨rfl, rfl⟩⟩⟩
  | true =>
    rw [if_neg (by decide)]
    simp only [true_implies]
    cases htype : w.file.type with
    | none =>
      refine ⟨?_, False.elim⟩
      rintro ⟨_, _, hok, -⟩
      cases hok
    | pipe =>
      have hentry : w.file.type ≠ .entry := by simp [htype]
      refine meets_of_first (fun _ => getPipe_some) getPipe_none fun p => ?_
      rw [plain_meets_iff hentry none _ fun _ => 0]
      exact returns_congr fun r => eq_comm
    | device =>
      have hentry : w.file.type ≠ .entry := by simp [htype]
      refine meets_of_first (fun _ => getFs_some) getFs_none fun fs => ?_
      exact plain_meets_iff hentry (some 0) _ fun r => FileIo.sizeOf r
    | entry =>
      have hbody : ∀ fs, (∃ r w', (FileIo.transfer (some 0)
          (ops.write fs w.file.filepath user src 0 (toInt n)) >>= fun r =>
          modify (fun w => { w with file := FileIo.writtenBy r w.file }) >>= fun _ =>
          pure (FileIo.sizeOf r)) w = .ok r w' ∧ Meets w r w') ↔
          w.file.position = 0 ∧
          Returns (ops.write fs w.file.filepath user src 0 (toInt n)) w.fs (· < 2 ^ 31) := by
        intro fs
        rw [entry_meets_iff htype _ _ _ writtenBy_position, eq_comm, Int.natCast_eq_zero]
        refine and_congr_right fun hp => returns_congr fun r => position_iff ?_
        omega
      rw [meets_of_first (fun _ => getFs_some) getFs_none hbody]
      constructor
      · rintro ⟨fs, hfs, hp, hreturns⟩
        exact ⟨hp, fs, hfs, hreturns⟩
      · rintro ⟨hp, fs, hfs, hreturns⟩
        exact ⟨fs, hfs, hp, hreturns⟩

/-- One call does what it is for just where it goes right. -/
theorem call_meets_iff (ops : FileOps σ) (w : FileIo σ) (c : IoCall) :
    (∃ r w', c.run ops w = .ok r w' ∧ Meets w r w') ↔ CallOk ops w c := by
  cases c with
  | read user dst n => exact vfsread_meets_iff ops w user dst n
  | write user src n => exact vfswrite_meets_iff ops w user src n

/-! ## Runs -/

theorem keeps_transfer {γ : Type} {f : FileIo σ → γ} (offset : Option Int) (x : Comp σ Nat)
    (h : ∀ w s l, f { w with fs := s, log := l } = f w) :
    Keeps f (FileIo.transfer offset x) := by
  intro w r w' hrun
  unfold FileIo.transfer at hrun
  cases hx : x w.fs with
  | ok a t =>
    rw [hx] at hrun
    cases hrun
    exact h w t _
  | fault e t =>
    rw [hx] at hrun
    cases hrun

theorem keeps_getFs {γ : Type} (f : FileIo σ → γ) : Keeps f (@FileIo.getFs σ) := by
  refine keeps_bind (keeps_read f) fun w => ?_
  cases w.fileSystem with
  | some fs => exact keeps_pure f fs
  | none => exact keeps_fault f _

theorem keeps_getPipe {γ : Type} (f : FileIo σ → γ) : Keeps f (@FileIo.getPipe σ) := by
  refine keeps_bind (keeps_read f) fun w => ?_
  cases w.file.pip with
  | some p => exact keeps_pure f p
  | none => exact keeps_fault f _

/-- What `open` has set in the file stays as it is. -/
def FileIo.opened (w : FileIo σ) : FileType × Bool × Bool × CStr × MountTable :=
  (w.file.type, w.file.readable, w.file.writable, w.file.filepath, w.mounted)

theorem opened_moved (w : FileIo σ) (position : Nat) :
    FileIo.opened { w with file := w.file.moved position } = FileIo.opened w := rfl

theorem opened_grown (w : FileIo σ) (position : Nat) :
    FileIo.opened { w with file := w.file.grown position } = FileIo.opened w := rfl

theorem keeps_run (ops : FileOps σ) (c : IoCall) :
    Keeps (@FileIo.opened σ) (c.run ops) := by
  cases c with
  | read user dst n =>
    refine keeps_bind (keeps_read _) fun w => keeps_ite (keeps_pure _ _) ?_
    cases w.file.type with
    | none => exact keeps_fault _ _
    | pipe => exact keeps_bind (keeps_getPipe _) fun p =>
        keeps_bind (keeps_transfer _ _ fun _ _ _ => rfl) fun r => keeps_pure _ _
    | device => exact keeps_bind (keeps_getFs _) fun fs =>
        keeps_bind (keeps_transfer _ _ fun _ _ _ => rfl) fun r => keeps_pure _ _
    | entry => exact keeps_bind (keeps_getFs _) fun fs =>
        keeps_bind (keeps_transfer _ _ fun _ _ _ => rfl) fun r =>
          keeps_bind (keeps_modify fun w => opened_moved w _) fun _ => keeps_pure _ _
  | write user src n =>
    refine keeps_bind (keeps_read _) fun w => keeps_ite (keeps_pure _ _) ?_
    cases w.file.type with
    | none => exact keeps_fault _ _
    | pipe => exact keeps_bind (keeps_getPipe _) fun p =>
        keeps_bind (keeps_transfer _ _ fun _ _ _ => rfl) fun r => keeps_pure _ _
    | device => exact keeps_bind (keeps_getFs _) fun fs =>
        keeps_bind (keeps_transfer _ _ fun _ _ _ => rfl) fun r => keeps_pure _ _
    | entry => exact keeps_bind (keeps_getFs _) fun fs =>
        keeps_bind (keeps_transfer _ _ fun _ _ _ => rfl) fun r =>
          keeps_bind (keeps_modify fun w => opened_grown w _) fun _ => keeps_pure _ _

theorem Meets.position {w w' : FileIo σ} {r : Nat} (h : Meets w r w')
    (hentry : w.file.type = .entry) : w'.file.position = advance w.file.position r := by
  cases h with
  | inl htransfers =>
    obtain ⟨t, -, -, hpos⟩ := htransfers
    exact (hpos hentry).2
  | inr hrefused =>
    have herror : ¬ isCount sizeError := by decide
    rw [hrefused.1, hrefused.2, advance, if_neg herror]

/-- A run whose calls all go right: every call does what it is for, and the position has moved
over the bytes transferred. -/
theorem runIo_served (ops : FileOps σ) (cs : List IoCall) (w : FileIo σ) (h : RunOk ops cs w) :
    ∃ rs w', runIo ops cs w = .ok rs w' ∧ Served w rs w' ∧
      (w.file.type = .entry → w'.file.position = rs.foldl advance w.file.position) := by
  induction cs generalizing w with
  | nil => exact ⟨[], w, rfl, .nil w, fun _ => rfl⟩
  | cons c cs ih =>
    obtain ⟨r, u, hrun, hmeets⟩ := (call_meets_iff ops w c).mpr h.1
    obtain ⟨rs, w', hrest, hserved, hposition⟩ := ih u (h.2 r u hrun)
    refine ⟨r :: rs, w', ?_, .cons hmeets hserved, fun hentry => ?_⟩
    · rw [runIo, bind_ok hrun, bind_ok hrest]
      rfl
    · have htype : u.file.type = w.file.type := congrArg Prod.fst (keeps_run ops c w r u hrun)
      rw [hposition (htype.trans hentry), hmeets.position hentry]
      rfl

/-! ## Two writes -/

/-- The bytes of a file after `data` is written at `off`. -/
def writeAt (bytes : List UInt8) (off : Nat) (data : List UInt8) : List UInt8 :=
  bytes.take off ++ data ++ bytes.drop (off + data.length)

/-- A file system that writes: `content` is what the file holds, and `data` what the process
has at an address. -/
structure WritesFile (ops : FileOps σ) (fs : FileSystem) (path : CStr)
    (content : σ → List UInt8) (data : Nat → Nat → List UInt8) : Prop where
  write : ∀ user src (off n : Nat) s, off ≤ (content s).length →
    ∃ t, ops.write fs path user src off n s = .ok n t ∧
      content t = writeAt (content s) off (data src n)
  length : ∀ src n, (data src n).length = n
  append : ∀ src n m, data src (n + m) = data src n ++ data (src + n) m

theorem vfswrite_run {ops : FileOps σ} {w : FileIo σ} {fs : FileSystem}
    {content : σ → List UInt8} {data : Nat → Nat → List UInt8} (hfs : w.fileSystem = some fs)
    (hlawful : WritesFile ops fs w.file.filepath content data) (hentry : w.file.type = .entry)
    (hwritable : w.file.writable = true) (user : Bool) (src : Nat) {n : Nat} (hn : n < 2 ^ 31) :
    ∃ t, FileIo.vfswrite ops user src n w = .ok n { w with
        file := FileIo.writtenBy n w.file, fs := t, log := w.log ++ [⟨some 0, n⟩] } ∧
      content t = writeAt (content w.fs) 0 (data src n) := by
  have hint : toInt n = (n : Int) := (toInt_eq_iff n).mpr hn
  have hsize : FileIo.sizeOf n = n := (sizeOf_eq_iff n).mpr (Or.inl hn)
  obtain ⟨t, hrun, hcontent⟩ := hlawful.write user src 0 n w.fs (Nat.zero_le _)
  rw [Nat.cast_zero] at hrun
  refine ⟨t, ?_, hcontent⟩
  simp only [FileIo.vfswrite, read_bind, hwritable, Bool.true_eq_false, if_false, hentry, hint]
  rw [bind_ok (getFs_some hfs), bind_ok (transfer_ok (some 0) hrun)]
  simp only [modify_bind, hsize]
  rfl

theorem writeAt_nil (bytes : List UInt8) : writeAt bytes 0 [] = bytes := by
  simp [writeAt]

theorem opened_fileSystem {w u : FileIo σ} (h : u.opened = w.opened) :
    u.file.type = w.file.type ∧ u.file.writable = w.file.writable ∧
      u.file.filepath = w.file.filepath ∧ u.fileSystem = w.fileSystem := by
  simp only [FileIo.opened, Prod.mk.injEq] at h
  obtain ⟨htype, -, hwritable, hpath, hmounted⟩ := h
  refine ⟨htype, hwritable, hpath, ?_⟩
  rw [FileIo.fileSystem, FileIo.fileSystem, hpath, hmounted]

/-- Two writes that go right leave what one write of all their bytes leaves. -/
theorem two_writes {ops : FileOps σ} {w w₁ w₂ : FileIo σ} {fs : FileSystem}
    {content : σ → List UInt8} {data : Nat → Nat → List UInt8} (hfs : w.fileSystem = some fs)
    (hlawful : WritesFile ops fs w.file.filepath content data) (hentry : w.file.type = .entry)
    (hwritable : w.file.writable = true) {user : Bool} {src n m : Nat} (hsize : n + m < 2 ^ 31)
    (hok : RunOk ops [.write user src n, .write user (src + n) m] w) {rs : List Nat} {r : Nat}
    (htwo : runIo ops [.write user src n, .write user (src + n) m] w = .ok rs w₂)
    (hone : FileIo.vfswrite ops user src (n + m) w = .ok r w₁) :
    content w₂.fs = content w₁.fs := by
  obtain ⟨t, hrun, hcontent⟩ := vfswrite_run hfs hlawful hentry hwritable user src
    (show n < 2 ^ 31 by omega)
  obtain ⟨r', u, hfirst, hmeets⟩ := (call_meets_iff ops w (.write user src n)).mpr hok.1
  have hsame := hrun.symm.trans hfirst
  have hr' : n = r' := (Res.ok.inj hsame).1
  have hfs' : t = u.fs := congrArg FileIo.fs (Res.ok.inj hsame).2
  obtain ⟨htype, hwritable', hpath, hfileSystem⟩ :=
    opened_fileSystem (keeps_run ops (.write user src n) w r' u hfirst)
  have hstart := hok.1 hwritable
  have hthen := (hok.2 r' u hfirst).1 (hwritable'.trans hwritable)
  simp only [hentry] at hstart
  simp only [htype, hentry] at hthen
  -- a write goes right at the position `0` only, so the first one was empty
  have hzero : n = 0 := by
    have hpos := hmeets.position hentry
    rw [hthen.1, hstart.1, advance, if_pos (by rw [isCount]; omega)] at hpos
    omega
  subst hzero
  obtain ⟨t₂, hrun₂, hcontent₂⟩ := vfswrite_run (hfileSystem.trans hfs) (hpath ▸ hlawful)
    (htype.trans hentry) (hwritable'.trans hwritable) user (src + 0) (show m < 2 ^ 31 by omega)
  obtain ⟨t₁, hrun₁, hcontent₁⟩ := vfswrite_run hfs hlawful hentry hwritable user src hsize
  have hw₁ : t₁ = w₁.fs := congrArg FileIo.fs (Res.ok.inj (hrun₁.symm.trans hone)).2
  have hw₂ : t₂ = w₂.fs := by
    have hlast : runIo ops [.write user (src + 0) m] u = .ok [m] _ := bind_ok hrun₂ _
    have hruns : runIo ops [.write user src 0, .write user (src + 0) m] w = _ :=
      (bind_ok hfirst _).trans (bind_ok hlast _)
    exact congrArg FileIo.fs (Res.ok.inj (hruns.symm.trans htwo)).2
  have hnil : data src 0 = [] := List.eq_nil_of_length_eq_zero (hlawful.length src 0)
  rw [← hw₁, ← hw₂, hcontent₁, hcontent₂, ← hfs', hcontent, hlawful.append, hnil, writeAt_nil,
    List.nil_append]

/-- Where all calls of a run go right, each does what it is for, the position of a regular file
moves over the bytes transferred, and of two writes the file is that of one. -/
theorem sequential_io (ops : FileOps σ) (cs : List IoCall) (w : FileIo σ)
    (h : RunOk ops cs w) :
    (∃ rs w', runIo ops cs w = .ok rs w' ∧ Served w rs w' ∧
      (w.file.type = .entry → w'.file.position = rs.foldl advance w.file.position)) ∧
    ∀ (fs : FileSystem) (content : σ → List UInt8) (data : Nat → Nat → List UInt8)
      (user : Bool) (src n m : Nat),
      cs = [.write user src n, .write user (src + n) m] → n + m < 2 ^ 31 →
      w.fileSystem = some fs → WritesFile ops fs w.file.filepath content data →
      w.file.type = .entry → w.file.writable = true →
      ∀ rs w₂ r w₁, runIo ops cs w = .ok rs w₂ →
        FileIo.vfswrite ops user src (n + m) w = .ok r w₁ → content w₂.fs = content w₁.fs := by
  refine ⟨runIo_served ops cs w h, ?_⟩
  rintro fs content data user src n m rfl hsize hfs hlawful hentry hwritable rs w₂ r w₁ htwo hone
  exact two_writes hfs hlawful hentry hwritable hsize h htwo hone

/-! ## A file in memory, and the FAT -/

/-- What the process has at an address: `a`, `b`, … at `0`, `1`, …. -/
def memData (src n : Nat) : List UInt8 := (List.range n).map fun i => UInt8.ofNat (0x61 + (src + i))

/-- One file, which is its bytes. -/
def memOps : FileOps (List UInt8) where
  read _ _ _ _ offset n := fun bytes =>
    .ok ((bytes.drop offset.toNat).take n.toNat).length bytes
  write _ _ _ src offset n := fun bytes =>
    .ok n.toNat (writeAt bytes offset.toNat (memData src n.toNat))
  piperead _ _ n := pure n
  pipewrite _ _ n := pure n

theorem memOps_writes (fs : FileSystem) (path : CStr) : WritesFile memOps fs path id memData where
  write user src off n s _ := ⟨_, rfl, rfl⟩
  length src n := by simp [memData]
  append src n m := by simp [memData, List.range_add, Nat.add_assoc]

/-- `Fat32FileSystem::read` and `write`; there is no pipe. -/
def fat32Ops : FileOps Fat32 where
  read _ path user buf offset n :=
    if user then do
      let x ← Fat32.readUser path buf offset n
      pure (x.getD sizeError)
    else do
      match ← Fat32.read path offset n with
      | none => pure sizeError
      | some bytes => do
        Comp.modify fun s => s.withBytes buf bytes
        pure bytes.length
  write _ path _ buf offset n := do
    let x ← Fat32.write path buf offset n
    pure (FileIo.sizeOf x)
  piperead _ _ _ := fault (.undefined "pipe")
  pipewrite _ _ _ := fault (.undefined "pipe")

/-- `/x` just opened. -/
def openedIo (type : FileType) (pip : Option Nat) (s : σ) : FileIo σ where
  file := { File.zero with
    filepath := [slash, 0x78]
    ref := 1
    readable := true
    writable := true
    type := type
    pip := pip }
  mounted i := if i = 0 then some rootMount else none
  fs := s
  log := []

theorem runOk_cons {ops : FileOps σ} {c : IoCall} {cs : List IoCall} {w w' : FileIo σ} {r : Nat}
    (hok : CallOk ops w c) (hrun : c.run ops w = .ok r w') (hrest : RunOk ops cs w') :
    RunOk ops (c :: cs) w := by
  refine ⟨hok, fun r' u hrun' => ?_⟩
  rw [hrun] at hrun'
  cases hrun'
  exact hrest

/-- An empty write, and then one of two bytes, to a file that holds `hello`. -/
theorem sequential_io_hello :
    (∃ rs w', runIo memOps [.write false 0 0, .write false 0 2]
        (openedIo .entry none [0x68, 0x65, 0x6c, 0x6c, 0x6f]) = .ok rs w' ∧
      Served (openedIo .entry none [0x68, 0x65, 0x6c, 0x6c, 0x6f]) rs w' ∧
      w'.file.position = rs.foldl advance 0) ∧
    ∀ rs w₂ r w₁, runIo memOps [.write false 0 0, .write false 0 2]
        (openedIo .entry none [0x68, 0x65, 0x6c, 0x6c, 0x6f]) = .ok rs w₂ →
      FileIo.vfswrite memOps false 0 2
        (openedIo .entry none [0x68, 0x65, 0x6c, 0x6c, 0x6f]) = .ok r w₁ → w₂.fs = w₁.fs := by
  have hok : RunOk memOps [.write false 0 0, .write false 0 2]
      (openedIo .entry none [0x68, 0x65, 0x6c, 0x6c, 0x6f]) := by
    refine runOk_cons (fun _ => ⟨rfl, rootMount, rfl, 0, _, rfl, by decide⟩) rfl ?_
    exact runOk_cons (fun _ => ⟨rfl, rootMount, rfl, 2, _, rfl, by decide⟩) rfl trivial
  obtain ⟨⟨rs, w', hrun, hserved, hposition⟩, htwo⟩ := sequential_io memOps _ _ hok
  exact ⟨⟨rs, w', hrun, hserved, hposition rfl⟩,
    htwo rootMount id memData false 0 0 2 rfl (by decide) rfl (memOps_writes _ _) rfl rfl⟩

/-- A second write goes over the first one; the result of a write to a pipe is lost; and the
position moves with a failed read. -/
theorem two_writes_overwrite :
    ((∀ fs path, WritesFile memOps fs path id memData) ∧
      ∃ w₂ w₁, runIo memOps [.write false 0 1, .write false 1 1] (openedIo .entry none []) =
          .ok [1, 1] w₂ ∧
        FileIo.vfswrite memOps false 0 2 (openedIo .entry none []) = .ok 2 w₁ ∧
        w₂.log = [⟨some 0, 1⟩, ⟨some 0, 1⟩] ∧ w₂.fs = [0x62] ∧ w₁.fs = [0x61, 0x62]) ∧
    (∃ w', runIo memOps [.write false 0 1] (openedIo .pipe (some 0) []) = .ok [0] w' ∧
      w'.log = [⟨none, 1⟩]) ∧
    ((runIo fat32Ops [.read false 0 1] >>= fun rs => Comp.read >>= fun w =>
        pure (rs, w.file.position)) (openedIo .entry none blankVolume)).value =
      some ([sizeError], sizeError) := by
  refine ⟨⟨memOps_writes, _, _, rfl, rfl, rfl, rfl, rfl⟩, ⟨_, rfl, rfl⟩, ?_⟩
  decide +kernel

end PageFaultOS
