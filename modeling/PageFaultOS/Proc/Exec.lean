import Mathlib.Tactic
import PageFaultOS.Proc.Lifetime
import PageFaultOS.Fs.FileIo

/-! `exec` of `proc/exec.cpp`: it builds the image of a program from an ELF file and hands it
to the process. The file system is a parameter. The variable `pagetable` is `NULL` from its
declaration on, so the image never gets a page; and as no call comes to load `satp`, the table
in use is the kernel's own, which maps nothing at address `0`. -/

namespace PageFaultOS
open Exec Exec.Comp ByteMem

/-! ## The file -/

/-- `fs->read` of a path at an offset, for a number of bytes: the bytes that it stores, or
`none` for `(size_t)-1`. -/
abbrev ReadFile (σ : Type) := CStr → Int → Int → Comp σ (Option (List UInt8))

/-- The little-endian field of `n` bytes at `a`. -/
def leField (bytes : List UInt8) (a n : Nat) : Nat := readLE (fun i => bytes.getD i 0) a n

/-- The fields of `struct elfhdr` that `exec` reads. -/
structure Elfhdr where
  magic : Nat
  entry : Nat
  phoff : Nat
  phnum : Nat
  deriving DecidableEq

def sizeofElfhdr : Nat := 64

def Elfhdr.ofBytes (bytes : List UInt8) : Elfhdr where
  magic := leField bytes 0 4
  entry := leField bytes 24 8
  phoff := leField bytes 32 8
  phnum := leField bytes 56 2

/-- The fields of `struct prohdr` that `exec` reads. -/
structure Prohdr where
  type : Nat
  off : Nat
  vaddr : Nat
  filesz : Nat
  memsz : Nat
  deriving DecidableEq

def sizeofProhdr : Nat := 56

def Prohdr.ofBytes (bytes : List UInt8) : Prohdr where
  type := leField bytes 0 4
  off := leField bytes 8 8
  vaddr := leField bytes 16 8
  filesz := leField bytes 32 8
  memsz := leField bytes 40 8

def elfMagic : Nat := 0x464C457F
def elfProgLoad : Nat := 1

/-! ## `exec` -/

structure ExecProc where
  pagetable : Nat
  kpagetable : Nat
  sz : Nat
  trapframe : Nat
  name : CStr

/-- Memory, the current process, the register `satp` and the file system. -/
structure ExecWorld (σ : Type) where
  mem : MemState
  proc : ExecProc
  satp : Nat
  fs : σ

abbrev ExecComp (σ : Type) := Comp (ExecWorld σ)

section
variable {σ : Type}

def onExecMem {α : Type} (x : MemComp α) : ExecComp σ α := fun w =>
  match x w.mem with
  | .ok a m => .ok a { w with mem := m }
  | .fault e m => .fault e { w with mem := m }

def onExecFs {α : Type} (x : Comp σ α) : ExecComp σ α := fun w =>
  match x w.fs with
  | .ok a s => .ok a { w with fs := s }
  | .fault e s => .fault e { w with fs := s }

/-- What `vfsdread` returns, by the result of `fs->read`. -/
def readCount : Option (List UInt8) → Nat
  | none => sizeError
  | some bytes => FileIo.sizeOf bytes.length

/-- The result and the bytes stored to `buffer`. -/
def vfsdread (fs : ReadFile σ) (file : CStr) (count : Nat) (offset : Int) :
    ExecComp σ (Nat × List UInt8) := do
  let r ← onExecFs (fs file (toInt offset) (toInt count))
  pure (readCount r, r.getD [])

def walkaddrAt (pagetable vaddr : Nat) : MemComp Nat :=
  if maxva ≤ vaddr then pure 0
  else do
    let pte ← walkAt pagetable vaddr false
    if pte = 0 then pure 0
    else do
      let m ← read
      let entry := readWord m.mem pte
      if entry &&& pteV = 0 then pure 0
      else if entry &&& pteU = 0 then pure 0
      else pure (pte2page entry)

def copyoutAt (pagetable dstvaddr : Nat) (src : List UInt8) : MemComp Int :=
  if pagetable = 0 ∧ 0 < src.length then walkNull (pgrounddown dstvaddr)
  else copyout pagetable dstvaddr src

/-- One round of the loop of `loadseg`; `i`, `offset` and `sz` are `uint`. -/
def loadsegRound (fs : ReadFile σ) (path : CStr) (pagetable va offset sz i : Nat) :
    ExecComp σ (Nat ⊕ Int) := do
  if ¬ i < sz then pure (.inr 0)
  else do
    let pa ← onExecMem (walkaddrAt pagetable (u64 (va + i)))
    if pa = 0 then Comp.panic "loadseg: address should exist"
    else do
      let n := if sz - i < pgsize then sz - i else pgsize
      let (r, bytes) ← vfsdread fs path n (u32 (offset + i))
      onExecMem (modify fun m => { m with mem := store m.mem pa bytes })
      if r ≠ n then pure (.inr (-1))
      else pure (.inl (u32 (i + pgsize)))

def loadseg (fs : ReadFile σ) (path : CStr) (pagetable va offset sz : Nat) : ExecComp σ Int :=
  if va % pgsize ≠ 0 then Comp.panic "loadseg: va must be page aligned"
  else loop (loadsegRound fs path pagetable va offset sz) pageRounds 0

/-- The loop over the program headers, with `n` of them to go. The result is `sz`, or `none`
for `goto bad`. -/
def loadHeaders (fs : ReadFile σ) (path : CStr) (pagetable kpagetable : Nat) :
    Nat → Int → Nat → ExecComp σ (Option Nat)
  | 0, _, sz => pure (some sz)
  | n + 1, off, sz => do
    let (r, bytes) ← vfsdread fs path sizeofProhdr off
    let ph := Prohdr.ofBytes bytes
    if r ≠ sizeofProhdr then pure none
    else if ph.type ≠ elfProgLoad then
      loadHeaders fs path pagetable kpagetable n (toInt (off + sizeofProhdr)) sz
    else if ph.memsz < ph.filesz then pure none
    else if u64 (ph.vaddr + ph.memsz) < ph.vaddr then pure none
    else do
      let sz1 ← onExecMem (uvmallocAt pagetable kpagetable sz (u64 (ph.vaddr + ph.memsz)))
      if sz1 = 0 then pure none
      else if ph.vaddr % pgsize ≠ 0 then pure none
      else do
        let r ← loadseg fs path pagetable ph.vaddr (u32 ph.off) (u32 ph.filesz)
        if r < 0 then pure none
        else loadHeaders fs path pagetable kpagetable n (toInt (off + sizeofProhdr)) sz1

def MAXARG : Nat := 32

/-- `sp -= n; sp -= sp % 16`. -/
def pushDown (sp n : Nat) : Nat :=
  let sp := u64 (sp + (2 ^ 64 - n))
  sp - sp % 16

/-- The loop over the argument strings, with those of `argv` to go: `sp` and `ustack`. -/
def pushArgs (pagetable stackbase : Nat) :
    List CStr → Nat → List Nat → MemComp (Option (Nat × List Nat))
  | [], sp, ustack => pure (some (sp, ustack ++ [0]))
  | arg :: argv, sp, ustack => do
    if MAXARG ≤ ustack.length then pure none
    else do
      let sp := pushDown sp (arg.length + 1)
      if sp < stackbase then pure none
      else do
        let r ← copyoutAt pagetable sp (arg ++ [0])
        if r < 0 then pure none
        else pushArgs pagetable stackbase argv sp (ustack ++ [sp])

/-- The arguments on the stack that ends at `sz`: `argc` and `sp`. -/
def pushStack (pagetable sz : Nat) (argv : List CStr) : MemComp (Option (Nat × Nat)) := do
  let stackbase := u64 (sz + (2 ^ 64 - pgsize))
  match ← pushArgs pagetable stackbase argv sz [] with
  | none => pure none
  | some (sp, ustack) => do
    let sp := pushDown sp (8 * ustack.length)
    if sp < stackbase then pure none
    else do
      let r ← copyoutAt pagetable sp (ustack.flatMap fun v => leBytes v 8)
      if r < 0 then pure none
      else pure (some (argv.length, sp))

/-- What is behind the last slash of a path. -/
def lastName : CStr → CStr → CStr
  | last, [] => last
  | last, c :: s => lastName (if c = slash then s else last) s

def trapframeEpc : Nat := 24
def trapframeA1 : Nat := 120

def makeSatp (pagetable : Nat) : Nat := 8 <<< 60 ||| pagetable >>> 12

/-- The end of `exec`, which cannot fail. -/
def commitImage (path : CStr) (pagetable kpagetable sz sp entry : Nat) : ExecComp σ Unit := do
  let w ← read
  let frame := w.proc.trapframe
  onExecMem (setWord (frame + trapframeA1) sp)
  modify fun w => { w with proc := { w.proc with
    name := (lastName path path).take 15
    pagetable := pagetable
    kpagetable := kpagetable
    sz := sz } }
  onExecMem (setWord (frame + trapframeEpc) entry)
  onExecMem (setWord (frame + trapframeSp) sp)
  modify fun w => { w with satp := makeSatp w.proc.kpagetable }

/-- `exec` once it has the header. -/
def execElf (fs : ReadFile σ) (path : CStr) (argv : List CStr) (pagetable kpagetable : Nat)
    (elf : Elfhdr) : ExecComp σ (Option Nat) := do
  match ← loadHeaders fs path pagetable kpagetable elf.phnum (toInt elf.phoff) 0 with
  | none => pure none
  | some sz => do
    let sz := pgrounddown sz
    let sz1 ← onExecMem (uvmallocAt pagetable kpagetable sz (u64 (sz + pgsize)))
    if sz1 = 0 then pure none
    else do
      match ← onExecMem (pushStack pagetable sz1 argv) with
      | none => pure none
      | some (argc, sp) => do
        commitImage path pagetable kpagetable sz1 sp elf.entry
        pure (some argc)

/-- `exec` once it has its kernel table. -/
def execFile (fs : ReadFile σ) (path : CStr) (argv : List CStr) (pagetable kpagetable : Nat) :
    ExecComp σ (Option Nat) := do
  let (r, bytes) ← vfsdread fs path sizeofElfhdr 0
  let elf := Elfhdr.ofBytes bytes
  if r ≠ sizeofElfhdr then pure none
  else if elf.magic ≠ elfMagic then pure none
  else execElf fs path argv pagetable kpagetable elf

/-- `exec` on the page for the kernel table: a copy of the old one, with the entries for user
space cleared. -/
def execImage (fs : ReadFile σ) (path : CStr) (argv : List CStr) (kpagetable : Nat) :
    ExecComp σ (Option Nat) := do
  let pagetable := 0
  let w ← read
  if w.proc.kpagetable = 0 then fault (.undefined "null page table")
  else do
    onExecMem (memmove kpagetable w.proc.kpagetable pgsize)
    onExecMem (forEach (List.range (px 2 maxuva)) fun i => setWord (kpagetable + 8 * i) 0)
    execFile fs path argv pagetable kpagetable

/-- `exec` up to its result: `argc`, or `none` where it fails. -/
def execBody (fs : ReadFile σ) (path : CStr) (argv : List CStr) : ExecComp σ (Option Nat) := do
  let kpagetable ← onExecMem kalloc
  if kpagetable = 0 then pure none
  else execImage fs path argv kpagetable

def exec (fs : ReadFile σ) (path : CStr) (argv : List CStr) : ExecComp σ Int := do
  match ← execBody fs path argv with
  | none => pure 0
  | some argc => pure (toInt argc)

/-! ## Where `exec` fails -/

/-- A segment that `exec` turns down before it is to be mapped. -/
def Prohdr.Refused (ph : Prohdr) : Prop :=
  ph.memsz < ph.filesz ∨ 2 ^ 64 ≤ ph.vaddr + ph.memsz ∨ ph.vaddr + ph.memsz = 0

/-- With `n` program headers to go, the next one at `off`, the file system answers, and the
load ends before a page has to be mapped: at a header that cannot be read or at a segment that
is turned down, or there is no page to map. -/
def HeadersStop (fs : ReadFile σ) (path : CStr) (noPage : Prop) : Nat → Int → σ → Prop
  | 0, _, _ => noPage
  | n + 1, off, s => ∃ r t, fs path (toInt off) (toInt sizeofProhdr) s = .ok r t ∧
    (readCount r = sizeofProhdr →
      let ph := Prohdr.ofBytes (r.getD [])
      if ph.type ≠ elfProgLoad then
        HeadersStop fs path noPage n (toInt (off + sizeofProhdr)) t
      else ph.Refused ∨ noPage)

/-- The file is turned down: it is short, it is no ELF file, or its headers end the load. -/
def ElfStops (fs : ReadFile σ) (path : CStr) (noPage : Prop) (s : σ) : Prop :=
  ∃ r t, fs path (toInt 0) (toInt sizeofElfhdr) s = .ok r t ∧
    let elf := Elfhdr.ofBytes (r.getD [])
    (readCount r = sizeofElfhdr → elf.magic = elfMagic →
      HeadersStop fs path noPage elf.phnum (toInt elf.phoff) t)

/-! ## The calls through `NULL` -/

theorem leField_lt (bytes : List UInt8) (a n : Nat) : leField bytes a n < 256 ^ n :=
  readLE_lt _ a n

variable {fs : ReadFile σ} {path : CStr} {argv : List CStr} {w w' : ExecWorld σ} {l : List Nat}

/-- The world when the file system has answered. -/
def ExecWorld.withFs (w : ExecWorld σ) (s : σ) : ExecWorld σ := { w with fs := s }

def ExecWorld.withMem (w : ExecWorld σ) (m : MemState) : ExecWorld σ := { w with mem := m }

theorem onExecMem_ok {α : Type} {x : MemComp α} {a : α} {m : MemState}
    (h : x w.mem = .ok a m) : onExecMem x w = .ok a (w.withMem m) := by
  unfold onExecMem
  rw [h]
  rfl

theorem onExecMem_eq_ok {α : Type} {x : MemComp α} {a : α} (h : onExecMem x w = .ok a w') :
    ∃ m, x w.mem = .ok a m ∧ w' = w.withMem m := by
  unfold onExecMem at h
  cases hx : x w.mem with
  | ok b m =>
    rw [hx] at h
    cases h
    exact ⟨m, rfl, rfl⟩
  | fault e m =>
    rw [hx] at h
    cases h

theorem vfsdread_ok {r : Option (List UInt8)} {t : σ} {count : Nat} {off : Int}
    (h : fs path (toInt off) (toInt count) w.fs = .ok r t) :
    vfsdread fs path count off w = .ok (readCount r, r.getD []) (w.withFs t) := by
  have hread : onExecFs (fs path (toInt off) (toInt count)) w = .ok r (w.withFs t) := by
    unfold onExecFs
    rw [h]
    rfl
  exact bind_ok hread _

theorem vfsdread_fault {e : Fault} {t : σ} {count : Nat} {off : Int}
    (h : fs path (toInt off) (toInt count) w.fs = .fault e t) :
    vfsdread fs path count off w = .fault e (w.withFs t) := by
  have hread : onExecFs (fs path (toInt off) (toInt count)) w = .fault e (w.withFs t) := by
    unfold onExecFs
    rw [h]
    rfl
  exact bind_fault hread _

/-! ## The program headers -/

/-- The part of a round of `loadHeaders` after the header has been read. -/
theorem loadHeaders_read {kpagetable n sz : Nat} {off : Int} {r : Option (List UInt8)} {t : σ}
    (h : fs path (toInt off) (toInt sizeofProhdr) w.fs = .ok r t) :
    loadHeaders fs path 0 kpagetable (n + 1) off sz w =
      (let ph := Prohdr.ofBytes (r.getD [])
      if readCount r ≠ sizeofProhdr then pure none
      else if ph.type ≠ elfProgLoad then
        loadHeaders fs path 0 kpagetable n (toInt (off + sizeofProhdr)) sz
      else if ph.memsz < ph.filesz then pure none
      else if u64 (ph.vaddr + ph.memsz) < ph.vaddr then pure none
      else do
        let sz1 ← onExecMem (uvmallocAt 0 kpagetable sz (u64 (ph.vaddr + ph.memsz)))
        if sz1 = 0 then pure none
        else if ph.vaddr % pgsize ≠ 0 then pure none
        else do
          let r ← loadseg fs path 0 ph.vaddr (u32 ph.off) (u32 ph.filesz)
          if r < 0 then pure none
          else loadHeaders fs path 0 kpagetable n (toInt (off + sizeofProhdr)) sz1 :
        ExecComp σ (Option Nat)) (w.withFs t) := by
  rw [loadHeaders, bind_ok (vfsdread_ok h)]

/-- A segment that is not turned down is to be mapped: `Uvmalloc` fails or does not return. -/
theorem loadHeaders_zero {kpagetable n : Nat} {off : Int} {sz : Nat}
    (hrun : loadHeaders fs path 0 kpagetable n off 0 w = .ok (some sz) w') : sz = 0 := by
  induction n generalizing off w with
  | zero =>
    cases hrun
    rfl
  | succ n ih =>
    cases hread : fs path (toInt off) (toInt sizeofProhdr) w.fs with
    | fault e t =>
      rw [loadHeaders, bind_fault (vfsdread_fault hread)] at hrun
      cases hrun
    | ok r t =>
      rw [loadHeaders_read hread] at hrun
      simp only at hrun
      split at hrun
      · cases hrun
      split at hrun
      · exact ih hrun
      split at hrun
      · cases hrun
      split at hrun
      · cases hrun
      obtain ⟨sz1, u, halloc, hrest⟩ := bind_eq_ok.mp hrun
      obtain ⟨m, hmem, -⟩ := onExecMem_eq_ok halloc
      rw [uvmallocAt_null_zero hmem, if_pos rfl] at hrest
      cases hrest

theorem Prohdr.ofBytes_lt (bytes : List UInt8) :
    (Prohdr.ofBytes bytes).vaddr < 2 ^ 64 ∧ (Prohdr.ofBytes bytes).memsz < 2 ^ 64 :=
  ⟨leField_lt bytes 16 8, leField_lt bytes 40 8⟩

/-- The sum of the address and the size wraps just if it is not a `uint64`. -/
theorem u64_add_lt_iff {a b : Nat} (ha : a < 2 ^ 64) (hb : b < 2 ^ 64) :
    u64 (a + b) < a ↔ 2 ^ 64 ≤ a + b := by
  rw [u64]
  omega

/-- What is to be mapped stops `exec`, unless there is no page for it. -/
theorem onExecMem_uvmallocAt_iff {kpagetable newsize : Nat}
    {k : Nat → ExecComp σ (Option Nat)} (h : FreeList w.mem l) (hk : k 0 = pure none) :
    (∃ w', (onExecMem (uvmallocAt 0 kpagetable 0 newsize) >>= k) w = .ok none w' ∨
      (onExecMem (uvmallocAt 0 kpagetable 0 newsize) >>= k) w = .ok (some 0) w' ∧ l = []) ↔
      newsize = 0 ∨ l = [] := by
  constructor
  · rintro ⟨w', hrun | ⟨-, hl⟩⟩
    · obtain ⟨r, u, halloc, -⟩ := bind_eq_ok.mp hrun
      obtain ⟨m, hmem, -⟩ := onExecMem_eq_ok halloc
      exact (uvmallocAt_null_iff h kpagetable newsize).mp ⟨r, m, hmem⟩
    · exact Or.inr hl
  · intro hstop
    refine ⟨w, Or.inl ?_⟩
    rw [bind_ok (onExecMem_ok (uvmallocAt_null_run h kpagetable hstop)), hk]
    rfl

theorem headersStop_read {noPage : Prop} {n : Nat} {off : Int} {s t : σ}
    {r : Option (List UInt8)} (h : fs path (toInt off) (toInt sizeofProhdr) s = .ok r t) :
    HeadersStop fs path noPage (n + 1) off s ↔ (readCount r = sizeofProhdr →
      if (Prohdr.ofBytes (r.getD [])).type ≠ elfProgLoad then
        HeadersStop fs path noPage n (toInt (off + sizeofProhdr)) t
      else (Prohdr.ofBytes (r.getD [])).Refused ∨ noPage) := by
  constructor
  · rintro ⟨r', t', hread, hstop⟩
    rw [h] at hread
    cases hread
    exact hstop
  · intro hstop
    exact ⟨r, t, h, hstop⟩

/-- Where the loop over the headers ends, and with it `exec`. -/
theorem loadHeaders_ends_iff (kpagetable n : Nat) (off : Int) (h : FreeList w.mem l) :
    (∃ w', loadHeaders fs path 0 kpagetable n off 0 w = .ok none w' ∨
      loadHeaders fs path 0 kpagetable n off 0 w = .ok (some 0) w' ∧ l = []) ↔
      HeadersStop fs path (l = []) n off w.fs := by
  induction n generalizing off w with
  | zero =>
    constructor
    · rintro ⟨w', hrun | ⟨-, hl⟩⟩
      · cases hrun
      · exact hl
    · intro hl
      exact ⟨w, Or.inr ⟨rfl, hl⟩⟩
  | succ n ih =>
    cases hread : fs path (toInt off) (toInt sizeofProhdr) w.fs with
    | fault e t =>
      have hfault : loadHeaders fs path 0 kpagetable (n + 1) off 0 w = .fault e (w.withFs t) := by
        rw [loadHeaders, bind_fault (vfsdread_fault hread)]
      rw [hfault]
      constructor
      · rintro ⟨w', hrun | ⟨hrun, -⟩⟩ <;> cases hrun
      · rintro ⟨r, t', hread', -⟩
        rw [hread] at hread'
        cases hread'
    | ok r t =>
      have hfree : FreeList (w.withFs t).mem l := h
      rw [loadHeaders_read hread, headersStop_read hread]
      by_cases hcount : readCount r = sizeofProhdr
      · simp only [hcount, ne_eq, not_true_eq_false, if_false, true_implies]
        generalize hph : Prohdr.ofBytes (r.getD []) = ph
        by_cases htype : ph.type = elfProgLoad
        · have hlt : ph.vaddr < 2 ^ 64 ∧ ph.memsz < 2 ^ 64 := hph ▸ Prohdr.ofBytes_lt _
          have hwrap := u64_add_lt_iff hlt.1 hlt.2
          simp only [htype, not_true_eq_false, if_false]
          by_cases hsize : ph.memsz < ph.filesz
          · simp only [if_pos hsize]
            exact ⟨fun _ => Or.inl (Or.inl hsize), fun _ => ⟨_, Or.inl rfl⟩⟩
          · by_cases hover : u64 (ph.vaddr + ph.memsz) < ph.vaddr
            · simp only [if_neg hsize, if_pos hover]
              exact ⟨fun _ => Or.inl (Or.inr (Or.inl (hwrap.mp hover))),
                fun _ => ⟨_, Or.inl rfl⟩⟩
            · have hno : ¬ 2 ^ 64 ≤ ph.vaddr + ph.memsz := mt hwrap.mpr hover
              have hsum : u64 (ph.vaddr + ph.memsz) = ph.vaddr + ph.memsz :=
                Nat.mod_eq_of_lt (Nat.lt_of_not_le hno)
              have hrefused : ph.Refused ↔ ph.vaddr + ph.memsz = 0 := by
                simp only [Prohdr.Refused, hsize, hno, false_or]
              simp only [if_neg hsize, if_neg hover]
              rw [onExecMem_uvmallocAt_iff hfree rfl, hsum, hrefused]
        · simp only [htype, not_false_eq_true, if_true]
          exact ih _ hfree
      · rw [if_pos hcount]
        exact ⟨fun _ h => absurd h hcount, fun _ => ⟨_, Or.inl rfl⟩⟩

/-! ## The process and the free pages -/

theorem keeps_onExecMem {γ α : Type} {f : ExecWorld σ → γ} (x : MemComp α)
    (h : ∀ w m, f (w.withMem m) = f w) : Keeps f (onExecMem x) := by
  intro v a v' hrun
  obtain ⟨m, -, rfl⟩ := onExecMem_eq_ok hrun
  exact h v m

theorem keeps_vfsdread {γ : Type} {f : ExecWorld σ → γ} (fs : ReadFile σ) (path : CStr)
    (count : Nat) (off : Int) (h : ∀ w s, f (w.withFs s) = f w) :
    Keeps f (vfsdread fs path count off) := by
  intro v a v' hrun
  cases hread : fs path (toInt off) (toInt count) v.fs with
  | ok r t =>
    rw [vfsdread_ok hread] at hrun
    cases hrun
    exact h v t
  | fault e t =>
    rw [vfsdread_fault hread] at hrun
    cases hrun

theorem keeps_proc_loadseg (pagetable va offset sz : Nat) :
    Keeps ExecWorld.proc (loadseg fs path pagetable va offset sz) := by
  refine keeps_ite (keeps_fault _ _) (keeps_loop (fun i => ?_) _ _)
  refine keeps_ite (keeps_pure _ _) (keeps_bind (keeps_onExecMem _ fun _ _ => rfl) fun pa => ?_)
  refine keeps_ite (keeps_fault _ _) (keeps_bind (keeps_vfsdread _ _ _ _ fun _ _ => rfl) ?_)
  rintro ⟨r, bytes⟩
  exact keeps_bind (keeps_onExecMem _ fun _ _ => rfl) fun _ =>
    keeps_ite (keeps_pure _ _) (keeps_pure _ _)

theorem keeps_proc_loadHeaders (pagetable kpagetable n : Nat) (off : Int) (sz : Nat) :
    Keeps ExecWorld.proc (loadHeaders fs path pagetable kpagetable n off sz) := by
  induction n generalizing off sz with
  | zero => exact keeps_pure _ _
  | succ n ih =>
    refine keeps_bind (keeps_vfsdread _ _ _ _ fun _ _ => rfl) ?_
    rintro ⟨r, bytes⟩
    refine keeps_ite (keeps_pure _ _) (keeps_ite (ih _ _) (keeps_ite (keeps_pure _ _) ?_))
    refine keeps_ite (keeps_pure _ _) (keeps_bind (keeps_onExecMem _ fun _ _ => rfl) fun sz1 => ?_)
    refine keeps_ite (keeps_pure _ _) (keeps_ite (keeps_pure _ _) ?_)
    exact keeps_bind (keeps_proc_loadseg _ _ _ _) fun r => keeps_ite (keeps_pure _ _) (ih _ _)

/-- With `pagetable` at `NULL` the image is never handed over. -/
theorem execElf_fails {kpagetable : Nat} {elf : Elfhdr} {x : Option Nat}
    (hrun : execElf fs path argv 0 kpagetable elf w = .ok x w') :
    x = none ∧ w'.proc = w.proc := by
  obtain ⟨y, u, hload, hrest⟩ := bind_eq_ok.mp hrun
  have hproc : u.proc = w.proc := keeps_proc_loadHeaders _ _ _ _ _ w y u hload
  cases y with
  | none =>
    cases hrest
    exact ⟨rfl, hproc⟩
  | some sz =>
    have hzero := loadHeaders_zero hload
    subst hzero
    simp only [pgrounddown_zero] at hrest
    obtain ⟨sz1, v, halloc, hrest⟩ := bind_eq_ok.mp hrest
    obtain ⟨m, hmem, rfl⟩ := onExecMem_eq_ok halloc
    rw [uvmallocAt_null_zero hmem, if_pos rfl] at hrest
    cases hrest
    exact ⟨rfl, hproc⟩

theorem execFile_fails {kpagetable : Nat} {x : Option Nat}
    (hrun : execFile fs path argv 0 kpagetable w = .ok x w') : x = none ∧ w'.proc = w.proc := by
  obtain ⟨⟨r, bytes⟩, u, hread, hrest⟩ := bind_eq_ok.mp hrun
  have hproc : u.proc = w.proc := keeps_vfsdread _ _ _ _ (fun _ _ => rfl) w _ u hread
  simp only at hrest
  split at hrest
  · cases hrest
    exact ⟨rfl, hproc⟩
  · split at hrest
    · cases hrest
      exact ⟨rfl, hproc⟩
    · obtain ⟨hx, hsame⟩ := execElf_fails hrest
      exact ⟨hx, hsame.trans hproc⟩

/-- The new kernel table in memory. -/
def tableCopied (m : MemState) (kpagetable src : Nat) : MemState :=
  (List.range (px 2 maxuva)).foldl
    (fun m i => { m with mem := writeWord m.mem (kpagetable + 8 * i) 0 })
    { m with mem := move m.mem kpagetable src pgsize }

theorem execImage_run {kpagetable : Nat} (h : w.proc.kpagetable ≠ 0) :
    execImage fs path argv kpagetable w = execFile fs path argv 0 kpagetable
      (w.withMem (tableCopied w.mem kpagetable w.proc.kpagetable)) := by
  have hmove : onExecMem (memmove kpagetable w.proc.kpagetable pgsize) w = .ok ()
      (w.withMem { w.mem with mem := move w.mem.mem kpagetable w.proc.kpagetable pgsize }) :=
    onExecMem_ok rfl
  have hclear : onExecMem (forEach (List.range (px 2 maxuva))
        fun i => setWord (kpagetable + 8 * i) 0)
      (w.withMem { w.mem with mem := move w.mem.mem kpagetable w.proc.kpagetable pgsize }) =
      .ok () (w.withMem (tableCopied w.mem kpagetable w.proc.kpagetable)) :=
    onExecMem_ok (forEach_modify
      (fun i (m : MemState) => { m with mem := writeWord m.mem (kpagetable + 8 * i) 0 }) _ _)
  unfold execImage
  simp only [read_bind, if_neg h]
  rw [bind_ok hmove, bind_ok hclear]

/-- A process without a kernel table of its own. -/
theorem execImage_null {kpagetable : Nat} (h : w.proc.kpagetable = 0) :
    execImage fs path argv kpagetable w = .fault (.undefined "null page table") w := by
  unfold execImage
  simp only [read_bind, if_pos h, fault_apply]

theorem execBody_fails {x : Option Nat} (hrun : execBody fs path argv w = .ok x w') :
    x = none ∧ w'.proc = w.proc := by
  obtain ⟨page, u, hk, hrest⟩ := bind_eq_ok.mp hrun
  obtain ⟨m, -, rfl⟩ := onExecMem_eq_ok hk
  split at hrest
  · cases hrest
    exact ⟨rfl, rfl⟩
  · by_cases htable : (w.withMem m).proc.kpagetable = 0
    · rw [execImage_null htable] at hrest
      cases hrest
    · rw [execImage_run htable] at hrest
      obtain ⟨hx, hproc⟩ := execFile_fails hrest
      exact ⟨hx, hproc⟩

/-- While the headers are read no page is taken. -/
theorem loadHeaders_mem {kpagetable n : Nat} {off : Int} {x : Option Nat} (h : FreeList w.mem l)
    (hrun : loadHeaders fs path 0 kpagetable n off 0 w = .ok x w') : w'.mem = w.mem := by
  induction n generalizing off w with
  | zero =>
    cases hrun
    rfl
  | succ n ih =>
    cases hread : fs path (toInt off) (toInt sizeofProhdr) w.fs with
    | fault e t =>
      rw [loadHeaders, bind_fault (vfsdread_fault hread)] at hrun
      cases hrun
    | ok r t =>
      have hfree : FreeList (w.withFs t).mem l := h
      rw [loadHeaders_read hread] at hrun
      simp only at hrun
      split at hrun
      · cases hrun
        rfl
      split at hrun
      · have hmem := ih hfree hrun
        exact hmem
      split at hrun
      · cases hrun
        rfl
      split at hrun
      · cases hrun
        rfl
      obtain ⟨sz1, u, halloc, hrest⟩ := bind_eq_ok.mp hrun
      obtain ⟨m, hmem, rfl⟩ := onExecMem_eq_ok halloc
      obtain ⟨rfl, rfl⟩ := uvmallocAt_null hfree hmem
      rw [if_pos rfl] at hrest
      cases hrest
      rfl

theorem execElf_mem {kpagetable : Nat} {elf : Elfhdr} {x : Option Nat} (h : FreeList w.mem l)
    (hrun : execElf fs path argv 0 kpagetable elf w = .ok x w') : w'.mem = w.mem := by
  obtain ⟨y, u, hload, hrest⟩ := bind_eq_ok.mp hrun
  have hmem := loadHeaders_mem h hload
  cases y with
  | none =>
    cases hrest
    exact hmem
  | some sz =>
    have hzero := loadHeaders_zero hload
    subst hzero
    simp only [pgrounddown_zero] at hrest
    obtain ⟨sz1, v, halloc, hrest⟩ := bind_eq_ok.mp hrest
    obtain ⟨m, hstack, rfl⟩ := onExecMem_eq_ok halloc
    obtain ⟨rfl, rfl⟩ := uvmallocAt_null (hmem ▸ h : FreeList u.mem l) hstack
    rw [if_pos rfl] at hrest
    cases hrest
    exact hmem

theorem execElf_returns_iff {kpagetable : Nat} {elf : Elfhdr} (h : FreeList w.mem l) :
    (∃ x w', execElf fs path argv 0 kpagetable elf w = .ok x w') ↔
      HeadersStop fs path (l = []) elf.phnum (toInt elf.phoff) w.fs := by
  rw [← loadHeaders_ends_iff kpagetable _ _ h]
  constructor
  · rintro ⟨x, w', hrun⟩
    obtain ⟨y, u, hload, hrest⟩ := bind_eq_ok.mp hrun
    cases y with
    | none => exact ⟨u, Or.inl hload⟩
    | some sz =>
      have hzero := loadHeaders_zero hload
      subst hzero
      simp only [pgrounddown_zero] at hrest
      obtain ⟨sz1, v, halloc, -⟩ := bind_eq_ok.mp hrest
      obtain ⟨m, hstack, -⟩ := onExecMem_eq_ok halloc
      have hfree : FreeList u.mem l := loadHeaders_mem h hload ▸ h
      have hstop := (uvmallocAt_null_iff hfree kpagetable _).mp ⟨sz1, m, hstack⟩
      exact ⟨u, Or.inr ⟨hload, hstop.resolve_left (by decide)⟩⟩
  · rintro ⟨u, hload | ⟨hload, hl⟩⟩
    · exact ⟨none, u, bind_ok hload _⟩
    · have hfree : FreeList u.mem l := loadHeaders_mem h hload ▸ h
      have hstack := onExecMem_ok (uvmallocAt_null_run hfree kpagetable
        (Or.inr hl : u64 (0 + pgsize) = 0 ∨ l = []))
      refine ⟨none, u, (bind_ok hload _).trans ?_⟩
      simp only [pgrounddown_zero]
      rw [bind_ok hstack, if_pos rfl]
      rfl

theorem execFile_read {kpagetable : Nat} {r : Option (List UInt8)} {t : σ}
    (h : fs path (toInt 0) (toInt sizeofElfhdr) w.fs = .ok r t) :
    execFile fs path argv 0 kpagetable w =
      (if readCount r ≠ sizeofElfhdr then pure none
      else if (Elfhdr.ofBytes (r.getD [])).magic ≠ elfMagic then pure none
      else execElf fs path argv 0 kpagetable (Elfhdr.ofBytes (r.getD [])) :
        ExecComp σ (Option Nat)) (w.withFs t) := by
  unfold execFile
  rw [bind_ok (vfsdread_ok h)]

theorem execFile_mem {kpagetable : Nat} {x : Option Nat} (h : FreeList w.mem l)
    (hrun : execFile fs path argv 0 kpagetable w = .ok x w') : w'.mem = w.mem := by
  cases hread : fs path (toInt 0) (toInt sizeofElfhdr) w.fs with
  | fault e t =>
    unfold execFile at hrun
    rw [bind_fault (vfsdread_fault hread)] at hrun
    cases hrun
  | ok r t =>
    have hfree : FreeList (w.withFs t).mem l := h
    rw [execFile_read hread] at hrun
    split at hrun
    · cases hrun
      rfl
    · split at hrun
      · cases hrun
        rfl
      · have hmem := execElf_mem hfree hrun
        exact hmem

theorem elfStops_read {noPage : Prop} {s t : σ} {r : Option (List UInt8)}
    (h : fs path (toInt 0) (toInt sizeofElfhdr) s = .ok r t) :
    ElfStops fs path noPage s ↔ (readCount r = sizeofElfhdr →
      (Elfhdr.ofBytes (r.getD [])).magic = elfMagic →
        HeadersStop fs path noPage (Elfhdr.ofBytes (r.getD [])).phnum
          (toInt (Elfhdr.ofBytes (r.getD [])).phoff) t) := by
  constructor
  · rintro ⟨r', t', hread, hstop⟩
    rw [h] at hread
    cases hread
    exact hstop
  · intro hstop
    exact ⟨r, t, h, hstop⟩

theorem execFile_returns_iff {kpagetable : Nat} (h : FreeList w.mem l) :
    (∃ x w', execFile fs path argv 0 kpagetable w = .ok x w') ↔
      ElfStops fs path (l = []) w.fs := by
  cases hread : fs path (toInt 0) (toInt sizeofElfhdr) w.fs with
  | fault e t =>
    have hfault : execFile fs path argv 0 kpagetable w = .fault e (w.withFs t) := by
      unfold execFile
      rw [bind_fault (vfsdread_fault hread)]
    rw [hfault]
    constructor
    · rintro ⟨x, w', hrun⟩
      cases hrun
    · rintro ⟨r, t', hread', -⟩
      rw [hread] at hread'
      cases hread'
  | ok r t =>
    have hfree : FreeList (w.withFs t).mem l := h
    rw [execFile_read hread, elfStops_read hread]
    by_cases hcount : readCount r = sizeofElfhdr
    · rw [if_neg (not_not_intro hcount)]
      by_cases hmagic : (Elfhdr.ofBytes (r.getD [])).magic = elfMagic
      · rw [if_neg (not_not_intro hmagic), execElf_returns_iff hfree]
        exact ⟨fun hstop _ _ => hstop, fun hstop => hstop hcount hmagic⟩
      · rw [if_pos hmagic]
        exact ⟨fun _ _ h => absurd h hmagic, fun _ => ⟨none, _, rfl⟩⟩
    · rw [if_pos hcount]
      exact ⟨fun _ h => absurd h hcount, fun _ => ⟨none, _, rfl⟩⟩

/-- The copy of the kernel table stays in its page. -/
theorem freeList_tableCopied {m : MemState} {kpagetable : Nat} (h : FreeList m l)
    (htaken : TakenPage m l kpagetable) (src : Nat) :
    FreeList (tableCopied m kpagetable src) l := by
  have hmoved : FreeList { m with mem := move m.mem kpagetable src pgsize } l :=
    htaken.write h _ fun b hb => move_apply_of_outside _ _ _ _ _ hb
  have hfold : ∀ (is : List Nat) (m : MemState), (∀ i ∈ is, i < 512) → FreeList m l →
      TakenPage m l kpagetable → FreeList (is.foldl
        (fun m i => { m with mem := writeWord m.mem (kpagetable + 8 * i) 0 }) m) l := by
    intro is
    induction is with
    | nil => exact fun m _ hm _ => hm
    | cons i is ih =>
      intro m his hm ht
      have hi := his i List.mem_cons_self
      refine ih _ (fun j hj => his j (List.mem_cons_of_mem _ hj)) ?_
        ⟨ht.managed, ht.ne_zero, ht.notFree⟩
      exact ht.write hm _ fun b hb => writeWord_apply_of_outside _ _ _ _ (by omega)
  refine hfold _ _ (fun i hi => ?_) hmoved ⟨htaken.managed, htaken.ne_zero, htaken.notFree⟩
  exact Nat.lt_trans (List.mem_range.mp hi) (px_lt 2 maxuva)

/-! ## The whole call -/

theorem execBody_empty (h : FreeList w.mem []) : execBody fs path argv w = .ok none w := by
  unfold execBody
  rw [bind_ok (onExecMem_ok (kalloc_empty h)), if_pos rfl]
  rfl

theorem freeList_allocated_table {page : Nat} (h : FreeList w.mem (page :: l)) (src : Nat) :
    FreeList (tableCopied (allocated w.mem page) page src) l := by
  have htaken : TakenPage (allocated w.mem page) l page :=
    ⟨h.managed page List.mem_cons_self, h.chain.2.1, (List.nodup_cons.mp h.nodup).1⟩
  exact freeList_tableCopied (kalloc_cons h).2 htaken src

/-- With a page for the kernel table, and a table to copy. -/
theorem execBody_page {page : Nat} (h : FreeList w.mem (page :: l))
    (htable : w.proc.kpagetable ≠ 0) :
    execBody fs path argv w = execFile fs path argv 0 page
      (w.withMem (tableCopied (allocated w.mem page) page w.proc.kpagetable)) := by
  have hk : onExecMem kalloc w = .ok page (w.withMem (allocated w.mem page)) :=
    onExecMem_ok (kalloc_cons h).1
  refine (bind_ok hk _).trans ?_
  rw [if_neg h.chain.2.1]
  exact execImage_run htable

theorem execBody_null {page : Nat} (h : FreeList w.mem (page :: l))
    (htable : w.proc.kpagetable = 0) : execBody fs path argv w =
      .fault (.undefined "null page table") (w.withMem (allocated w.mem page)) := by
  have hk : onExecMem kalloc w = .ok page (w.withMem (allocated w.mem page)) :=
    onExecMem_ok (kalloc_cons h).1
  refine (bind_ok hk _).trans ?_
  rw [if_neg h.chain.2.1]
  exact execImage_null htable

theorem execBody_returns_iff (argv : List CStr) (h : FreeList w.mem l) :
    (∃ x w', execBody fs path argv w = .ok x w') ↔
      l = [] ∨ w.proc.kpagetable ≠ 0 ∧ ElfStops fs path (l.length = 1) w.fs := by
  cases l with
  | nil => simp [execBody_empty h]
  | cons page l =>
    by_cases htable : w.proc.kpagetable = 0
    · simp [execBody_null h htable, htable]
    · have hfree := freeList_allocated_table h w.proc.kpagetable
      rw [execBody_page h htable, execFile_returns_iff hfree]
      simp [htable, ExecWorld.withMem]

/-- A call that returns keeps the page that it has taken. -/
theorem execBody_free {page : Nat} {x : Option Nat} (h : FreeList w.mem (page :: l))
    (hrun : execBody fs path argv w = .ok x w') : FreeList w'.mem l := by
  by_cases htable : w.proc.kpagetable = 0
  · rw [execBody_null h htable] at hrun
    cases hrun
  · have hfree := freeList_allocated_table h w.proc.kpagetable
    rw [execBody_page h htable] at hrun
    rw [execFile_mem hfree hrun]
    exact hfree

theorem tableCopied_kernelEnd (m : MemState) (kpagetable src : Nat) :
    (tableCopied m kpagetable src).kernelEnd = m.kernelEnd := by
  have hfold : ∀ (is : List Nat) (m : MemState), (is.foldl
      (fun m i => { m with mem := writeWord m.mem (kpagetable + 8 * i) 0 }) m).kernelEnd =
      m.kernelEnd := by
    intro is
    induction is with
    | nil => exact fun _ => rfl
    | cons i is ih => exact fun m => ih _
  exact hfold _ _

theorem execBody_kernelEnd {x : Option Nat} (h : FreeList w.mem l)
    (hrun : execBody fs path argv w = .ok x w') : w'.mem.kernelEnd = w.mem.kernelEnd := by
  cases l with
  | nil =>
    rw [execBody_empty h] at hrun
    cases hrun
    rfl
  | cons page l =>
    by_cases htable : w.proc.kpagetable = 0
    · rw [execBody_null h htable] at hrun
      cases hrun
    · have hfree := freeList_allocated_table h w.proc.kpagetable
      rw [execBody_page h htable] at hrun
      rw [execFile_mem hfree hrun]
      exact tableCopied_kernelEnd _ _ _

theorem exec_returns {r : Int} (hrun : exec fs path argv w = .ok r w') :
    execBody fs path argv w = .ok none w' ∧ r = 0 := by
  obtain ⟨x, u, hbody, hrest⟩ := bind_eq_ok.mp hrun
  obtain ⟨rfl, -⟩ := execBody_fails hbody
  cases hrest
  exact ⟨hbody, rfl⟩

/-! ## Files in memory -/

/-- A file system with one file. -/
def memFile (content : List UInt8) : ReadFile Unit := fun _ off n =>
  pure (some ((content.drop off.toNat).take n.toNat))

/-- A header, and one segment that loads the file itself at address `0`. -/
def elfFile : List UInt8 :=
  leBytes elfMagic 4 ++ List.replicate 20 0 ++ leBytes 0 8 ++ leBytes sizeofElfhdr 8 ++
    List.replicate 16 0 ++ leBytes 1 2 ++ List.replicate 6 0 ++
  leBytes elfProgLoad 4 ++ List.replicate 4 0 ++ leBytes 0 8 ++ leBytes 0 8 ++
    List.replicate 8 0 ++ leBytes 120 8 ++ leBytes 120 8 ++ List.replicate 8 0

/-- No ELF file. -/
def zeroFile : List UInt8 := List.replicate sizeofElfhdr 0

def somePages : List Nat := (List.range 16).map fun i => 0x80400000 + 4096 * i

def execWorld (pages : List Nat) : ExecWorld Unit :=
  ⟨withFree 0x80200000 pages, ⟨0x80300000, 0x80301000, 0, 0x80302000, []⟩, 0, ()⟩

theorem execWorld_free : FreeList (execWorld somePages).mem somePages := by
  refine withFree_freeList (by decide) fun p hp => ?_
  obtain ⟨i, hi, rfl⟩ := List.mem_map.mp hp
  have hlt := List.mem_range.mp hi
  have hphys : phystop = 0x80600000 := rfl
  exact ⟨⟨by omega, by omega, by omega⟩, by omega⟩

theorem execWorld_empty : FreeList (execWorld []).mem [] :=
  withFree_freeList List.nodup_nil (by simp)

theorem zeroFile_stops (path : CStr) (noPage : Prop) :
    ElfStops (memFile zeroFile) path noPage () := by
  rw [elfStops_read (r := some zeroFile) (t := ()) rfl]
  intro _ hmagic
  exact absurd hmagic (by decide)

/-- The one segment of the file is to be mapped. -/
theorem elfFile_not_stops (path : CStr) {noPage : Prop} (hpage : ¬ noPage) :
    ¬ ElfStops (memFile elfFile) path noPage () := by
  rw [elfStops_read (r := some (elfFile.take 64)) (t := ()) rfl]
  intro hstops
  have hheaders := hstops (by decide) (by decide)
  have hnum : (Elfhdr.ofBytes ((some (elfFile.take 64)).getD [])).phnum = 1 := by decide
  have hoff : toInt (Elfhdr.ofBytes ((some (elfFile.take 64)).getD [])).phoff = 64 := by decide
  rw [hnum, hoff, headersStop_read (r := some (elfFile.drop 64)) (t := ()) rfl] at hheaders
  have hsegment := hheaders (by decide)
  rw [if_neg (by decide)] at hsegment
  rcases hsegment with hrefused | hno
  · unfold Prohdr.Refused at hrefused
    revert hrefused
    decide
  · exact hpage hno

/-! ## A failing `exec` -/

/-- What a failing call with the result `r` is to leave as it was. -/
structure FailsCleanly (r : Int) (w w' : ExecWorld σ) : Prop where
  proc : w'.proc = w.proc
  trapframe : ∀ i < trapframeBytes,
    w'.mem.mem (w.proc.trapframe + i) = w.mem.mem (w.proc.trapframe + i)
  pages : ∀ page, OnFreeList w'.mem page ↔ OnFreeList w.mem page
  result : ∀ (fs : ReadFile σ) (path : CStr) (argv : List CStr) (v v' : ExecWorld σ)
    (argc : Nat), execBody fs path argv v = .ok (some argc) v' → r ≠ toInt argc

theorem exec_of_fails (h : execBody fs path argv w = .ok none w') :
    exec fs path argv w = .ok 0 w' := bind_ok h _

/-- A failing call leaves everything as it was just if it has not got a page. -/
theorem exec_fails_cleanly_iff (fs : ReadFile σ) (path : CStr) (argv : List CStr)
    (w : ExecWorld σ) (l : List Nat) (h : FreeList w.mem l) :
    (∀ w', execBody fs path argv w = .ok none w' →
      ∃ r, exec fs path argv w = .ok r w' ∧ FailsCleanly r w w') ↔
    l = [] ∨ ¬ (w.proc.kpagetable ≠ 0 ∧ ElfStops fs path (l.length = 1) w.fs) := by
  constructor
  · intro hclean
    by_cases hl : l = []
    · exact Or.inl hl
    · refine Or.inr fun hstops => ?_
      obtain ⟨x, w', hrun⟩ := (execBody_returns_iff argv h).mpr (Or.inr hstops)
      obtain ⟨rfl, -⟩ := execBody_fails hrun
      obtain ⟨r, -, hr⟩ := hclean w' hrun
      cases l with
      | nil => exact hl rfl
      | cons page l =>
        have hfree := execBody_free h hrun
        have hpage := (hr.pages page).mpr ((h.onFreeList page).mpr List.mem_cons_self)
        exact (List.nodup_cons.mp h.nodup).1 ((hfree.onFreeList page).mp hpage)
  · intro hcond w' hrun
    have hl : l = [] := by
      have hreturns := (execBody_returns_iff argv h).mp ⟨none, w', hrun⟩
      exact hcond.elim id fun hno => hreturns.resolve_right hno
    subst hl
    rw [execBody_empty h] at hrun
    cases hrun
    refine ⟨0, exec_of_fails (execBody_empty h), rfl, fun _ _ => rfl, fun _ => Iff.rfl, ?_⟩
    intro fs path argv v v' argc hsuccess
    exact absurd (execBody_fails hsuccess).1 (by simp)

/-- Without a free page. -/
theorem exec_fails_cleanly_empty :
    ∃ w', execBody (memFile zeroFile) [slash, 0x78] [] (execWorld []) = .ok none w' ∧
      ∃ r, exec (memFile zeroFile) [slash, 0x78] [] (execWorld []) = .ok r w' ∧
        FailsCleanly r (execWorld []) w' := by
  obtain ⟨x, w', hrun⟩ : ∃ x w', execBody (memFile zeroFile) [slash, 0x78] [] (execWorld []) =
      .ok x w' := (execBody_returns_iff [] execWorld_empty).mpr (Or.inl rfl)
  obtain ⟨rfl, -⟩ := execBody_fails hrun
  exact ⟨w', hrun, (exec_fails_cleanly_iff _ _ _ _ [] execWorld_empty).mpr (Or.inl rfl) w' hrun⟩

/-- The page of the kernel table is lost on a file that is no ELF file. -/
theorem exec_loses_page :
    FreeList (execWorld somePages).mem somePages ∧
      ∃ w', execBody (memFile zeroFile) [slash, 0x78] [] (execWorld somePages) = .ok none w' ∧
        exec (memFile zeroFile) [slash, 0x78] [] (execWorld somePages) = .ok 0 w' ∧
        OnFreeList (execWorld somePages).mem 0x80400000 ∧ ¬ OnFreeList w'.mem 0x80400000 := by
  refine ⟨execWorld_free, ?_⟩
  obtain ⟨x, w', hrun⟩ := (execBody_returns_iff [] execWorld_free).mpr
    (Or.inr ⟨by decide, zeroFile_stops [slash, 0x78] _⟩)
  obtain ⟨rfl, -⟩ := execBody_fails hrun
  have hfree := execBody_free execWorld_free hrun
  refine ⟨w', hrun, exec_of_fails hrun, ?_, ?_⟩
  · exact (execWorld_free.onFreeList _).mpr (by decide)
  · rw [hfree.onFreeList]
    decide

/-! ## The calls that return -/

/-- For which files `exec` returns. -/
theorem exec_returns_iff (fs : ReadFile σ) (path : CStr) (argv : List CStr) (w : ExecWorld σ)
    (l : List Nat) (h : FreeList w.mem l) :
    (∃ r w', exec fs path argv w = .ok r w') ↔
      l = [] ∨ w.proc.kpagetable ≠ 0 ∧ ElfStops fs path (l.length = 1) w.fs := by
  rw [← execBody_returns_iff argv h]
  constructor
  · rintro ⟨r, w', hrun⟩
    exact ⟨none, w', (exec_returns hrun).1⟩
  · rintro ⟨x, w', hrun⟩
    obtain ⟨rfl, -⟩ := execBody_fails hrun
    exact ⟨0, w', exec_of_fails hrun⟩

theorem exec_returns_zeroFile :
    ∃ r w', exec (memFile zeroFile) [slash, 0x78] [] (execWorld somePages) = .ok r w' :=
  (exec_returns_iff _ _ _ _ _ execWorld_free).mpr
    (Or.inr ⟨by decide, zeroFile_stops [slash, 0x78] _⟩)

/-- `exec` of an ELF file does not return. -/
theorem exec_elfFile_faults :
    ¬ ∃ r w', exec (memFile elfFile) [slash, 0x78] [] (execWorld somePages) = .ok r w' := by
  rintro ⟨r, w', hrun⟩
  rcases (execBody_returns_iff [] execWorld_free).mp ⟨none, w', (exec_returns hrun).1⟩ with hl | hstops
  · exact absurd hl (by decide)
  · exact elfFile_not_stops _ (by decide) hstops.2

/-! ## The image -/

/-- The segments to load of the file `content`. -/
def elfSegments (content : List UInt8) : List Prohdr :=
  let elf := Elfhdr.ofBytes content
  ((List.range elf.phnum).map fun i =>
    Prohdr.ofBytes ((content.drop (elf.phoff + sizeofProhdr * i)).take sizeofProhdr)).filter
      fun ph => ph.type = elfProgLoad

/-- The byte at a user address. -/
def ExecWorld.byteAt (w : ExecWorld σ) (va : Nat) : Option UInt8 :=
  (translate w.mem.mem w.proc.pagetable va).map fun (frame, _) => w.mem.mem (frame + va % 4096)

/-- What `exec` of a file with the bytes `content` is to do. -/
structure LoadsImage (content : List UInt8) (w w' : ExecWorld σ) : Prop where
  committed : w'.proc.pagetable ≠ w.proc.pagetable
  fresh : OnFreeList w.mem w'.proc.pagetable ∧ ¬ OnFreeList w'.mem w'.proc.pagetable
  loaded : ∀ ph ∈ elfSegments content, ∀ i < ph.memsz, w'.byteAt (ph.vaddr + i) =
    some (if i < ph.filesz then content.getD (ph.off + i) 0 else 0)
  stack : w'.proc.sz % 4096 = 0 ∧ 4096 ≤ w'.proc.sz ∧
    (w'.byteAt (w'.proc.sz - 4096)).isSome
  apart : ∀ ph ∈ elfSegments content, ∀ i < ph.memsz,
    (ph.vaddr + i) / 4096 ≠ (w'.proc.sz - 4096) / 4096
  only : ∀ va < maxuva, (w'.byteAt va).isSome → va / 4096 = (w'.proc.sz - 4096) / 4096 ∨
    ∃ ph ∈ elfSegments content, ∃ i < ph.memsz, (ph.vaddr + i) / 4096 = va / 4096
  mapped : (w'.byteAt trampoline).isSome ∧ (w'.byteAt trapframe).isSome

/-- A file that `exec` is to load. -/
structure WellFormedElf (content : List UInt8) : Prop where
  magic : (Elfhdr.ofBytes content).magic = elfMagic
  headers : (Elfhdr.ofBytes content).phoff + sizeofProhdr * (Elfhdr.ofBytes content).phnum ≤
    content.length
  segments : ∀ ph ∈ elfSegments content, ph.vaddr % pgsize = 0 ∧ ph.filesz ≤ ph.memsz ∧
    ph.vaddr + ph.memsz ≤ maxuva ∧ ph.off + ph.filesz ≤ content.length
  ascending : (elfSegments content).Pairwise fun a b => a.vaddr + a.memsz ≤ b.vaddr

theorem exec_not_loadsImage {r : Int} (content : List UInt8)
    (hrun : exec fs path argv w = .ok r w') : ¬ LoadsImage content w w' := by
  intro hloads
  have hproc := (execBody_fails (exec_returns hrun).1).2
  exact hloads.committed (congrArg ExecProc.pagetable hproc)

/-- No call of `exec` does it, whatever the file. -/
theorem exec_loads_nothing (fs : ReadFile σ) (path : CStr) (argv : List CStr)
    (content : List UInt8) (w : ExecWorld σ) :
    ¬ ∃ r w', exec fs path argv w = .ok r w' ∧ LoadsImage content w w' := by
  rintro ⟨r, w', hrun, hloads⟩
  exact exec_not_loadsImage content hrun hloads

/-- A well-formed file with sixteen free pages for it. -/
theorem exec_elfFile_not_loaded :
    WellFormedElf elfFile ∧ FreeList (execWorld somePages).mem somePages ∧
      ¬ ∃ r w', exec (memFile elfFile) [slash, 0x78] [] (execWorld somePages) = .ok r w' ∧
        LoadsImage elfFile (execWorld somePages) w' := by
  have hsegments : elfSegments elfFile = [⟨1, 0, 0, 120, 120⟩] := by decide
  refine ⟨⟨by decide, by decide, ?_, ?_⟩, execWorld_free, ?_⟩
  · rw [hsegments]
    decide
  · rw [hsegments]
    decide
  · rintro ⟨r, w', hrun, hloads⟩
    exact exec_not_loadsImage elfFile hrun hloads

end

end PageFaultOS
