import Mathlib.Tactic
import PageFaultOS.Lib.Run
import PageFaultOS.Fs.FileIo
import PageFaultOS.Fs.Mappings
import PageFaultOS.Fs.ReadFile

/-! The pages of a mapped file, which `UserTrap` of `trap/trap.cpp` reads in when they are
accessed, together with reads on the same open file. The file is a regular one on the FAT
volume. -/

namespace PageFaultOS
open Exec Exec.Comp ByteMem

/-- The FAT volume, and the memory of the kernel. -/
structure KernelIo where
  fat : Fat32
  mem : Mem

def onFat {α : Type} (x : FsComp α) : Comp KernelIo α := fun w =>
  match x w.fat with
  | .ok a s => .ok a { w with fat := s }
  | .fault e s => .fault e { w with fat := s }

/-- `Fat32FileSystem::read`; here nothing is written. -/
def fatOps : FileOps KernelIo where
  read _ path user buf offset n :=
    if user then do
      let x ← onFat (Fat32.readUser path buf offset n)
      pure (x.getD sizeError)
    else do
      match ← onFat (Fat32.read path offset n) with
      | none => pure sizeError
      | some bytes => do
        Comp.modify fun w => { w with mem := store w.mem buf bytes }
        pure bytes.length
  write _ _ _ _ _ _ := fault (.undefined "write")
  piperead _ _ _ := fault (.undefined "pipe")
  pipewrite _ _ _ := fault (.undefined "pipe")

/-- An open file, a mapping of it, and what is on the pages of the process: `pages va` is what
`UserTrap` has left on the page at `va`, if there is one. -/
structure Paging where
  io : FileIo KernelIo
  vma : Mapping
  pages : Nat → Option (List UInt8)

def onIo {α : Type} (x : IoComp KernelIo α) : Comp Paging α := fun w =>
  match x w.io with
  | .ok a io => .ok a { w with io := io }
  | .fault e io => .fault e { w with io := io }

/-- `memset(mem, 0, PGSIZE)`. -/
def FileIo.cleared (io : FileIo KernelIo) (frame : Nat) : FileIo KernelIo :=
  { io with fs := { io.fs with mem := fill io.fs.mem frame pgsize 0 } }

@[simp] theorem FileIo.cleared_file (io : FileIo KernelIo) (frame : Nat) :
    (io.cleared frame).file = io.file := rfl

@[simp] theorem FileIo.cleared_fat (io : FileIo KernelIo) (frame : Nat) :
    (io.cleared frame).fs.fat = io.fs.fat := rfl

theorem FileIo.cleared_mem (io : FileIo KernelIo) (frame : Nat) :
    (io.cleared frame).fs.mem = fill io.fs.mem frame pgsize 0 := rfl

def clearPage (frame : Nat) : Comp Paging Unit :=
  modify fun w => { w with io := w.io.cleared frame }

/-- `MapPages` has returned; without memory for the tables the page is not there. -/
def mapPage (va frame : Nat) (mapped : Bool) : Comp Paging Unit := modify fun w =>
  if mapped then
    { w with pages := Function.update w.pages va (some (load w.io.fs.mem frame pgsize)) }
  else w

/-- `UserTrap` at a load page fault: `frame` is what `kalloc` returns, and `mapped` whether
`MapPages` succeeds. The result is whether the process goes on. The offset that `vfsread` is
called with is not used. -/
def userFault (eaddr frame : Nat) (mapped : Bool) : Comp Paging Bool := do
  let w ← read
  if w.vma.addr ≤ eaddr ∧ eaddr < toUint64 (w.vma.addr + w.vma.length) then
    if frame = 0 then fault (.undefined "null page")
    else do
      clearPage frame
      if w.pages (pgrounddown eaddr) ≠ none then Comp.panic "ramap"
      else do
        let _ ← onIo (FileIo.vfsread fatOps false frame pgsize)
        mapPage (pgrounddown eaddr) frame mapped
        pure true
  else pure false

/-- A fault of the process, and `sys_read` on a descriptor of the file. -/
inductive PagingAction where
  | fault (eaddr frame : Nat) (mapped : Bool)
  | read (dst n : Nat)

def pagingStep (w : Paging) : PagingAction → Option Paging
  | .fault eaddr frame mapped =>
    match userFault eaddr frame mapped w with
    | .ok true w' => some w'
    | _ => none
  | .read dst n =>
    match onIo (FileIo.vfsread fatOps true dst n) w with
    | .ok _ w' => some w'
    | .fault _ _ => none

/-! ## Reading keeps the volume -/

/-- The path is for the regular file `c` on the chain `cs`. -/
structure FileOn (V : View) (path : CStr) (c : TFFile) (cs : List Nat) : Prop where
  valid : V.shape.Valid
  found : V.lookup path = .ok true c
  regular : c.attributes &&& tfAttrDirectory = 0
  start : c.startCluster = cs.getD 0 0
  chain : FatChain V.shape V.volume cs
  room : c.size ≤ chainBytes V.shape cs

section Reads
variable {V : View} {s t u : Fat32} {path : CStr} {c : TFFile} {cs : List Nat} {fp p : Nat}

theorem FileOn.names (h : FileOn V path c cs) (hs : V.On s) (hopen : Exists (tfFopen path .r) s) :
    NamesFile s path c cs := by
  obtain ⟨hco, rfl⟩ := hs
  exact ⟨hco, h.valid, hopen, h.found, h.regular, h.start, h.chain, h.room⟩

/-- What is copied out to the process does not touch the file. -/
theorem OpenAt.copied (h : OpenAt s c cs fp p t) {dst : Int} {bytes : List UInt8} {r : Int}
    (hrun : eitherCopyout true dst bytes t = .ok r u) :
    OpenAt s c cs fp p u ∧ u.stale = t.stale := by
  unfold eitherCopyout at hrun
  rw [read_bind, if_pos rfl] at hrun
  unfold onMemory at hrun
  split at hrun
  · cases hrun
    exact ⟨⟨h.same, h.coherent, h.clean, h.on, h.pos, h.size⟩, rfl⟩
  · cases hrun

theorem OpenAt.fetched (h : OpenAt s c cs fp p t) {sector : Nat}
    (hrun : tfFetch sector t = .ok () u) : OpenAt s c cs fp p u ∧ u.stale = t.stale := by
  obtain ⟨v, hfetch, hsame, hhandles, -⟩ := tfFetch_run h.coherent sector
  cases hfetch.symm.trans hrun
  refine ⟨?_, hsame.stale⟩
  have hmoved := Moved.of_same fp hsame hhandles
  have hhere := h.on.here
  refine h.moved hrun (reading_tfFetch sector) ?_
  rw [h.same.2, ← h.pos, hhere]
  exact hmoved

theorem chunk_lt (f : TFFile) (size : Nat) : chunk f size < 2 ^ 32 :=
  Nat.lt_of_le_of_lt ((Nat.min_le_left _ _).trans (Nat.min_le_right _ _))
    (Nat.mod_lt _ (by decide))

/-- One round: the file is where it was, or further on before its end. -/
theorem OpenAt.userRound (h : NamesFile s path c cs) (hopen : OpenAt s c cs fp p t)
    (hp : p ≤ c.size) {q : Nat × Nat × Nat} {x : (Nat × Nat × Nat) ⊕ Nat}
    (hrun : freadUserRound fp q t = .ok x u) :
    ∃ p', OpenAt s c cs fp p' u ∧ p' ≤ c.size ∧ u.stale = t.stale := by
  obtain ⟨dest, size, n⟩ := q
  simp only [freadUserRound] at hrun
  split at hrun
  · cases hrun
    exact ⟨p, hopen, hp, rfl⟩
  · rw [bind_ok (getFile_run t fp), read_bind] at hrun
    obtain ⟨_, v, hfetch, hrun⟩ := bind_eq_ok.mp hrun
    obtain ⟨hv, hstale⟩ := hopen.fetched hfetch
    split at hrun
    · cases hrun
    · rw [read_bind] at hrun
      obtain ⟨_, w, hcopy, hrun⟩ := bind_eq_ok.mp hrun
      obtain ⟨hw, hstale'⟩ := hv.copied hcopy
      obtain ⟨r, y, hseek, hrun⟩ := bind_eq_ok.mp hrun
      have hsmall := chunk_lt (t.handles fp) size
      have hsize := hopen.size_lt h
      rw [hopen.size] at hsize
      obtain ⟨r', y', hseek', hy, hmoved⟩ := h.seek hw
        (show (t.handles fp).pos + chunk (t.handles fp) size < 2 ^ 63 by rw [hopen.pos]; omega)
      cases hseek'.symm.trans hseek
      have hle : (if (t.handles fp).pos + chunk (t.handles fp) size < c.size then
          (t.handles fp).pos + chunk (t.handles fp) size else p) ≤ c.size := by
        split
        · omega
        · exact hp
      split at hrun
      · cases hrun
        exact ⟨_, hy, hle, hmoved.same.stale.trans (hstale'.trans hstale)⟩
      · cases hrun
        exact ⟨_, hy, hle, hmoved.same.stale.trans (hstale'.trans hstale)⟩

theorem OpenAt.userLoop (h : NamesFile s path c cs) {n : Nat} {q : Nat × Nat × Nat} {r : Nat}
    (hopen : OpenAt s c cs fp p t) (hp : p ≤ c.size)
    (hrun : loop (freadUserRound fp) n q t = .ok r u) :
    ∃ p', OpenAt s c cs fp p' u ∧ u.stale = t.stale := by
  induction n generalizing p q t with
  | zero => cases hrun
  | succ n ih =>
    obtain ⟨x, v, hround, hrest⟩ := bind_eq_ok.mp hrun
    obtain ⟨p', hv, hp', hstale⟩ := hopen.userRound h hp hround
    cases x with
    | inl q' =>
      obtain ⟨p'', hu, hstale'⟩ := ih hv hp' hrest
      exact ⟨p'', hu, hstale'.trans hstale⟩
    | inr r' =>
      cases hrest
      exact ⟨p', hv, hstale⟩

/-- A read to the process leaves the volume as it is. -/
theorem NamesFile.readUser_on (h : NamesFile s path c cs) {buf offset : Nat} {n : Int}
    {x : Option Nat} (hoff : offset < 2 ^ 31)
    (hrun : Fat32.readUser path buf offset n s = .ok x t) : s.view.On t := by
  obtain ⟨fp, u, hopened, hopen, hstale, _⟩ := h.opened
  unfold Fat32.readUser at hrun
  rw [bind_ok hopened, if_neg (fun hnull => by cases hnull),
    bind_ok (show (FilePtr.handle fp).deref u = .ok fp u from rfl)] at hrun
  obtain ⟨r, v, hseek, hv, hmoved⟩ := h.seek hopen (Nat.lt_trans hoff (by decide))
  rw [bind_ok hseek] at hrun
  obtain ⟨k, w, hloop, hrun⟩ := bind_eq_ok.mp hrun
  have hp : (if offset < c.size then offset else 0) ≤ c.size := by
    split
    · omega
    · exact Nat.zero_le _
  obtain ⟨p', hw, hstale'⟩ := hv.userLoop h hp hloop
  obtain ⟨f, hclose⟩ := tfFclose_untouched hw.clean
  rw [bind_ok hclose] at hrun
  cases hrun
  exact (untouched_setFile w fp f).on (hw.onView (hstale'.trans (hmoved.same.stale.trans hstale)))

end Reads

/-! ## What a page is to hold -/

/-- The `PGSIZE` bytes of the file from `o` on, with zeros behind its end. -/
def window (V : View) (c : TFFile) (cs : List Nat) (o : Nat) : List UInt8 :=
  fileBytes V.shape V.volume cs o (min pgsize (c.size - o)) ++
    List.replicate (pgsize - min pgsize (c.size - o)) 0

/-- Where `read` begins to read: at the position, or at the beginning where that is at the end of
the file or behind it. -/
def readFrom (size position : Nat) : Nat := if position < size then position else 0

/-- Each page of the mapping that is there holds its bytes of the file. -/
def Paging.Holds (V : View) (c : TFFile) (cs : List Nat) (w : Paging) : Prop :=
  ∀ k page, w.pages (w.vma.addr + k * pgsize) = some page → page = window V c cs (k * pgsize)

/-- As `sys_mmap` leaves the file and the mapping; no page is there yet. -/
structure PagingStart (V : View) (path : CStr) (c : TFFile) (cs : List Nat) (w : Paging) : Prop where
  file : FileOn V path c cs
  on : V.On w.io.fs.fat
  path : w.io.file.filepath = path
  entry : w.io.file.type = .entry
  position : w.io.file.position = 0
  pages : ∀ k, w.pages (w.vma.addr + k * pgsize) = none

/-- The file can be opened at its path, and is at an offset that is an `int`; a page that comes to
be there is of a file open for reading, whose bytes from where `read` begins are those of the
page. -/
def PagingSafe (V : View) (c : TFFile) (cs : List Nat) (w : Paging) (a : PagingAction) : Prop :=
  Exists (tfFopen w.io.file.filepath .r) w.io.fs.fat ∧ w.io.file.position < 2 ^ 31 ∧
    match a with
    | .fault eaddr _ mapped => mapped = true → w.io.file.readable = true ∧
        window V c cs (readFrom c.size w.io.file.position) =
          window V c cs (pgrounddown eaddr - w.vma.addr)
    | .read _ _ => True

/-- Bytes stored over zeros. -/
theorem load_store_fill (m : Mem) (a n : Nat) (bs : List UInt8) (h : bs.length ≤ n) :
    load (store (fill m a n 0) a bs) a n = bs ++ List.replicate (n - bs.length) 0 := by
  apply List.ext_getElem
  · simp
    omega
  · intro i hi hi'
    have hin : i < n := by simpa using hi
    simp only [load, List.getElem_map, List.getElem_range, store, Nat.le_add_right, if_true,
      Nat.add_sub_cancel_left]
    by_cases hlt : i < bs.length
    · rw [List.getElem_append_left hlt, List.getElem?_eq_getElem hlt]
      rfl
    · rw [List.getElem_append_right (Nat.le_of_not_lt hlt), List.getElem_replicate,
        List.getElem?_eq_none (Nat.le_of_not_lt hlt)]
      show fill m a n 0 (a + i) = 0
      rw [fill, if_pos ⟨Nat.le_add_right a i, by omega⟩]

/-! ## What the steps do -/

section Steps
variable {V : View} {path : CStr} {c : TFFile} {cs : List Nat}

theorem File.moved_filepath (f : File) (position : Nat) :
    (f.moved position).filepath = f.filepath := rfl

theorem File.moved_type (f : File) (position : Nat) : (f.moved position).type = f.type := rfl

theorem readBy_filepath (k : Nat) (f : File) : (FileIo.readBy k f).filepath = f.filepath :=
  File.moved_filepath f _

theorem readBy_type (k : Nat) (f : File) : (FileIo.readBy k f).type = f.type :=
  File.moved_type f _

/-- A read of a regular file is refused, or reads at the position and moves it. -/
theorem vfsread_entry {ops : FileOps KernelIo} {user : Bool} {dst n r : Nat}
    {w w' : FileIo KernelIo} (hentry : w.file.type = .entry) (hpos : w.file.position < 2 ^ 31)
    (hrun : FileIo.vfsread ops user dst n w = .ok r w') :
    (w.file.readable = false ∧ w' = w) ∨ (w.file.readable = true ∧ ∃ fs k t,
      ops.read fs w.file.filepath user dst w.file.position (toInt n) w.fs = .ok k t ∧
      w'.fs = t ∧ w'.file = FileIo.readBy k w.file) := by
  unfold FileIo.vfsread at hrun
  rw [read_bind] at hrun
  cases hreadable : w.file.readable with
  | false =>
    simp only [hreadable] at hrun
    cases hrun
    exact .inl ⟨rfl, rfl⟩
  | true =>
    simp only [hreadable, hentry, Bool.true_eq_false, if_false] at hrun
    obtain ⟨fs, u, hfs, hrest⟩ := bind_eq_ok.mp hrun
    have hu : u = w := by
      cases ho : w.fileSystem with
      | none =>
        rw [getFs_none ho] at hfs
        cases hfs
      | some fs' =>
        rw [getFs_some ho] at hfs
        cases hfs
        rfl
    rw [hu] at hrest
    obtain ⟨k, v, htransfer, hrest⟩ := bind_eq_ok.mp hrest
    rw [(toInt_eq_iff w.file.position).mpr hpos] at htransfer
    refine .inr ⟨rfl, fs, k, ?_⟩
    cases hread : ops.read fs w.file.filepath user dst w.file.position (toInt n) w.fs with
    | ok k' t =>
      rw [transfer_ok _ hread] at htransfer
      obtain ⟨rfl, rfl⟩ := Res.ok.inj htransfer
      rw [modify_bind, pure_apply] at hrest
      obtain ⟨-, rfl⟩ := Res.ok.inj hrest
      exact ⟨t, rfl, rfl, rfl⟩
    | fault e t =>
      rw [transfer_fault _ hread] at htransfer
      cases htransfer

theorem onFat_run {α : Type} {x : FsComp α} {a : α} {w : KernelIo} {s : Fat32}
    (hrun : x w.fat = .ok a s) : onFat x w = .ok a { w with fat := s } := by
  unfold onFat
  rw [hrun]

theorem onFat_ok {α : Type} {x : FsComp α} {a : α} {w w' : KernelIo}
    (hrun : onFat x w = .ok a w') : x w.fat = .ok a w'.fat ∧ w'.mem = w.mem := by
  unfold onFat at hrun
  split at hrun
  · rename_i b s hx
    cases hrun
    exact ⟨hx, rfl⟩
  · cases hrun

/-- What the kernel reads comes from where `read` begins, and goes to the page. -/
theorem fatOps_read_kernel {w w' : KernelIo} {fs : FileSystem} {dst position k : Nat}
    (h : NamesFile w.fat path c cs) (hpos : position < 2 ^ 31)
    (hrun : fatOps.read fs path false dst position pgsize w = .ok k w') :
    w.fat.view.On w'.fat ∧ w'.mem = store w.mem dst (fileBytes w.fat.info.shape w.fat.volume cs
      (readFrom c.size position) (min pgsize (c.size - readFrom c.size position))) := by
  obtain ⟨t, hread, hon⟩ := h.read_run hpos (n := pgsize) (by decide)
  simp only [fatOps, Bool.false_eq_true, if_false] at hrun
  rw [bind_ok (onFat_run hread)] at hrun
  cases hrun
  exact ⟨hon, rfl⟩

theorem fatOps_read_user {w w' : KernelIo} {fs : FileSystem} {dst position k : Nat} {n : Int}
    (h : NamesFile w.fat path c cs) (hpos : position < 2 ^ 31)
    (hrun : fatOps.read fs path true dst position n w = .ok k w') : w.fat.view.On w'.fat := by
  simp only [fatOps, if_true] at hrun
  obtain ⟨x, u, hfat, hrest⟩ := bind_eq_ok.mp hrun
  cases hrest
  exact h.readUser_on hpos (onFat_ok hfat).1

theorem onIo_ok {α : Type} {x : IoComp KernelIo α} {a : α} {w w' : Paging}
    (hrun : onIo x w = .ok a w') : ∃ io, x w.io = .ok a io ∧ w' = { w with io := io } := by
  unfold onIo at hrun
  split at hrun
  · rename_i b io hx
    cases hrun
    exact ⟨io, hx, rfl⟩
  · cases hrun

/-- A fault that the process survives: the page is cleared, read and mapped. -/
theorem userFault_ok {eaddr frame : Nat} {mapped : Bool} {w w' : Paging}
    (hrun : userFault eaddr frame mapped w = .ok true w') :
    ∃ r io, FileIo.vfsread fatOps false frame pgsize (w.io.cleared frame) = .ok r io ∧
      w' = if mapped then { w with
          io := io
          pages := Function.update w.pages (pgrounddown eaddr)
            (some (load io.fs.mem frame pgsize)) }
        else { w with io := io } := by
  unfold userFault at hrun
  rw [read_bind] at hrun
  split at hrun
  · split at hrun
    · cases hrun
    · simp only [clearPage, modify_bind] at hrun
      split at hrun
      · cases hrun
      · obtain ⟨r, u, hread, hrun⟩ := bind_eq_ok.mp hrun
        obtain ⟨io, hio, rfl⟩ := onIo_ok hread
        refine ⟨r, io, hio, ?_⟩
        cases mapped with
        | true =>
          cases hrun
          rfl
        | false =>
          cases hrun
          rfl
  · cases hrun

/-- What holds of the file while the process runs, and what its pages hold. -/
structure PagingInv (V : View) (path : CStr) (c : TFFile) (cs : List Nat) (w : Paging) : Prop where
  file : FileOn V path c cs
  on : V.On w.io.fs.fat
  path : w.io.file.filepath = path
  entry : w.io.file.type = .entry
  holds : w.Holds V c cs

theorem PagingStart.inv {w : Paging} (h : PagingStart V path c cs w) : PagingInv V path c cs w := by
  refine ⟨h.file, h.on, h.path, h.entry, fun k page hpage => ?_⟩
  rw [h.pages] at hpage
  cases hpage

/-- What a fault leaves of the file, and what it puts on the page: the bytes from where `read`
begins. -/
theorem PagingInv.faulted {w : Paging} (hI : PagingInv V path c cs w) {frame r : Nat}
    {io : FileIo KernelIo} (hopen : Exists (tfFopen w.io.file.filepath .r) w.io.fs.fat)
    (hpos : w.io.file.position < 2 ^ 31)
    (hread : FileIo.vfsread fatOps false frame pgsize (w.io.cleared frame) = .ok r io) :
    V.On io.fs.fat ∧ io.file.filepath = path ∧ io.file.type = .entry ∧
      (w.io.file.readable = true → load io.fs.mem frame pgsize =
        window V c cs (readFrom c.size w.io.file.position)) := by
  rw [hI.path] at hopen
  have hnames := hI.file.names hI.on hopen
  have hcases := vfsread_entry (w := w.io.cleared frame) hI.entry hpos hread
  rw [FileIo.cleared_file, hI.path] at hcases
  obtain ⟨hreadable, rfl⟩ | ⟨-, fs, k, t, hfat, rfl, hfile⟩ := hcases
  · refine ⟨hI.on, hI.path, hI.entry, fun h => ?_⟩
    rw [hreadable] at h
    cases h
  · obtain ⟨hon, hmem⟩ := fatOps_read_kernel (w := (w.io.cleared frame).fs) hnames hpos hfat
    have hview : w.io.fs.fat.view = V := hI.on.2
    rw [FileIo.cleared_fat, hview] at hon
    refine ⟨hon, ?_, ?_, fun _ => ?_⟩
    · rw [hfile, readBy_filepath]
      exact hI.path
    · rw [hfile, readBy_type]
      exact hI.entry
    · have hshape : w.io.fs.fat.info.shape = V.shape := congrArg View.shape hview
      have hvolume : w.io.fs.fat.volume = V.volume := congrArg View.volume hview
      rw [hmem, FileIo.cleared_fat, FileIo.cleared_mem, hshape, hvolume,
        load_store_fill _ _ _ _ (by rw [fileBytes_length]; omega), fileBytes_length]
      rfl

theorem PagingInv.fault {w w' : Paging} (hI : PagingInv V path c cs w) {eaddr frame : Nat}
    {mapped : Bool} (hsafe : PagingSafe V c cs w (.fault eaddr frame mapped))
    (hrun : userFault eaddr frame mapped w = .ok true w') : PagingInv V path c cs w' := by
  obtain ⟨hopen, hpos, hright⟩ := hsafe
  obtain ⟨r, io, hread, rfl⟩ := userFault_ok hrun
  obtain ⟨hon, hpath, hentry, hpage⟩ := hI.faulted hopen hpos hread
  cases mapped with
  | false => exact ⟨hI.file, hon, hpath, hentry, hI.holds⟩
  | true =>
    obtain ⟨hreadable, hwindow⟩ := hright rfl
    refine ⟨hI.file, hon, hpath, hentry, fun k page hk => ?_⟩
    by_cases hva : w.vma.addr + k * pgsize = pgrounddown eaddr
    · have hself : some (load io.fs.mem frame pgsize) = some page := by
        rw [← hk]
        show _ = Function.update w.pages (pgrounddown eaddr) _ (w.vma.addr + k * pgsize)
        rw [hva, Function.update_self]
      rw [← Option.some.inj hself, hpage hreadable, hwindow, ← hva, Nat.add_sub_cancel_left]
    · refine hI.holds k page ?_
      rw [← hk]
      exact (Function.update_of_ne hva ..).symm

theorem PagingInv.step {w w' : Paging} (hI : PagingInv V path c cs w) {a : PagingAction}
    (hsafe : PagingSafe V c cs w a) (hstep : pagingStep w a = some w') :
    PagingInv V path c cs w' := by
  cases a with
  | fault eaddr frame mapped =>
    simp only [pagingStep] at hstep
    split at hstep
    · rename_i u hrun
      cases hstep
      exact hI.fault hsafe hrun
    · cases hstep
  | read dst n =>
    simp only [pagingStep] at hstep
    split at hstep
    · rename_i r u hrun
      cases hstep
      obtain ⟨hopen, hpos, -⟩ := hsafe
      rw [hI.path] at hopen
      have hnames := hI.file.names hI.on hopen
      obtain ⟨io, hread, rfl⟩ := onIo_ok hrun
      obtain ⟨-, rfl⟩ | ⟨-, fs, k, t, hfat, rfl, hfile⟩ := vfsread_entry hI.entry hpos hread
      · exact hI
      · rw [hI.path] at hfat
        have hon := fatOps_read_user hnames hpos hfat
        have hview : w.io.fs.fat.view = V := hI.on.2
        rw [hview] at hon
        refine ⟨hI.file, hon, ?_, ?_, hI.holds⟩
        · show io.file.filepath = path
          rw [hfile, readBy_filepath]
          exact hI.path
        · show io.file.type = .entry
          rw [hfile, readBy_type]
          exact hI.entry
    · cases hstep

end Steps

/-- As long as each page that comes to be there is read from where its bytes are, every page of the
mapping holds its bytes of the file. -/
theorem demand_paging {V : View} {path : CStr} {c : TFFile} {cs : List Nat} {w : Paging}
    (h : Run.Reach (PagingStart V path c cs) (fun w a w' => pagingStep w a = some w')
      (PagingSafe V c cs) w) : w.Holds V c cs := by
  have hI : PagingInv V path c cs w := h.invariant (fun _ hs => hs.inv)
    fun _ _ _ hI hsafe hstep => hI.step hsafe hstep
  exact hI.holds

/-- A mapping that `sys_mmap` has made, of a regular file. -/
theorem sysMmap_starts {w w' : Files} {p : Nat} {length prot flags fd r : Int}
    (hused : ∀ i a, w.Live p i a → (w.vma a).f ≠ none) (hfile : ¬ w.NoFile p fd)
    (hrun : sysMmap p length prot flags fd w = .ok r w') :
    ∃ f a, (w'.vma a).f = some f ∧ (w'.vma a).addr = r ∧ (w'.vma a).length = length ∧
      ∀ {V : View} {c : TFFile} {cs : List Nat} {io : FileIo KernelIo},
        FileOn V io.file.filepath c cs → V.On io.fs.fat → io.file = w'.fileTable f →
        io.file.type = .entry →
        PagingStart V io.file.filepath c cs ⟨io, w'.vma a, fun _ => none⟩ := by
  obtain ⟨hno, -⟩ | ⟨f, a, addr, -, -, -, -, hr, hvma, hposition, -⟩ := sysMmap_cases hused hrun
  · exact absurd hno hfile
  · refine ⟨f, a, ?_, ?_, ?_, fun hon hview hio htype => ?_⟩
    · rw [hvma, Function.update_self]
    · rw [hvma, Function.update_self, hr]
    · rw [hvma, Function.update_self]
    · exact ⟨hon, hview, rfl, htype, by rw [hio]; exact hposition, fun _ => rfl⟩

/-- Two pages are mapped to the file `A` with five bytes. -/
def helloPaging : Paging where
  io := {
    file := { File.zero with
      filepath := [slash, 0x41]
      ref := 1
      readable := true
      type := .entry }
    mounted := fun i => if i = 0 then some rootMount else none
    fs := ⟨helloVolume, fun _ => 0⟩
    log := [] }
  vma := { Mapping.zero with addr := 2 ^ 38 - 7 * 4096, length := 8192, f := some 0 }
  pages _ := none

theorem helloPaging_start : ∃ c, c.size = 5 ∧
    PagingStart helloVolume.view [slash, 0x41] c [3] helloPaging := by
  obtain ⟨c, h, hsize⟩ := helloVolume_names
  exact ⟨c, hsize, ⟨h.valid, h.found, h.regular, h.start, h.chain, h.room⟩, ⟨h.coherent, rfl⟩,
    rfl, rfl, rfl, fun _ => rfl⟩

theorem helloPaging_opens : Exists (tfFopen helloPaging.io.file.filepath .r)
    helloPaging.io.fs.fat := by
  obtain ⟨c, h, -⟩ := helloVolume_names
  exact h.opens

/-- The page of a fault, whichever it is, has the first bytes of the file. -/
theorem helloPaging_fault (eaddr : Nat) {c : TFFile}
    (h : PagingStart helloVolume.view [slash, 0x41] c [3] helloPaging)
    (hrun : (userFault eaddr pgsize true helloPaging).value = some true) :
    ∃ w, pagingStep helloPaging (.fault eaddr pgsize true) = some w ∧
      w.vma = helloPaging.vma ∧
      w.pages (pgrounddown eaddr) = some (window helloVolume.view c [3] (readFrom c.size 0)) := by
  obtain ⟨w, hw⟩ := Res.eq_ok_of_value hrun
  obtain ⟨r, io, hread, hw'⟩ := userFault_ok hw
  have hpage := (h.inv.faulted helloPaging_opens (by decide) hread).2.2.2 rfl
  refine ⟨w, by simp only [pagingStep, hw], by rw [hw']; rfl, ?_⟩
  rw [hw', ← show helloPaging.io.file.position = 0 from rfl, ← hpage]
  exact Function.update_self ..

theorem demand_paging_hello : ∃ (w : Paging) (c : TFFile) (page : List UInt8), c.size = 5 ∧ w.pages w.vma.addr = some page ∧
    page = window helloVolume.view c [3] 0 := by
  obtain ⟨c, hsize, h⟩ := helloPaging_start
  have hdown : pgrounddown helloPaging.vma.addr = helloPaging.vma.addr := by decide
  obtain ⟨w, hstep, hvma, hpage⟩ := helloPaging_fault helloPaging.vma.addr h
    (by decide +kernel)
  have hsafe : PagingSafe helloVolume.view c [3] helloPaging
      (.fault helloPaging.vma.addr pgsize true) := by
    refine ⟨helloPaging_opens, by decide, fun _ => ⟨rfl, ?_⟩⟩
    rw [hdown, Nat.sub_self, readFrom]
    split <;> rfl
  have hholds := demand_paging (.next (.start h) hsafe hstep)
  rw [hdown, ← hvma] at hpage
  exact ⟨w, c, _, hsize, hpage, hholds 0 _ (by rw [Nat.zero_mul]; exact hpage)⟩

/-- The second page is wanted first, and has the bytes of the first one. -/
theorem demand_paging_misplaces : ∃ c w, c.size = 5 ∧
    Run.Reach (PagingStart helloVolume.view [slash, 0x41] c [3])
      (fun w a w' => pagingStep w a = some w') Run.anyStep w ∧
    ¬ w.Holds helloVolume.view c [3] := by
  obtain ⟨c, hsize, h⟩ := helloPaging_start
  have hdown : pgrounddown (helloPaging.vma.addr + pgsize) = helloPaging.vma.addr + 1 * pgsize := by
    decide
  obtain ⟨w, hstep, hvma, hpage⟩ := helloPaging_fault (helloPaging.vma.addr + pgsize) h
    (by decide +kernel)
  refine ⟨c, w, hsize, .next (.start h) trivial hstep, fun hholds => ?_⟩
  rw [hdown, ← hvma] at hpage
  have heq := hholds 1 _ hpage
  rw [hsize] at heq
  have hfirst : (window helloVolume.view c [3] (readFrom 5 0))[0]? = some 0x68 := by
    simp only [window, hsize]
    decide +kernel
  have hzero : (window helloVolume.view c [3] (1 * pgsize))[0]? = some 0 := by
    simp only [window, hsize]
    decide +kernel
  rw [heq, hzero] at hfirst
  cases hfirst

end PageFaultOS
