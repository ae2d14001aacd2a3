import Mathlib.Tactic
import PageFaultOS.Lib.Refs
import PageFaultOS.Lib.Run
import PageFaultOS.Fs.FileTable

/-! The reference counts of the file table, over any sequence of the calls that open, copy
and drop files. -/

namespace PageFaultOS
open Exec Exec.Comp Refs

/-- The calls, each by a process that is alive. -/
inductive FilesAction where
  | open (p : Nat) (filename : List UInt8) (flags : Nat) (fs : FsOpen)
  | close (p : Nat) (fd : Int)
  | dup (p : Nat) (fd : Int)
  | dup3 (p : Nat) (oldfd newfd : Int)
  | pipe2 (p : Nat) (pi : Option Nat) (copied : Bool)
  | mmap (p : Nat) (length prot flags fd : Int)
  | munmap (p addr : Nat) (sz r : Int) (unmapped : Bool)
  | fork (p : Nat) (child : Option Nat)
  | clone (p : Nat) (child : Option Nat) (stack : Nat) (flags : Int)
  | exit (p : Nat) (r : Nat → Int) (unmapped : Bool)
  | freeproc (p child : Nat)

namespace Files

def Alive (w : Files) (p : Nat) : Prop :=
  p < NPROC ∧ (w.procTable p).state ≠ .unused ∧ (w.procTable p).state ≠ .zombie

instance (w : Files) (p : Nat) : Decidable (w.Alive p) := inferInstanceAs (Decidable (_ ∧ _ ∧ _))

/-- The entry that `allocproc` finds, if it finds one. -/
def Allocates (w : Files) : Option Nat → Prop
  | none => True
  | some child => child ≠ 0 ∧ child < NPROC ∧ (w.procTable child).state = .unused

instance (w : Files) : (child : Option Nat) → Decidable (w.Allocates child)
  | none => inferInstanceAs (Decidable True)
  | some _ => inferInstanceAs (Decidable (_ ∧ _ ∧ _))

end Files

def FilesAction.proc : FilesAction → Nat
  | .open p .. | .close p _ | .dup p _ | .dup3 p .. | .pipe2 p .. | .mmap p .. | .munmap p ..
  | .fork p _ | .clone p .. | .exit p .. | .freeproc p _ => p

/-- What a call needs besides a process that makes it. -/
def FilesAction.Enabled (w : Files) : FilesAction → Prop
  | .fork _ child | .clone _ child _ _ => w.Allocates child
  | .freeproc _ child => child < NPROC ∧ (w.procTable child).state = .zombie
  | _ => True

instance (w : Files) : (a : FilesAction) → Decidable (a.Enabled w)
  | .fork _ child | .clone _ child _ _ => inferInstanceAs (Decidable (w.Allocates child))
  | .freeproc _ _ => inferInstanceAs (Decidable (_ ∧ _))
  | .open .. | .close .. | .dup .. | .dup3 .. | .pipe2 .. | .mmap .. | .munmap .. | .exit .. =>
    inferInstanceAs (Decidable True)

def FilesAction.call : FilesAction → FilesComp Unit
  | .open p filename flags fs => do let _ ← vfsopen p filename flags fs
  | .close p fd => do let _ ← sysClose p fd
  | .dup p fd => do let _ ← sysDup p fd
  | .dup3 p oldfd newfd => do let _ ← sysDup3 p oldfd newfd
  | .pipe2 p pi copied => do let _ ← sysPipe2 p pi copied
  | .mmap p length prot flags fd => do let _ ← sysMmap p length prot flags fd
  | .munmap p addr sz r unmapped => do let _ ← sysMunmap p addr sz r unmapped
  | .fork p child => do let _ ← Files.fork p child
  | .clone p child stack flags => do let _ ← Files.clone p child stack flags
  | .exit p r unmapped => Files.exit p r unmapped
  | .freeproc _ child => Files.freeproc child

/-- A call that panics is the last one. -/
def filesStep (w : Files) (a : FilesAction) : Option Files :=
  if w.Alive a.proc ∧ a.Enabled w then
    match a.call w with
    | .ok _ w' => some w'
    | .fault _ _ => none
  else none

/-! ## The counts -/

def ofileSlots : Finset (Nat × Nat) := Finset.range NPROC ×ˢ Finset.range NOFILE

def Files.slot (w : Files) (x : Nat × Nat) : Option Nat := (w.procTable x.1).ofile x.2

/-- The live mappings are those with a file. -/
def Files.mapped (w : Files) (a : Nat) : Option Nat := (w.vma a).f

/-- The descriptors and mappings that point to file `f`. -/
def Files.pointing (w : Files) (f : Nat) : Nat :=
  refs ofileSlots w.slot f + refs (Finset.range NVMA) w.mapped f

/-- What is to hold of the table. -/
def FilesOk (w : Files) : Prop :=
  ∀ f < NFILE, (w.fileTable f).ref = w.pointing f ∧
    ((w.fileTable f).type = .none ∧ (w.fileTable f).ref = 0 ↔ w.pointing f = 0)

/-- The tables as they are after `vfsinit`. -/
structure FilesStart (w : Files) : Prop where
  files : ∀ f, w.fileTable f = File.zero
  ofile : ∀ p fd, (w.procTable p).ofile fd = none
  mapped : ∀ a, (w.vma a).f = none
  vma : ∀ p i, (w.procTable p).vma i = none

/-- The steps that drop no reference: `close` of an empty slot, `dup3` to an empty slot, an
`munmap` after which the mapping is not empty, `exit` without files and mappings. -/
def DropsNone (w : Files) : FilesAction → Prop
  | .close p fd => (w.procTable p).ofile fd.toNat = none
  | .dup3 p _ newfd =>
    newfd < 0 ∨ newfd ≤ (NFILE : Int) ∧ (w.procTable p).ofile newfd.toNat = none
  | .munmap p addr sz _ _ => ∀ i a, findVma w p addr = some (i, a) →
    Int.bmod ((w.vma a).length - sz) (2 ^ 32) ≠ 0
  | .exit p _ _ => (∀ fd < NOFILE, (w.procTable p).ofile fd = none) ∧
    ∀ i < NOMMAPFILE, (w.procTable p).vma i = none
  | _ => True

/-- In the middle of a call of process `p`, which is in state `st`: `held` are the references
that are counted already and not stored yet. -/
structure FilesInv (p : Nat) (st : ProcState) (held : List Nat) (w : Files) : Prop where
  counted : ∀ f < NFILE, (w.fileTable f).ref = (w.pointing f + held.count f : Nat)
  typed : ∀ f < NFILE, f ∉ held → ((w.fileTable f).type = .none ↔ (w.fileTable f).ref = 0)
  slotBound : ∀ x ∈ ofileSlots, ∀ f, w.slot x = some f → f < NFILE
  mappedBound : ∀ a f, w.mapped a = some f → f < NFILE
  idle : ∀ q < NPROC, q ≠ p →
    (w.procTable q).state = .unused ∨ (w.procTable q).state = .zombie →
      ∀ fd < NOFILE, (w.procTable q).ofile fd = none
  state : (w.procTable p).state = st

section Rules
variable {w w' : Files} {p f : Nat} {st : ProcState} {held : List Nat}

theorem pointing_congr (hslot : ∀ x ∈ ofileSlots, w'.slot x = w.slot x)
    (hmapped : ∀ a, w'.mapped a = w.mapped a) (f : Nat) : w'.pointing f = w.pointing f := by
  unfold Files.pointing
  rw [refs_congr hslot, refs_congr fun a _ => hmapped a]

/-- A change that leaves the counts, types, slots and mappings alone. -/
theorem FilesInv.of_same (hI : FilesInv p st held w)
    (hfile : ∀ f, (w'.fileTable f).ref = (w.fileTable f).ref ∧
      (w'.fileTable f).type = (w.fileTable f).type)
    (hproc : ∀ q, (w'.procTable q).state = (w.procTable q).state ∧
      (w'.procTable q).ofile = (w.procTable q).ofile)
    (hmapped : ∀ a, w'.mapped a = w.mapped a) : FilesInv p st held w' := by
  have hslot : ∀ x ∈ ofileSlots, w'.slot x = w.slot x := by
    intro x _
    show (w'.procTable x.1).ofile x.2 = (w.procTable x.1).ofile x.2
    rw [(hproc x.1).2]
  refine ⟨fun f hf => ?_, fun f hf hheld => ?_, fun x hx f h => ?_, fun a f h => ?_,
    fun q hq hqp hidle fd hfd => ?_, ?_⟩
  · rw [(hfile f).1, pointing_congr hslot hmapped]
    exact hI.counted f hf
  · rw [(hfile f).1, (hfile f).2]
    exact hI.typed f hf hheld
  · rw [hslot x hx] at h
    exact hI.slotBound x hx f h
  · rw [hmapped a] at h
    exact hI.mappedBound a f h
  · rw [(hproc q).1] at hidle
    rw [(hproc q).2]
    exact hI.idle q hq hqp hidle fd hfd
  · rw [(hproc p).1]
    exact hI.state

theorem withFile_apply (w : Files) (i j : Nat) (g : File → File) :
    (w.withFile i g).fileTable j = if j = i then g (w.fileTable i) else w.fileTable j := by
  by_cases hj : j = i
  · subst hj
    simp [Files.withFile]
  · simp [Files.withFile, hj]

theorem withProc_apply (w : Files) (i j : Nat) (g : FileProc → FileProc) :
    (w.withProc i g).procTable j = if j = i then g (w.procTable i) else w.procTable j := by
  by_cases hj : j = i
  · subst hj
    simp [Files.withProc]
  · simp [Files.withProc, hj]

theorem withVma_apply (w : Files) (i j : Nat) (g : Mapping → Mapping) :
    (w.withVma i g).vma j = if j = i then g (w.vma i) else w.vma j := by
  by_cases hj : j = i
  · subst hj
    simp [Files.withVma]
  · simp [Files.withVma, hj]

/-- A change of one mapping that keeps its file. -/
theorem FilesInv.withVma (hI : FilesInv p st held w) {a : Nat} (g : Mapping → Mapping)
    (hg : (g (w.vma a)).f = (w.vma a).f) : FilesInv p st held (w.withVma a g) := by
  refine hI.of_same (fun _ => ⟨rfl, rfl⟩) (fun _ => ⟨rfl, rfl⟩) fun b => ?_
  simp only [Files.mapped, withVma_apply]
  split
  · rename_i hb
    rw [hg, hb]
  · rfl

/-- A change of one process that keeps its state and its slots. -/
theorem FilesInv.withProc (hI : FilesInv p st held w) {q : Nat} (g : FileProc → FileProc)
    (hg : (g (w.procTable q)).state = (w.procTable q).state ∧
      (g (w.procTable q)).ofile = (w.procTable q).ofile) :
    FilesInv p st held (w.withProc q g) := by
  refine hI.of_same (fun _ => ⟨rfl, rfl⟩) (fun i => ?_) fun _ => rfl
  rw [withProc_apply]
  split
  · rename_i hi
    rw [hi]
    exact hg
  · exact ⟨rfl, rfl⟩

theorem FilesInv.perm {held' : List Nat} (hI : FilesInv p st held w) (h : held.Perm held') :
    FilesInv p st held' w := by
  refine ⟨fun f hf => ?_, fun f hf hheld => ?_, hI.slotBound, hI.mappedBound, hI.idle, hI.state⟩
  · rw [← h.count_eq]
    exact hI.counted f hf
  · exact hI.typed f hf fun hmem => hheld (h.mem_iff.mp hmem)

/-- A change of one file that keeps its count, and its type unless it is held. -/
theorem FilesInv.withFile (hI : FilesInv p st held w) (g : File → File)
    (href : (g (w.fileTable f)).ref = (w.fileTable f).ref)
    (htype : f ∈ held ∨ (g (w.fileTable f)).type = (w.fileTable f).type) :
    FilesInv p st held (w.withFile f g) := by
  refine ⟨fun k hk => ?_, fun k hk hheld => ?_, hI.slotBound, hI.mappedBound, hI.idle, hI.state⟩
  · have h := hI.counted k hk
    rw [withFile_apply]
    split
    · rename_i hkf
      rw [href, ← hkf]
      exact h
    · exact h
  · have h := hI.typed k hk hheld
    rw [withFile_apply]
    split
    · rename_i hkf
      subst hkf
      rw [href, htype.resolve_left hheld]
      exact h
    · exact h

/-- A file is counted once more. -/
theorem FilesInv.count (hI : FilesInv p st held w) (g : File → File)
    (href : (g (w.fileTable f)).ref = (w.fileTable f).ref + 1) :
    FilesInv p st (f :: held) (w.withFile f g) := by
  refine ⟨fun k hk => ?_, fun k hk hheld => ?_, hI.slotBound, hI.mappedBound, hI.idle, hI.state⟩
  · have h := hI.counted k hk
    have hpoint : (w.withFile f g).pointing k = w.pointing k := rfl
    rw [hpoint, withFile_apply, List.count_cons]
    by_cases hkf : k = f
    · subst hkf
      simp [href, h]
      omega
    · simp [hkf, Ne.symm hkf, h]
  · have hkf : k ≠ f := fun heq => hheld (heq ▸ List.mem_cons_self)
    rw [withFile_apply, if_neg hkf]
    exact hI.typed k hk fun h => hheld (List.mem_cons_of_mem _ h)

/-- A file that is held, and that nothing else is counted for, is freed. -/
theorem FilesInv.free (hI : FilesInv p st (f :: held) w) (hf : f < NFILE)
    (hone : (w.fileTable f).ref = 1) :
    FilesInv p st held (w.withFile f fun _ => File.zero) := by
  have hcount := hI.counted f hf
  rw [hone, List.count_cons_self] at hcount
  refine ⟨fun k hk => ?_, fun k hk hheld => ?_, hI.slotBound, hI.mappedBound, hI.idle, hI.state⟩
  · have hpoint : (w.withFile f fun _ => File.zero).pointing k = w.pointing k := rfl
    rw [hpoint, withFile_apply]
    by_cases hkf : k = f
    · subst hkf
      rw [if_pos rfl]
      show (0 : Int) = _
      omega
    · have h := hI.counted k hk
      rw [List.count_cons_of_ne (Ne.symm hkf)] at h
      rw [if_neg hkf]
      exact h
  · rw [withFile_apply]
    split
    · exact ⟨fun _ => rfl, fun _ => rfl⟩
    · rename_i hkf
      refine hI.typed k hk fun h => ?_
      rcases List.mem_cons.mp h with h | h
      · exact hkf h
      · exact hheld h

/-- What taking a held reference out of hand does to the counts and types. -/
private theorem FilesInv.stored (hI : FilesInv p st (f :: held) w) (w' : Files) (hf : f < NFILE)
    (htype : (w.fileTable f).type ≠ .none) (hfile : w'.fileTable = w.fileTable)
    (hpoint : ∀ k, w'.pointing k = w.pointing k + if k = f then 1 else 0) :
    (∀ k < NFILE, (w'.fileTable k).ref = (w'.pointing k + held.count k : Nat)) ∧
      ∀ k < NFILE, k ∉ held → ((w'.fileTable k).type = .none ↔ (w'.fileTable k).ref = 0) := by
  refine ⟨fun k hk => ?_, fun k hk hheld => ?_⟩
  · have h := hI.counted k hk
    rw [hfile, h, hpoint, List.count_cons]
    by_cases hkf : k = f
    · simp [hkf]
      omega
    · simp [hkf, Ne.symm hkf]
  · rw [hfile]
    by_cases hkf : k = f
    · subst hkf
      have h := hI.counted k hf
      rw [List.count_cons_self] at h
      exact ⟨fun h0 => absurd h0 htype, fun h0 => by omega⟩
    · refine hI.typed k hk fun h => ?_
      rcases List.mem_cons.mp h with h | h
      · exact hkf h
      · exact hheld h

/-- A held file is put into an empty slot. -/
theorem FilesInv.takeSlot (hI : FilesInv p st (f :: held) w) (hp : p < NPROC) (hf : f < NFILE)
    (htype : (w.fileTable f).type ≠ .none) {fd : Nat} (hfd : fd < NOFILE)
    (hnone : (w.procTable p).ofile fd = none) :
    FilesInv p st held (w.withProc p fun q =>
      { q with ofile := Function.update q.ofile fd (some f) }) := by
  have hslot : (w.withProc p fun q =>
      { q with ofile := Function.update q.ofile fd (some f) }).slot =
        Function.update w.slot (p, fd) (some f) := by
    funext ⟨q, i⟩
    simp only [Files.slot, withProc_apply, Function.update_apply, Prod.mk.injEq]
    by_cases hq : q = p
    · subst hq
      by_cases hi : i = fd <;> simp [hi]
    · simp [hq]
  have hmem : (p, fd) ∈ ofileSlots :=
    Finset.mk_mem_product (Finset.mem_range.mpr hp) (Finset.mem_range.mpr hfd)
  obtain ⟨hcounted, htyped⟩ := hI.stored (w.withProc p fun q =>
      { q with ofile := Function.update q.ofile fd (some f) }) hf htype rfl fun k => by
    show refs ofileSlots _ k + _ = _ + _ + _
    rw [hslot, refs_take hmem hnone]
    exact Nat.add_right_comm ..
  refine ⟨hcounted, htyped, fun x hx k h => ?_, hI.mappedBound, fun q hq hqp hidle i hi => ?_, ?_⟩
  · rw [hslot, Function.update_apply] at h
    split at h
    · cases h
      exact hf
    · exact hI.slotBound x hx k h
  · rw [withProc_apply, if_neg hqp] at hidle ⊢
    exact hI.idle q hq hqp hidle i hi
  · rw [withProc_apply, if_pos rfl]
    exact hI.state

/-- A held file is put into a free mapping. -/
theorem FilesInv.takeVma (hI : FilesInv p st (f :: held) w) (hf : f < NFILE)
    (htype : (w.fileTable f).type ≠ .none) {a : Nat} (ha : a < NVMA)
    (hnone : (w.vma a).f = none) (g : Mapping → Mapping) (hg : (g (w.vma a)).f = some f) :
    FilesInv p st held (w.withVma a g) := by
  have hmapped : (w.withVma a g).mapped = Function.update w.mapped a (some f) := by
    funext b
    simp only [Files.mapped, withVma_apply, Function.update_apply]
    by_cases hb : b = a
    · simp [hb, hg]
    · simp [hb]
  obtain ⟨hcounted, htyped⟩ := hI.stored (w.withVma a g) hf htype rfl fun k => by
    show _ + refs (Finset.range NVMA) _ k = _ + _ + _
    rw [hmapped, refs_take (Finset.mem_range.mpr ha) hnone]
    exact (Nat.add_assoc ..).symm
  refine ⟨hcounted, htyped, hI.slotBound, fun b k h => ?_, hI.idle, hI.state⟩
  rw [hmapped, Function.update_apply] at h
  split at h
  · cases h
    exact hf
  · exact hI.mappedBound b k h

end Rules

/-! ## The functions -/

section Functions
variable {w w' : Files} {p f : Nat} {st : ProcState} {held : List Nat}

theorem FilesInv.alloc (hI : FilesInv p st held w) {fp : Nat}
    (hrun : allocFileHandle w = .ok fp w') :
    fp < NFILE ∧ FilesInv p st (fp :: held) w' ∧ fp ∉ held ∧ (w'.fileTable fp).ref = 1 := by
  unfold allocFileHandle at hrun
  rw [read_bind] at hrun
  cases hfind : (List.range NFILE).find? fun i =>
      (w.fileTable i).ref = 0 ∧ (w.fileTable i).type = .none with
  | none =>
    rw [hfind] at hrun
    cases hrun
  | some i =>
    rw [hfind] at hrun
    cases hrun
    have hfree := List.find?_some hfind
    have hi : fp < NFILE := List.mem_range.mp (List.mem_of_find?_eq_some hfind)
    simp only [decide_eq_true_eq] at hfree
    have hcount := hI.counted fp hi
    refine ⟨hi, hI.count _ (by rw [hfree.1]; rfl), fun hmem => ?_, ?_⟩
    · have hpos := List.count_pos_iff.mpr hmem
      omega
    · rw [withFile_apply, if_pos rfl]

theorem FilesInv.regist (hI : FilesInv p st (f :: held) w) (hp : p < NPROC) (hf : f < NFILE)
    (htype : (w.fileTable f).type ≠ .none) {fd r : Int}
    (hfd : fd < 0 ∨ fd ≤ (NFILE : Int) ∧ (w.procTable p).ofile fd.toNat = none)
    (hrun : registFileHandle p f fd w = .ok r w') :
    FilesInv p st held w' ∧ w'.fileTable = w.fileTable := by
  unfold registFileHandle at hrun
  have hnot : ¬ (NFILE : Int) < fd := by
    rcases hfd with h | h
    · have : (0 : Int) ≤ NFILE := Int.natCast_nonneg _
      omega
    · exact Int.not_lt.mpr h.1
  rw [if_neg hnot, read_bind] at hrun
  by_cases hneg : fd < 0
  · rw [if_pos hneg] at hrun
    cases hfind : (List.range NOFILE).find? fun i => (w.procTable p).ofile i = none with
    | none =>
      rw [hfind] at hrun
      cases hrun
    | some i =>
      rw [hfind] at hrun
      cases hrun
      have hfree := List.find?_some hfind
      have hi : i < NOFILE := List.mem_range.mp (List.mem_of_find?_eq_some hfind)
      simp only [decide_eq_true_eq] at hfree
      exact ⟨hI.takeSlot hp hf htype hi hfree, rfl⟩
  · obtain ⟨hle, hnone⟩ := hfd.resolve_left hneg
    rw [if_neg hneg, if_pos hnone] at hrun
    cases hrun
    have hlt : fd.toNat < NOFILE := by
      have h1 : (NFILE : Int) = 100 := rfl
      have h2 : NOFILE = 120 := rfl
      omega
    exact ⟨hI.takeSlot hp hf htype hlt hnone, rfl⟩

theorem vfsdup_eq {x : Option Nat} {i : Nat} (hrun : vfsdup x w = .ok i w') :
    x = some i ∧ 1 ≤ (w.fileTable i).ref ∧
      w' = w.withFile i fun f => { f with ref := f.ref + 1 } := by
  cases x with
  | none => cases hrun
  | some j =>
    simp only [vfsdup, read_bind] at hrun
    split at hrun
    · cases hrun
    · rename_i href
      cases hrun
      exact ⟨rfl, Int.not_lt.mp href, rfl⟩

/-- A file that is counted has a type. -/
theorem FilesInv.type_ne (hI : FilesInv p st [] w) (hf : f < NFILE)
    (href : 1 ≤ (w.fileTable f).ref) : (w.fileTable f).type ≠ .none := by
  intro h
  have h0 := (hI.typed f hf List.not_mem_nil).mp h
  omega

theorem FilesInv.dup (hI : FilesInv p st [] w) {x : Option Nat} {i : Nat} (hi : i < NFILE)
    (hrun : vfsdup x w = .ok i w') :
    FilesInv p st [i] w' ∧ (w'.fileTable i).type ≠ .none ∧ w'.procTable = w.procTable ∧
      w'.vma = w.vma := by
  obtain ⟨_, href, rfl⟩ := vfsdup_eq hrun
  refine ⟨hI.count _ rfl, ?_, rfl, rfl⟩
  rw [withFile_apply, if_pos rfl]
  exact hI.type_ne hi href

theorem getFileByFd_eq {fd : Int} {x : Option Nat} (hrun : getFileByFd p fd w = .ok x w') :
    w' = w ∧ ∀ i, x = some i → ∃ n < NOFILE, (w.procTable p).ofile n = some i := by
  unfold getFileByFd at hrun
  split at hrun
  · cases hrun
    exact ⟨rfl, fun _ h => by cases h⟩
  · split at hrun
    · cases hrun
    · rename_i hrange hend
      cases hrun
      have hlt : fd.toNat < NOFILE := by omega
      exact ⟨rfl, fun i h => ⟨_, hlt, h⟩⟩

theorem FilesInv.slot_lt (hI : FilesInv p st held w) {q fd i : Nat} (hq : q < NPROC)
    (hfd : fd < NOFILE) (h : (w.procTable q).ofile fd = some i) : i < NFILE :=
  hI.slotBound (q, fd) (Finset.mk_mem_product (Finset.mem_range.mpr hq) (Finset.mem_range.mpr hfd))
    i h

theorem getAbPath_eq {path r : List UInt8} (hrun : getAbPath p path w = .ok r w') : w' = w := by
  have hkeeps : Keeps (fun w => w) (getAbPath p path) :=
    keeps_bind (keeps_read _) fun _ => keeps_ite (keeps_pure _ _) (keeps_fault _ _)
  exact hkeeps w r w' hrun

/-! ### The calls -/

theorem vfsopen_inv (hI : FilesInv p st [] w) (hp : p < NPROC) {filename : List UInt8}
    {flags : Nat} {fs : FsOpen} {r : Int} (hrun : vfsopen p filename flags fs w = .ok r w') :
    FilesInv p st [] w' := by
  obtain ⟨path, u, hpath, hrun⟩ := bind_eq_ok.mp hrun
  rw [getAbPath_eq hpath] at hrun
  obtain ⟨fp, v, halloc, hrun⟩ := bind_eq_ok.mp hrun
  obtain ⟨hfp, hv, _, hone⟩ := hI.alloc halloc
  rw [read_bind] at hrun
  cases hopen : fs.open (v.fileTable fp) with
  | none =>
    rw [hopen] at hrun
    cases hrun
    exact hv.free hfp hone
  | some f =>
    rw [hopen] at hrun
    obtain ⟨_, x, hset, hregist⟩ := bind_eq_ok.mp hrun
    cases hset
    have hf : f.ref = (v.fileTable fp).ref ∧ f.type ≠ .none := by
      cases fs with
      | device =>
        cases hopen
        exact ⟨rfl, fun h => by cases h⟩
      | entry =>
        cases hopen
        exact ⟨rfl, fun h => by cases h⟩
      | failed => cases hopen
    refine ((hv.withFile (f := fp) _ hf.1 (Or.inl List.mem_cons_self)).regist hp hfp ?_
      (Or.inl (by decide)) hregist).1
    rw [withFile_apply, if_pos rfl]
    exact hf.2

theorem sysClose_inv (hI : FilesInv p st [] w) {fd r : Int}
    (hnone : (w.procTable p).ofile fd.toNat = none) (hrun : sysClose p fd w = .ok r w') :
    FilesInv p st [] w' := by
  obtain ⟨x, u, hget, hrun⟩ := bind_eq_ok.mp hrun
  rw [(getFileByFd_eq hget).1] at hrun
  obtain ⟨_, v, hclose, hrun⟩ := bind_eq_ok.mp hrun
  cases hclose
  split at hrun
  · cases hrun
  · cases hrun
    refine hI.withProc _ ⟨rfl, ?_⟩
    show Function.update (w.procTable p).ofile fd.toNat none = (w.procTable p).ofile
    rw [← hnone, Function.update_eq_self]

theorem sysDup_inv (hI : FilesInv p st [] w) (hp : p < NPROC) {fd r : Int}
    (hrun : sysDup p fd w = .ok r w') : FilesInv p st [] w' := by
  obtain ⟨x, u, hget, hrun⟩ := bind_eq_ok.mp hrun
  obtain ⟨rfl, hx⟩ := getFileByFd_eq hget
  cases x with
  | none =>
    cases hrun
    exact hI
  | some fp =>
    obtain ⟨i, v, hdup, hrun⟩ := bind_eq_ok.mp hrun
    obtain ⟨n, hn, hslot⟩ := hx fp rfl
    obtain ⟨heq, _, _⟩ := vfsdup_eq hdup
    cases heq
    have hi := hI.slot_lt hp hn hslot
    obtain ⟨hv, htype, _, _⟩ := hI.dup hi hdup
    exact (hv.regist hp hi htype (Or.inl (by decide)) hrun).1

theorem sysDup3_inv (hI : FilesInv p st [] w) (hp : p < NPROC) {oldfd newfd r : Int}
    (hnew : newfd < 0 ∨ newfd ≤ (NFILE : Int) ∧ (w.procTable p).ofile newfd.toNat = none)
    (hrun : sysDup3 p oldfd newfd w = .ok r w') : FilesInv p st [] w' := by
  unfold sysDup3 at hrun
  obtain ⟨x, u, hget, hrest⟩ := bind_eq_ok.mp hrun
  obtain ⟨hu, hx⟩ := getFileByFd_eq hget
  rw [hu] at hrest
  obtain ⟨i, v, hdup, hrest⟩ := bind_eq_ok.mp hrest
  obtain ⟨heq, _, _⟩ := vfsdup_eq hdup
  obtain ⟨n, hn, hslot⟩ := hx i heq
  have hi := hI.slot_lt hp hn hslot
  obtain ⟨hv, htype, hproc, _⟩ := hI.dup hi hdup
  obtain ⟨ansfd, y, hregist, hrest⟩ := bind_eq_ok.mp hrest
  rw [← hproc] at hnew
  obtain ⟨hy, _⟩ := hv.regist hp hi htype hnew hregist
  split at hrest <;> cases hrest <;> exact hy

theorem sysPipe2_inv (hI : FilesInv p st [] w) (hp : p < NPROC) {pi : Option Nat} {copied : Bool}
    {r : Int} (hrun : sysPipe2 p pi copied w = .ok r w') : FilesInv p st [] w' := by
  obtain ⟨fds, y, hcreate, hrest⟩ := bind_eq_ok.mp hrun
  cases fds with
  | none => cases hrest
  | some fds =>
    have hy : y = w' := by
      cases copied with
      | true =>
        cases hrest
        rfl
      | false =>
        obtain ⟨_, _, hget0, hrest⟩ := bind_eq_ok.mp hrest
        rw [(getFileByFd_eq hget0).1] at hrest
        obtain ⟨_, _, hclose0, hrest⟩ := bind_eq_ok.mp hrest
        cases hclose0
        obtain ⟨_, _, hget1, hrest⟩ := bind_eq_ok.mp hrest
        rw [(getFileByFd_eq hget1).1] at hrest
        cases hrest
        rfl
    rw [← hy]
    unfold vfscreatePipe at hcreate
    obtain ⟨f0, u, halloc0, hcreate⟩ := bind_eq_ok.mp hcreate
    obtain ⟨f1, v, halloc1, hcreate⟩ := bind_eq_ok.mp hcreate
    obtain ⟨hf0, hu, _, _⟩ := hI.alloc halloc0
    obtain ⟨hf1, hv, hnew, _⟩ := hu.alloc halloc1
    have hne : f0 ≠ f1 := fun heq => hnew (heq ▸ List.mem_cons_self)
    cases pi with
    | none => cases hcreate
    | some pi =>
      simp only [setFile, modify_bind] at hcreate
      have hset0 := hv.withFile (f := f0) (fun f =>
        { f with type := .pipe, readable := true, writable := false, pip := some pi }) rfl
        (Or.inl (List.mem_cons_of_mem _ List.mem_cons_self))
      have hset1 := hset0.withFile (f := f1) (fun f =>
        { f with type := .pipe, readable := false, writable := true, pip := some pi }) rfl
        (Or.inl List.mem_cons_self)
      obtain ⟨fd0, x, hregist0, hcreate⟩ := bind_eq_ok.mp hcreate
      obtain ⟨fd1, z, hregist1, hcreate⟩ := bind_eq_ok.mp hcreate
      cases hcreate
      obtain ⟨hx, htable⟩ := (hset1.perm (List.Perm.swap ..)).regist hp hf0
        (by simp [withFile_apply, hne]) (Or.inl (by decide)) hregist0
      exact (hx.regist hp hf1 (by simp [htable, withFile_apply]) (Or.inl (by decide)) hregist1).1

theorem argfd_eq {fd : Int} {x : Option Nat} (hrun : argfd p fd w = .ok x w') :
    w' = w ∧ ∀ i, x = some i → ∃ n < NOFILE, (w.procTable p).ofile n = some i := by
  unfold argfd at hrun
  rw [read_bind] at hrun
  split at hrun
  · cases hrun
    exact ⟨rfl, fun _ h => by cases h⟩
  · rename_i hrange
    cases hrun
    have hlt : fd.toNat < NOFILE := by omega
    exact ⟨rfl, fun i h => ⟨_, hlt, h⟩⟩

theorem allocVma_eq {x : Option Nat} (hrun : allocVma w = .ok x w') :
    w' = w ∧ ∀ a, x = some a → a < NVMA ∧ (w.vma a).f = none := by
  unfold allocVma at hrun
  rw [read_bind] at hrun
  cases hrun
  refine ⟨rfl, fun a hfind => ⟨List.mem_range.mp (List.mem_of_find?_eq_some hfind), ?_⟩⟩
  simpa using List.find?_some hfind

theorem sysMmap_inv (hI : FilesInv p st [] w) (hp : p < NPROC) {length prot flags fd r : Int}
    (hrun : sysMmap p length prot flags fd w = .ok r w') : FilesInv p st [] w' := by
  obtain ⟨x, u, hget, hrest⟩ := bind_eq_ok.mp hrun
  obtain ⟨hu, hx⟩ := argfd_eq hget
  rw [hu] at hrest
  cases x with
  | none =>
    cases hrest
    exact hI
  | some f =>
    obtain ⟨n, hn, hslot⟩ := hx f rfl
    have hf := hI.slot_lt hp hn hslot
    obtain ⟨a, v, halloc, hrest⟩ := bind_eq_ok.mp hrest
    obtain ⟨hv, ha⟩ := allocVma_eq halloc
    rw [hv] at hrest
    obtain ⟨i, y, hdup, hrest⟩ := bind_eq_ok.mp hrest
    obtain ⟨heq, _, _⟩ := vfsdup_eq hdup
    cases heq
    obtain ⟨hy, htype, _, hvma⟩ := hI.dup hf hdup
    simp only [setFile, modify_bind] at hrest
    cases a with
    | none => cases hrest
    | some a =>
      obtain ⟨halt, hfree⟩ := ha a rfl
      have hrewound := hy.withFile (f := f) (fun x => { x with position := 0 }) rfl (Or.inr rfl)
      have htaken := hrewound.takeVma hf (by rw [withFile_apply, if_pos rfl]; exact htype) halt
        (by show (y.vma a).f = none; rw [hvma]; exact hfree)
        (fun v => { v with f := some f, length := length }) rfl
      simp only [setVma, modify_bind, read_bind] at hrest
      -- the slot that is found, if any, does not matter
      generalize List.find? _ (List.range NOMMAPFILE) = slot at hrest
      cases slot with
      | none =>
        cases hrest
        exact htaken.withVma _ rfl
      | some i =>
        cases hrest
        exact FilesInv.withProc (htaken.withVma _ rfl) _ ⟨rfl, rfl⟩

/-- What is written back changes the sizes and positions of files only. -/
theorem unmapVma_inv (hI : FilesInv p st held w) {a : Nat} {r : Int} {unmapped : Bool}
    (hrun : unmapVma a r unmapped w = .ok () w') :
    FilesInv p st held w' ∧ w'.vma = w.vma := by
  have hrewind : ∀ {w w' : Files} {x : Option Nat}, FilesInv p st held w →
      vfsrewind x w = .ok () w' → FilesInv p st held w' ∧ w'.vma = w.vma := by
    intro w w' x hI hrun
    cases x with
    | none => cases hrun
    | some i =>
      simp only [vfsrewind, read_bind] at hrun
      split at hrun
      · cases hrun
      · cases hrun
        exact ⟨hI.withFile _ rfl (Or.inr rfl), rfl⟩
  have hwrite : ∀ {w w' : Files} {x : Option Nat}, FilesInv p st held w →
      vfswrite x r w = .ok () w' → FilesInv p st held w' ∧ w'.vma = w.vma := by
    intro w w' x hI hrun
    cases x with
    | none =>
      cases hrun
      exact ⟨hI, rfl⟩
    | some i =>
      simp only [vfswrite, read_bind] at hrun
      split at hrun
      · cases htype : (w.fileTable i).type with
        | none =>
          simp only [htype] at hrun
          cases hrun
        | entry =>
          simp only [htype] at hrun
          cases hrun
          exact ⟨hI.withFile _ rfl (Or.inr rfl), rfl⟩
        | pipe | device =>
          simp only [htype] at hrun
          cases hrun
          exact ⟨hI, rfl⟩
      · cases hrun
        exact ⟨hI, rfl⟩
  have hunmap : ∀ {u : Files}, (if unmapped then pure () else Comp.panic "vmunmap") u =
      (Res.ok () w' : Res Files Unit) → w' = u := by
    intro u h
    cases unmapped with
    | true =>
      cases h
      rfl
    | false => cases h
  unfold unmapVma at hrun
  rw [read_bind] at hrun
  split at hrun
  · obtain ⟨_, u, hrw, hrest⟩ := bind_eq_ok.mp hrun
    obtain ⟨_, v, hwr, hrest⟩ := bind_eq_ok.mp hrest
    obtain ⟨hu, huvma⟩ := hrewind hI hrw
    obtain ⟨hv, hvvma⟩ := hwrite hu hwr
    rw [hunmap hrest]
    exact ⟨hv, hvvma.trans huvma⟩
  · rw [hunmap hrun]
    exact ⟨hI, rfl⟩

theorem sysMunmap_inv (hI : FilesInv p st [] w) {addr : Nat} {sz r r' : Int} {unmapped : Bool}
    (hleft : ∀ i a, findVma w p addr = some (i, a) →
      Int.bmod ((w.vma a).length - sz) (2 ^ 32) ≠ 0)
    (hrun : sysMunmap p addr sz r unmapped w = .ok r' w') : FilesInv p st [] w' := by
  simp only [sysMunmap, read_bind] at hrun
  cases hfind : findVma w p addr with
  | none =>
    rw [hfind] at hrun
    cases hrun
    exact hI
  | some x =>
    obtain ⟨i, a⟩ := x
    rw [hfind] at hrun
    obtain ⟨_, u, hunmap, hrest⟩ := bind_eq_ok.mp hrun
    obtain ⟨hu, hvma⟩ := unmapVma_inv hI hunmap
    simp only [setVma, modify_bind, read_bind] at hrest
    have hne : ¬ ((u.withVma a fun v =>
        { v with length := Int.bmod (v.length - sz) (2 ^ 32) }).vma a).length = 0 := by
      rw [withVma_apply, if_pos rfl, hvma]
      exact hleft i a hfind
    rw [if_neg hne] at hrest
    cases hrest
    exact hu.withVma _ rfl

theorem copyOfile_inv (hp : p < NPROC) {child : Nat} (hc : child < NPROC) (l : List Nat)
    (hl : l.Nodup) {w w' : Files} (hI : FilesInv child st [] w)
    (hempty : ∀ i ∈ l, i < NOFILE ∧ (w.procTable child).ofile i = none)
    (hrun : forEach l (copyOfile p child) w = .ok () w') : FilesInv child st [] w' := by
  induction l generalizing w with
  | nil =>
    cases hrun
    exact hI
  | cons i l ih =>
    obtain ⟨hnotin, hl⟩ := List.nodup_cons.mp hl
    obtain ⟨_, u, hcopy, hrest⟩ := bind_eq_ok.mp hrun
    obtain ⟨hi, hnone⟩ := hempty i List.mem_cons_self
    have htail := fun j hj => hempty j (List.mem_cons_of_mem _ hj)
    simp only [copyOfile, read_bind] at hcopy
    cases hslot : (w.procTable p).ofile i with
    | none =>
      rw [hslot] at hcopy
      cases hcopy
      exact ih hl hI htail hrest
    | some fp =>
      rw [hslot] at hcopy
      obtain ⟨k, v, hdup, hset⟩ := bind_eq_ok.mp hcopy
      cases hset
      obtain ⟨heq, _, _⟩ := vfsdup_eq hdup
      cases heq
      have hf := hI.slot_lt hp hi hslot
      obtain ⟨hv, htype, hproc, _⟩ := hI.dup hf hdup
      rw [← hproc] at hnone
      refine ih hl (hv.takeSlot hc hf htype hi hnone) (fun j hj => ?_) hrest
      obtain ⟨hlt, hj'⟩ := htail j hj
      have hji : j ≠ i := fun h => hnotin (h ▸ hj)
      refine ⟨hlt, ?_⟩
      rw [withProc_apply, if_pos rfl, hproc]
      show Function.update (w.procTable child).ofile i _ j = none
      rw [Function.update_of_ne hji, hj']

theorem copyVma_inv (hI : FilesInv p st [] w) {child i a : Nat}
    (hrun : copyVma child i a w = .ok () w') : FilesInv p st [] w' := by
  obtain ⟨x, u, halloc, hrest⟩ := bind_eq_ok.mp hrun
  obtain ⟨hu, hx⟩ := allocVma_eq halloc
  rw [hu] at hrest
  cases x with
  | none => cases hrest
  | some b =>
    obtain ⟨hb, hfree⟩ := hx b rfl
    simp only [setVma, read_bind, modify_bind] at hrest
    obtain ⟨k, v, hdup, hset⟩ := bind_eq_ok.mp hrest
    obtain ⟨hfile, href, rfl⟩ := vfsdup_eq hdup
    cases hset
    have hk := hI.mappedBound a k hfile
    have hcounted := hI.count (f := k) (fun f => { f with ref := f.ref + 1 }) rfl
    have htype : ((w.withFile k fun f => { f with ref := f.ref + 1 }).fileTable k).type ≠
        .none := by
      rw [withFile_apply, if_pos rfl]
      exact hI.type_ne hk href
    -- the count comes after the store, but touches another table
    exact (hcounted.takeVma hk htype hb hfree (fun _ => w.vma a) hfile).withProc _ ⟨rfl, rfl⟩

theorem copyVmaSlot_inv (hI : FilesInv f st [] w) {child i : Nat}
    (hrun : copyVmaSlot p child i w = .ok () w') : FilesInv f st [] w' := by
  simp only [copyVmaSlot, read_bind, setVmaSlot, modify_bind] at hrun
  have hcleared := hI.withProc (q := child) (fun q => { q with vma := Function.update q.vma i none })
    ⟨rfl, rfl⟩
  cases hvma : (w.procTable p).vma i with
  | none =>
    rw [hvma] at hrun
    cases hrun
    exact hcleared
  | some a =>
    rw [hvma] at hrun
    exact copyVma_inv hcleared hrun

end Functions

/-! ## Runs -/

/-- Between the calls. -/
def RefsInv (w : Files) : Prop := ∀ p, FilesInv p (w.procTable p).state [] w

section Steps
variable {w w' : Files} {p : Nat} {st : ProcState}

theorem RefsInv.idle (hI : RefsInv w) {q : Nat} (hq : q < NPROC)
    (h : (w.procTable q).state = .unused ∨ (w.procTable q).state = .zombie) :
    ∀ fd < NOFILE, (w.procTable q).ofile fd = none :=
  (hI (q + 1)).idle q hq (Nat.ne_of_lt (Nat.lt_succ_self q)) h

/-- After a call: the process is alive, or has no files. -/
theorem FilesInv.settled (hI : FilesInv p st [] w)
    (hp : st = .unused ∨ st = .zombie → ∀ fd < NOFILE, (w.procTable p).ofile fd = none) :
    RefsInv w := by
  refine fun q => ⟨hI.counted, hI.typed, hI.slotBound, hI.mappedBound, fun i hi _ hidle => ?_, rfl⟩
  by_cases hip : i = p
  · subst hip
    rw [hI.state] at hidle
    exact hp hidle
  · exact hI.idle i hi hip hidle

/-- The process itself gets another state. -/
theorem FilesInv.setState (hI : FilesInv p st [] w) (g : FileProc → FileProc)
    (hg : (g (w.procTable p)).ofile = (w.procTable p).ofile) :
    FilesInv p (g (w.procTable p)).state [] (w.withProc p g) := by
  have hofile : ∀ q, ((w.withProc p g).procTable q).ofile = (w.procTable q).ofile := by
    intro q
    rw [withProc_apply]
    split
    · rename_i hq
      rw [hq]
      exact hg
    · rfl
  have hslot : ∀ x ∈ ofileSlots, (w.withProc p g).slot x = w.slot x := by
    intro x _
    exact congrFun (hofile x.1) x.2
  refine ⟨fun f hf => ?_, hI.typed, fun x hx f h => ?_, hI.mappedBound, fun q hq hqp hidle => ?_, ?_⟩
  · rw [pointing_congr hslot fun _ => rfl]
    exact hI.counted f hf
  · rw [hslot x hx] at h
    exact hI.slotBound x hx f h
  · rw [withProc_apply, if_neg hqp] at hidle ⊢
    exact hI.idle q hq hqp hidle
  · rw [withProc_apply, if_pos rfl]

theorem fork_inv (hI : RefsInv w) (hp : p < NPROC) {child : Option Nat}
    (hchild : w.Allocates child) {r : Int} (hrun : Files.fork p child w = .ok r w') :
    RefsInv w' := by
  cases child with
  | none =>
    cases hrun
    exact hI
  | some c =>
    obtain ⟨_, hc, hunused⟩ := hchild
    obtain ⟨_, v, hcopy, hret⟩ := bind_eq_ok.mp hrun
    cases hret
    obtain ⟨_, x, hofile, hcopy⟩ := bind_eq_ok.mp hcopy
    obtain ⟨_, y, hvma, hcopy⟩ := bind_eq_ok.mp hcopy
    cases hcopy
    have hx := copyOfile_inv hp hc (List.range NOFILE) List.nodup_range (hI c) (fun i hi =>
      ⟨List.mem_range.mp hi, hI.idle hc (Or.inl hunused) i (List.mem_range.mp hi)⟩) hofile
    have hy := forEach_inv (fun i _ s s' hs hs' => copyVmaSlot_inv hs hs') hx hvma
    exact (hy.setState (fun q => { q with workDir := (y.procTable p).workDir, state := .runnable })
      rfl).settled fun h => by rcases h with h | h <;> cases h

theorem exit_eq (hofile : ∀ fd < NOFILE, (w.procTable p).ofile fd = none)
    (hvma : ∀ i < NOMMAPFILE, (w.procTable p).vma i = none) (r : Nat → Int) (unmapped : Bool) :
    Files.exit p r unmapped w = .ok () ((w.withProc p fun q => { q with workDir := [] }).withProc p
      fun q => { q with state := .zombie }) := by
  unfold Files.exit
  rw [bind_ok (forEach_skip fun fd hfd => ?_), modify_bind, bind_ok (forEach_skip fun i hi => ?_)]
  · rfl
  · rw [read_bind, withProc_apply, if_pos rfl, hvma i (List.mem_range.mp hi)]
    rfl
  · rw [read_bind, if_neg (not_not_intro (hofile fd (List.mem_range.mp hfd)))]
    rfl

theorem refsInv_step {a : FilesAction} (hI : RefsInv w) (hok : DropsNone w a)
    (hstep : filesStep w a = some w') : RefsInv w' := by
  unfold filesStep at hstep
  split at hstep
  swap
  · cases hstep
  rename_i henabled
  obtain ⟨⟨hp, halive⟩, henabled⟩ := henabled
  cases hcall : a.call w with
  | fault => rw [hcall] at hstep; cases hstep
  | ok _ v =>
    rw [hcall] at hstep
    cases hstep
    -- a call of a process that goes on
    have hdone : ∀ {w' : Files}, FilesInv a.proc (w.procTable a.proc).state [] w' → RefsInv w' :=
      fun h => h.settled fun hst => by
        rcases hst with hst | hst
        · exact absurd hst halive.1
        · exact absurd hst halive.2
    cases a with
    | «open» p filename flags fs =>
      obtain ⟨_, _, hrun, hret⟩ := bind_eq_ok.mp hcall
      cases hret
      exact hdone (vfsopen_inv (hI p) hp hrun)
    | close p fd =>
      obtain ⟨_, _, hrun, hret⟩ := bind_eq_ok.mp hcall
      cases hret
      exact hdone (sysClose_inv (hI p) hok hrun)
    | dup p fd =>
      obtain ⟨_, _, hrun, hret⟩ := bind_eq_ok.mp hcall
      cases hret
      exact hdone (sysDup_inv (hI p) hp hrun)
    | dup3 p oldfd newfd =>
      obtain ⟨_, _, hrun, hret⟩ := bind_eq_ok.mp hcall
      cases hret
      exact hdone (sysDup3_inv (hI p) hp hok hrun)
    | pipe2 p pi copied =>
      obtain ⟨_, _, hrun, hret⟩ := bind_eq_ok.mp hcall
      cases hret
      exact hdone (sysPipe2_inv (hI p) hp hrun)
    | mmap p length prot flags fd =>
      obtain ⟨_, _, hrun, hret⟩ := bind_eq_ok.mp hcall
      cases hret
      exact hdone (sysMmap_inv (hI p) hp hrun)
    | munmap p addr sz r unmapped =>
      obtain ⟨_, _, hrun, hret⟩ := bind_eq_ok.mp hcall
      cases hret
      exact hdone (sysMunmap_inv (hI p) hok hrun)
    | fork p child =>
      obtain ⟨_, _, hrun, hret⟩ := bind_eq_ok.mp hcall
      cases hret
      exact fork_inv hI hp henabled hrun
    | clone p child stack flags =>
      obtain ⟨_, _, hrun, hret⟩ := bind_eq_ok.mp hcall
      cases hret
      exact fork_inv hI hp henabled hrun
    | exit p r unmapped =>
      obtain ⟨hofile, hvma⟩ := hok
      have hrun : Files.exit p r unmapped w = .ok () w' := hcall
      rw [exit_eq hofile hvma] at hrun
      cases hrun
      refine (((hI p).withProc (q := p) (fun q => { q with workDir := [] }) ⟨rfl, rfl⟩).setState
        (fun q => { q with state := .zombie }) rfl).settled fun _ fd hfd => ?_
      rw [withProc_apply, if_pos rfl, withProc_apply, if_pos rfl]
      exact hofile fd hfd
    | freeproc p child =>
      cases hcall
      refine ((hI child).setState (fun q => { q with vma := fun _ => none, state := .unused })
        rfl).settled fun _ fd hfd => ?_
      rw [withProc_apply, if_pos rfl]
      exact hI.idle henabled.1 (Or.inr henabled.2) fd hfd

theorem refsInv_start (h : FilesStart w) : RefsInv w := by
  have hslot : ∀ x ∈ ofileSlots, ∀ f, w.slot x ≠ some f := by
    intro x _ f hx
    rw [Files.slot, h.ofile] at hx
    cases hx
  have hmapped : ∀ a f, w.mapped a ≠ some f := by
    intro a f ha
    rw [Files.mapped, h.mapped] at ha
    cases ha
  have hpoint : ∀ f, w.pointing f = 0 := by
    intro f
    unfold Files.pointing
    rw [refs_eq_zero.mpr fun x hx => hslot x hx f, refs_eq_zero.mpr fun a _ => hmapped a f]
  refine fun p => ⟨fun f hf => ?_, fun f hf _ => ?_, fun x hx f hxf => absurd hxf (hslot x hx f),
    fun a f haf => absurd haf (hmapped a f), fun q _ _ _ fd _ => h.ofile q fd, rfl⟩
  · rw [h.files, hpoint]
    rfl
  · rw [h.files]
    exact ⟨fun _ => rfl, fun _ => rfl⟩

end Steps

/-- The tables at the start, with process 1 running in the root directory. -/
def startFiles : Files where
  fileTable _ := File.zero
  vma _ := Mapping.zero
  procTable p := ⟨if p = 1 then .running else .unused, [47], fun _ => none, fun _ => none⟩

theorem startFiles_start : FilesStart startFiles :=
  ⟨fun _ => rfl, fun _ _ => rfl, fun _ => rfl, fun _ _ => rfl⟩

/-- `close` of an open descriptor drops a reference and counts it still. -/
theorem sysClose_uncounted {w w' : Files} {p f : Nat} {fd r : Int} (hok : FilesOk w)
    (hp : p < NPROC) (hf : f < NFILE) (hslot : (w.procTable p).ofile fd.toNat = some f)
    (hrun : sysClose p fd w = .ok r w') : ¬ FilesOk w' := by
  intro hok'
  obtain ⟨x, u, hget, hrest⟩ := bind_eq_ok.mp hrun
  rw [(getFileByFd_eq hget).1] at hrest
  obtain ⟨_, v, hclose, hrest⟩ := bind_eq_ok.mp hrest
  cases hclose
  split at hrest
  · cases hrest
  · rename_i hrange
    cases hrest
    have hnew : (w.withProc p fun q =>
        { q with ofile := Function.update q.ofile fd.toNat none }).slot =
          Function.update w.slot (p, fd.toNat) none := by
      funext ⟨q, i⟩
      simp only [Files.slot, withProc_apply, Function.update_apply, Prod.mk.injEq]
      by_cases hq : q = p
      · subst hq
        by_cases hi : i = fd.toNat <;> simp [hi]
      · simp [hq]
    have hmem : (p, fd.toNat) ∈ ofileSlots :=
      Finset.mk_mem_product (Finset.mem_range.mpr hp) (Finset.mem_range.mpr (by omega))
    have hold : w.slot (p, fd.toNat) = some f := hslot
    have hdrop := refs_drop hmem hold f
    have h1 := (hok f hf).1
    have h2 := (hok' f hf).1
    unfold Files.pointing at h1 h2
    rw [hnew] at h2
    rw [if_pos rfl] at hdrop
    have htable : ((w.withProc p fun q =>
        { q with ofile := Function.update q.ofile fd.toNat none }).fileTable f).ref =
          (w.fileTable f).ref := rfl
    have hmapped : (w.withProc p fun q =>
        { q with ofile := Function.update q.ofile fd.toNat none }).mapped = w.mapped := rfl
    rw [htable, hmapped] at h2
    omega

end PageFaultOS
