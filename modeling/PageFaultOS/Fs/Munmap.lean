import Mathlib.Tactic
import PageFaultOS.Fs.Mappings
import PageFaultOS.Mm.Unmapping
import PageFaultOS.Mm.UserRange

/-! `sys_munmap` of `syscall/syscallfile.cpp` on the mappings of a process and on its page table.
A mapping covers the addresses for which `sys_munmap` and `UserTrap` find it. -/

namespace PageFaultOS
open Exec Exec.Comp ByteMem

structure MunmapWorld where
  files : Files
  mem : MemState

namespace MunmapWorld
variable {α : Type}

def onFiles (x : FilesComp α) : Comp MunmapWorld α := fun w =>
  match x w.files with
  | .ok r s => .ok r { w with files := s }
  | .fault e s => .fault e { w with files := s }

def onMem (x : MemComp α) : Comp MunmapWorld α := fun w =>
  match x w.mem with
  | .ok r s => .ok r { w with mem := s }
  | .fault e s => .fault e { w with mem := s }

/-- `vma->length -= sz`, and what becomes of a mapping without a length. -/
def shorten (p index a : Nat) (sz : Int) : FilesComp Unit := do
  setVma a fun v => { v with length := Int.bmod (v.length - sz) (2 ^ 32) }
  let w ← read
  if (w.vma a).length = 0 then
    vfsclose (w.vma a).f
    freeVma a
    setVmaSlot p index none

/-- `PGROUNDUP(sz) / PGSIZE` -/
def pageCount (sz : Int) : Nat := toUint64 ((sz + 4095) / 4096)

/-- `r` is what `fs->write` returns for a shared mapping. `PGROUNDUP` adds to an `int`. -/
def sysMunmap (pagetable p addr : Nat) (sz r : Int) : Comp MunmapWorld Int := do
  let w ← read
  match findVma w.files p addr with
  | none => pure (-1)
  | some (index, a) => do
    onFiles (unmapVma a r true)
    if 2 ^ 31 ≤ sz + 4095 then fault (.undefined "PGROUNDUP")
    else do
      onMem (vmunmap pagetable addr (pageCount sz) false)
      onFiles (shorten p index a sz)
      pure 0

end MunmapWorld

/-- The test for an address in `sys_munmap` and `UserTrap`. -/
def Mapping.Covers (v : Mapping) (x : Nat) : Prop :=
  v.addr ≤ x ∧ x < toUint64 (v.addr + v.length)

/-- Process `p` has the byte at offset `o` of file `f` mapped at `x`. -/
def Files.Maps (w : Files) (p x : Nat) (f : Option Nat) (o : Nat) : Prop :=
  ∃ j b, w.Live p j b ∧ (w.vma b).Covers x ∧ (w.vma b).f = f ∧ x - (w.vma b).addr = o

/-- `addr` is the address of a page in the mapping `a` of process `p`, in slot `i`; no other
mapping of the process covers an address of this one. -/
structure MappedAt (w : Files) (p i a addr : Nat) : Prop where
  live : w.Live p i a
  above : (w.vma a).addr ≤ addr
  inside : (addr : Int) < (w.vma a).addr + (w.vma a).length
  aligned : addr % 4096 = 0
  int : (w.vma a).length < 2 ^ 31
  below : (w.vma a).addr < 2 ^ 63
  apart : ∀ j b, w.Live p j b → j ≠ i → b ≠ a ∧
    ∀ x, (w.vma a).Covers x → ¬ (w.vma b).Covers x

/-- The part of `v` behind `addr`, of `sz` bytes, is gone, and the rest of it is where it was. -/
structure Removed (pagetable p addr : Nat) (sz : Int) (v : Mapping) (w : MunmapWorld) : Prop where
  rest : ∀ x, v.Covers x →
    (w.files.Maps p x v.f (x - v.addr) ↔ ¬ (addr ≤ x ∧ (x : Int) < addr + sz))
  unmapped : ∀ x, v.Covers x → addr ≤ x → (x : Int) < addr + sz →
    translate w.mem.mem pagetable x = none

/-- `sys_munmap` returns `-1` and does nothing, or `0` and does what it is for. -/
def MunmapMeets (pagetable p a addr : Nat) (sz r : Int) (w : MunmapWorld) : Prop :=
  (w.sysMunmap pagetable p addr sz r).Holds
    (fun r w' => r = -1 ∧ w' = w ∨ r = 0 ∧ Removed pagetable p addr sz (w.files.vma a) w')
    (fun _ _ => False)

/-- What is written back for a shared mapping: its file is counted and, where it is open for
writing, has a type. -/
def Files.WritesBack (w : Files) (a : Nat) : Prop :=
  toUint64 (w.vma a).flag &&& mapShared ≠ 0 → ∃ i, (w.vma a).f = some i ∧
    1 ≤ (w.fileTable i).ref ∧ ((w.fileTable i).writable = true → (w.fileTable i).type ≠ .none)

/-- The range ends with the mapping, or begins with it and does not end before it. -/
def Mapping.EndsAt (v : Mapping) (addr : Nat) (sz : Int) : Prop :=
  addr + sz = v.addr + v.length ∨ addr = v.addr ∧ v.length ≤ sz ∧ sz ≤ v.addr + v.length

/-! ## The mapping that is found -/

section Found
variable {w w' : Files} {p i a addr : Nat} {sz r : Int}

theorem toUint64_of_lt {z : Int} (h0 : 0 ≤ z) (h : z < 2 ^ 64) : (toUint64 z : Int) = z := by
  unfold toUint64
  rw [Int.emod_eq_of_lt h0 h, Int.toNat_of_nonneg h0]

theorem MappedAt.covers_iff (h : MappedAt w p i a addr) (x : Nat) :
    (w.vma a).Covers x ↔ (w.vma a).addr ≤ x ∧ (x : Int) < (w.vma a).addr + (w.vma a).length := by
  have hinside := h.inside
  have hbelow := h.below
  have hlength := h.int
  have habove := h.above
  have hend := toUint64_of_lt (z := (w.vma a).addr + (w.vma a).length) (by omega) (by omega)
  unfold Mapping.Covers
  constructor
  · rintro ⟨h1, h2⟩
    exact ⟨h1, by omega⟩
  · rintro ⟨h1, h2⟩
    exact ⟨h1, by omega⟩

theorem MappedAt.found (h : MappedAt w p i a addr) : findVma w p addr = some (i, a) := by
  have hcovers : (w.vma a).Covers addr := (h.covers_iff addr).mpr ⟨h.above, h.inside⟩
  cases hfind : findVma w p addr with
  | none =>
    have hnone := List.findSome?_eq_none_iff.mp hfind i (List.mem_range.mpr h.live.1)
    rw [h.live.2] at hnone
    dsimp only at hnone
    have hsome := (if_pos hcovers).symm.trans hnone
    cases hsome
  | some x =>
    obtain ⟨j, b⟩ := x
    obtain ⟨hlive, hb⟩ := findVma_live hfind
    by_cases hj : j = i
    · subst hj
      have heq := hlive.2.symm.trans h.live.2
      cases heq
      rfl
    · exact absurd hb ((h.apart j b hlive hj).2 addr hcovers)

/-- The mappings that `sys_mmap` and `sys_munmap` keep apart. -/
theorem MapInv.mappedAt {top : Nat → Nat} (hI : MapInv top w) (hlive : w.Live p i a)
    (habove : (w.vma a).addr ≤ addr) (hinside : (addr : Int) < (w.vma a).addr + (w.vma a).length)
    (haligned : addr % 4096 = 0) : MappedAt w p i a addr := by
  have hend : ∀ j b, w.Live p j b → ((w.vma b).addr : Int) + (w.vma b).length < 2 ^ 63 ∧
      0 ≤ ((w.vma b).addr : Int) + (w.vma b).length ∧ (w.vma b).addr % 4096 = 0 := by
    intro j b hb
    have hplaced := hI.separated.placed p j b hb
    have hhigh := hI.high p j b hb
    have hint := hI.int p j b hb
    have hbelow := hplaced.below
    have htrap : (trapframe : Int) < 2 ^ 38 := by decide
    exact ⟨by omega, by omega, hplaced.aligned⟩
  -- the page of an address that is covered
  have hpage : ∀ j b, w.Live p j b → ∀ x, (w.vma b).Covers x →
      (w.vma b).Page ((x / 4096 : Nat) : Int) := by
    rintro j b hb x ⟨hle, hlt⟩
    obtain ⟨hbelow, hnonneg, hmod⟩ := hend j b hb
    have hcast := toUint64_of_lt hnonneg (by omega)
    have hsize : (pgsize : Int) = 4096 := rfl
    unfold Mapping.Page
    rw [hsize]
    constructor
    · omega
    · omega
  have hbelow := (hend i a hlive).1
  have hint := (hI.int p i a hlive).2
  refine ⟨hlive, habove, hinside, haligned, hint, by omega, fun j b hb hji => ⟨?_, ?_⟩⟩
  · rintro rfl
    exact hji (hI.once p p j i b hb hlive).2
  · intro x hx hx'
    exact hI.separated.disjoint p i j a b hlive hb (Ne.symm hji) _ (hpage i a hlive x hx)
      (hpage j b hb x hx')

/-- `vfsrewind` and `vfswrite` of a file. -/
theorem writeBack_run (w : Files) (i : Nat) (r : Int) :
    ((1 ≤ (w.fileTable i).ref ∧ ((w.fileTable i).writable = true → (w.fileTable i).type ≠ .none)) ∧
        ∃ u, (vfsrewind (some i) >>= fun _ => vfswrite (some i) r) w = .ok () u) ∨
      (¬ (1 ≤ (w.fileTable i).ref ∧
          ((w.fileTable i).writable = true → (w.fileTable i).type ≠ .none)) ∧
        ∃ e s, (vfsrewind (some i) >>= fun _ => vfswrite (some i) r) w = .fault e s) := by
  by_cases href : (w.fileTable i).ref < 1
  · have hrewind : vfsrewind (some i) w = .fault (.panic "filerewind") w := by
      simp [vfsrewind, href]
    refine .inr ⟨fun h => ?_, .panic "filerewind", w, bind_fault hrewind _⟩
    have href' := h.1
    omega
  · have hrewind : vfsrewind (some i) w =
        .ok () (w.withFile i fun f => { f with position := 0 }) := by
      simp [vfsrewind, href, setFile]
    rw [bind_ok hrewind]
    by_cases hpanic : (w.fileTable i).writable = true ∧ (w.fileTable i).type = .none
    · refine .inr ⟨fun h => h.2 hpanic.1 hpanic.2, .panic "vfswrite",
        w.withFile i fun f => { f with position := 0 }, ?_⟩
      simp [vfswrite, withFile_apply, hpanic.1, hpanic.2]
    · refine .inl ⟨⟨by omega, fun hw htype => hpanic ⟨hw, htype⟩⟩, ?_⟩
      cases hw : (w.fileTable i).writable with
      | false =>
        simp [vfswrite, withFile_apply, hw]
      | true =>
        cases htype : (w.fileTable i).type with
        | none => exact absurd ⟨hw, htype⟩ hpanic
        | pipe | device =>
          simp [vfswrite, withFile_apply, hw, htype]
        | entry =>
          simp [vfswrite, withFile_apply, hw, htype, setFile]

/-- What `sys_munmap` writes back for a shared mapping panics, or leaves the mappings alone. -/
theorem unmapVma_run (w : Files) (a : Nat) (r : Int) :
    (w.WritesBack a ∧ ∃ u, unmapVma a r true w = .ok () u ∧ u.vma = w.vma ∧
        u.procTable = w.procTable) ∨
      (¬ w.WritesBack a ∧ ∃ e s, unmapVma a r true w = .fault e s) := by
  suffices h : (w.WritesBack a ∧ ∃ u, unmapVma a r true w = .ok () u) ∨
      (¬ w.WritesBack a ∧ ∃ e s, unmapVma a r true w = .fault e s) by
    rcases h with ⟨hback, u, hrun⟩ | h
    · exact .inl ⟨hback, u, hrun, unmapVma_frame hrun⟩
    · exact .inr h
  unfold unmapVma Files.WritesBack
  rw [read_bind]
  by_cases hshared : toUint64 (w.vma a).flag &&& mapShared ≠ 0
  · rw [if_pos hshared]
    cases hf : (w.vma a).f with
    | none =>
      refine .inr ⟨fun h => ?_, .undefined "null file", w, rfl⟩
      obtain ⟨i, hi, _⟩ := h hshared
      cases hi
    | some i =>
      have hassoc := bind_assoc_apply (vfsrewind (some i)) (fun _ => vfswrite (some i) r)
        (fun _ => (if true then pure () else Comp.panic "vmunmap" : FilesComp Unit)) w
      rcases writeBack_run w i r with ⟨hok, u, hrun⟩ | ⟨hnot, e, s, hrun⟩
      · exact .inl ⟨fun _ => ⟨i, rfl, hok⟩, u, hassoc.symm.trans (bind_ok hrun _)⟩
      · refine .inr ⟨fun h => ?_, e, s, hassoc.symm.trans (bind_fault hrun _)⟩
        obtain ⟨j, hj, hok⟩ := h hshared
        cases hj
        exact hnot hok
  · rw [if_neg hshared]
    exact .inl ⟨fun h => absurd h hshared, w, rfl⟩

/-! ## What is left of it -/

/-- The mapping is shorter, or it is gone with its length. -/
theorem shorten_run (w : Files) (p i a : Nat) (sz : Int) :
    ∃ u, MunmapWorld.shorten p i a sz w = .ok () u ∧
      ((Int.bmod ((w.vma a).length - sz) (2 ^ 32) ≠ 0 ∧
          u = w.withVma a fun v => { v with length := Int.bmod (v.length - sz) (2 ^ 32) }) ∨
        (Int.bmod ((w.vma a).length - sz) (2 ^ 32) = 0 ∧
          u.vma = Function.update w.vma a Mapping.zero ∧
          u.procTable = (w.withProc p fun q =>
            { q with vma := Function.update q.vma i none }).procTable)) := by
  unfold MunmapWorld.shorten
  simp only [setVma, modify_bind, read_bind]
  split
  case isTrue hzero =>
    rw [withVma_apply, if_pos rfl] at hzero
    refine ⟨_, rfl, .inr ⟨hzero, ?_, rfl⟩⟩
    simp [Files.withVma, Files.withProc]
  case isFalse hzero =>
    rw [withVma_apply, if_pos rfl] at hzero
    exact ⟨_, rfl, .inl ⟨hzero, rfl⟩⟩

/-- The rest of the mapping begins where it began, and ends `sz` bytes earlier. -/
theorem MappedAt.maps_shorten (h : MappedAt w p i a addr) (hsz : 1 ≤ sz) (hint : sz < 2 ^ 31)
    {u v : Files} (hvma : u.vma = w.vma) (hproc : u.procTable = w.procTable)
    (hrun : MunmapWorld.shorten p i a sz u = .ok () v) {x : Nat} (hx : (w.vma a).Covers x) :
    v.Maps p x (w.vma a).f (x - (w.vma a).addr) ↔
      x < toUint64 ((w.vma a).addr + ((w.vma a).length - sz)) := by
  have hlength := h.int
  have hinside := h.inside
  have habove := h.above
  have hbelow := h.below
  have hbmod : Int.bmod ((w.vma a).length - sz) (2 ^ 32) = (w.vma a).length - sz :=
    Int.bmod_eq_of_le (by omega) (by omega)
  obtain ⟨v', hrun', hcases⟩ := shorten_run u p i a sz
  rw [hrun] at hrun'
  cases hrun'
  simp only [hvma, hbmod] at hcases
  obtain ⟨hne, rfl⟩ | ⟨hzero, hvma', hproc'⟩ := hcases
  · have hself : ((u.withVma a fun v => { v with length := Int.bmod (v.length - sz) (2 ^ 32) }).vma
        a) = { w.vma a with length := (w.vma a).length - sz } := by
      rw [withVma_apply, if_pos rfl, hvma, hbmod]
    constructor
    · rintro ⟨j, b, ⟨hj, hb⟩, hcovers, -, -⟩
      replace hb : (w.procTable p).vma j = some b := by
        rw [← hproc]
        exact hb
      by_cases hji : j = i
      · subst hji
        have heq := hb.symm.trans h.live.2
        cases heq
        rw [hself] at hcovers
        exact hcovers.2
      · obtain ⟨hba, hnot⟩ := h.apart j b ⟨hj, hb⟩ hji
        rw [withVma_apply, if_neg hba, hvma] at hcovers
        exact absurd hcovers (hnot x hx)
    · intro hlt
      refine ⟨i, a, ⟨h.live.1, ?_⟩, ?_, ?_, ?_⟩
      · show (u.procTable p).vma i = some a
        rw [hproc]
        exact h.live.2
      · rw [hself]
        exact ⟨hx.1, hlt⟩
      · rw [hself]
      · rw [hself]
  · have hend : toUint64 ((w.vma a).addr + ((w.vma a).length - sz)) = (w.vma a).addr := by
      have hcast := toUint64_of_lt (z := (w.vma a).addr + ((w.vma a).length - sz))
        (by omega) (by omega)
      omega
    rw [hend]
    refine ⟨fun hmaps => ?_, fun hlt => absurd hlt (Nat.not_lt.mpr hx.1)⟩
    obtain ⟨j, b, ⟨hj, hb⟩, hcovers, -, -⟩ := hmaps
    rw [hproc', withProc_apply, if_pos rfl, hproc] at hb
    replace hb : Function.update (w.procTable p).vma i none j = some b := hb
    by_cases hji : j = i
    · subst hji
      rw [Function.update_self] at hb
      cases hb
    · rw [Function.update_of_ne hji] at hb
      obtain ⟨hba, hnot⟩ := h.apart j b ⟨hj, hb⟩ hji
      rw [hvma', Function.update_of_ne hba] at hcovers
      exact absurd hcovers (hnot x hx)

/-- The part that is gone from the end is the part that was to be removed. -/
theorem MappedAt.endsAt_iff (h : MappedAt w p i a addr) (hsz : 1 ≤ sz) (hint : sz < 2 ^ 31) :
    (∀ x, (w.vma a).Covers x →
      (x < toUint64 ((w.vma a).addr + ((w.vma a).length - sz)) ↔
        ¬ (addr ≤ x ∧ (x : Int) < addr + sz))) ↔ (w.vma a).EndsAt addr sz := by
  have hlength := h.int
  have hinside := h.inside
  have habove := h.above
  have hbelow := h.below
  unfold Mapping.EndsAt
  constructor
  · intro hall
    have hat := hall addr ((h.covers_iff addr).mpr ⟨habove, hinside⟩)
    have hfirst : ¬ addr < toUint64 ((w.vma a).addr + ((w.vma a).length - sz)) := by
      intro hlt
      exact hat.mp hlt ⟨Nat.le_refl addr, by omega⟩
    have hstart : 0 ≤ (w.vma a).addr + ((w.vma a).length - sz) := by
      by_contra hneg
      refine hfirst ?_
      have hwrap : toUint64 ((w.vma a).addr + ((w.vma a).length - sz)) =
          ((w.vma a).addr + ((w.vma a).length - sz) + 2 ^ 64).toNat := by
        unfold toUint64
        congr 1
        omega
      rw [hwrap]
      omega
    have hend := toUint64_of_lt hstart (by omega)
    have hlast := hall ((w.vma a).addr + (w.vma a).length - 1).toNat
      ((h.covers_iff _).mpr ⟨by omega, by omega⟩)
    have hprev := hall (addr - 1)
    rw [h.covers_iff] at hprev
    omega
  · intro hends x hx
    rw [h.covers_iff] at hx
    have hend := toUint64_of_lt (z := (w.vma a).addr + ((w.vma a).length - sz))
      (by omega) (by omega)
    omega

end Found

/-! ## The call -/

section Call
variable {pagetable p i a addr : Nat} {sz r : Int} {w : MunmapWorld}

theorem pageCount_eq (hsz : 1 ≤ sz) (hint : sz + 4095 < 2 ^ 31) :
    (MunmapWorld.pageCount sz : Int) = (sz + 4095) / 4096 :=
  toUint64_of_lt (by omega) (by omega)

/-- Pages that are absent are not mapped. -/
theorem absent_unmapped {m : Mem} (haligned : addr % 4096 = 0) (hsz : 1 ≤ sz)
    (hint : sz + 4095 < 2 ^ 31)
    (habsent : ∀ k < MunmapWorld.pageCount sz, Absent m pagetable (addr + k * 4096)) {x : Nat}
    (hle : addr ≤ x) (hlt : (x : Int) < addr + sz) : translate m pagetable x = none := by
  have hcount := pageCount_eq hsz hint
  have hpage := (habsent ((x - addr) / 4096) (by omega)).entry
  have hbase : addr + (x - addr) / 4096 * 4096 = x / 4096 * 4096 := by omega
  rw [hbase, pteOf_page] at hpage
  exact translate_of_zero hpage

theorem onFiles_ok {α : Type} {x : FilesComp α} {b : α} {u : Files} (h : x w.files = .ok b u) :
    MunmapWorld.onFiles x w = .ok b { w with files := u } := by
  unfold MunmapWorld.onFiles
  rw [h]

theorem onFiles_fault {α : Type} {x : FilesComp α} {e : Fault} {u : Files}
    (h : x w.files = .fault e u) : MunmapWorld.onFiles x w = .fault e { w with files := u } := by
  unfold MunmapWorld.onFiles
  rw [h]

/-- A call that panics does not do what it is for. -/
theorem not_munmapMeets {e : Fault} {v : MunmapWorld}
    (h : w.sysMunmap pagetable p addr sz r = .fault e v) :
    ¬ MunmapMeets pagetable p a addr sz r w := by
  unfold MunmapMeets
  rw [h]
  exact id

/-- `sys_munmap` returns only where it has nothing to unmap, and then the mapping is shorter. -/
theorem sysMunmap_run (hat : MappedAt w.files p i a addr) (hal : pagetable % 4096 = 0)
    (hsz : 1 ≤ sz) (hint : sz < 2 ^ 31) :
    ((sz + 4095 < 2 ^ 31 ∧ w.files.WritesBack a ∧
        ∀ k < MunmapWorld.pageCount sz, Absent w.mem.mem pagetable (addr + k * 4096)) ∧
      ∃ u v, u.vma = w.files.vma ∧ u.procTable = w.files.procTable ∧
        MunmapWorld.shorten p i a sz u = .ok () v ∧
        w.sysMunmap pagetable p addr sz r = .ok 0 { w with files := v }) ∨
    (¬ (sz + 4095 < 2 ^ 31 ∧ w.files.WritesBack a ∧
        ∀ k < MunmapWorld.pageCount sz, Absent w.mem.mem pagetable (addr + k * 4096)) ∧
      ∃ e v, w.sysMunmap pagetable p addr sz r = .fault e v) := by
  have hinside := hat.inside
  have hbelow := hat.below
  have hint' := hat.int
  have hcall : w.sysMunmap pagetable p addr sz r =
      (MunmapWorld.onFiles (unmapVma a r true) >>= fun _ =>
        if 2 ^ 31 ≤ sz + 4095 then fault (.undefined "PGROUNDUP")
        else do
          MunmapWorld.onMem (vmunmap pagetable addr (MunmapWorld.pageCount sz) false)
          MunmapWorld.onFiles (MunmapWorld.shorten p i a sz)
          pure 0) w := by
    unfold MunmapWorld.sysMunmap
    rw [read_bind, hat.found]
  rcases unmapVma_run w.files a r with ⟨hback, u, hwrite, hvma, hproc⟩ | ⟨hnot, e, s, hwrite⟩
  swap
  · rw [bind_fault (onFiles_fault hwrite)] at hcall
    exact .inr ⟨fun h => hnot h.2.1, e, _, hcall⟩
  rw [bind_ok (onFiles_ok hwrite)] at hcall
  by_cases hover : 2 ^ 31 ≤ sz + 4095
  · rw [if_pos hover] at hcall
    exact .inr ⟨fun h => absurd h.1 (by omega), .undefined "PGROUNDUP", _, hcall⟩
  rw [if_neg hover] at hcall
  have hcount := pageCount_eq hsz (Int.not_le.mp hover)
  have hunmap := @vmunmap_run pagetable addr (MunmapWorld.pageCount sz) w.mem hal hat.aligned
    (by omega)
  obtain ⟨habsent, hrun⟩ | ⟨hpresent, msg, hrun⟩ := hunmap
  swap
  · refine .inr ⟨fun h => hpresent h.2.2, .panic msg, { w with files := u }, ?_⟩
    rw [hcall]
    refine bind_fault ?_ _
    simp only [MunmapWorld.onMem, hrun]
  · obtain ⟨v, hshort, -⟩ := shorten_run u p i a sz
    refine .inl ⟨⟨Int.not_le.mp hover, hback, habsent⟩, u, v, hvma, hproc, hshort, ?_⟩
    have hmem : MunmapWorld.onMem (vmunmap pagetable addr (MunmapWorld.pageCount sz) false)
        { w with files := u } = .ok () { w with files := u } := by
      simp only [MunmapWorld.onMem, hrun]
    rw [hcall, bind_ok hmem, bind_ok (onFiles_ok hshort)]
    rfl

/-- `sys_munmap` does what it is for just where the size does not overflow, the file of a shared
mapping can be written, no page of the range is there, and the range ends with the mapping. -/
theorem munmap_meets_iff (hat : MappedAt w.files p i a addr) (hal : pagetable % 4096 = 0)
    (hsz : 1 ≤ sz) (hint : sz < 2 ^ 31) :
    MunmapMeets pagetable p a addr sz r w ↔ (sz + 4095 < 2 ^ 31 ∧ w.files.WritesBack a ∧
      ∀ k < MunmapWorld.pageCount sz, Absent w.mem.mem pagetable (addr + k * 4096)) ∧
      (w.files.vma a).EndsAt addr sz := by
  rw [← hat.endsAt_iff hsz hint]
  obtain ⟨hok, u, v, hvma, hproc, hshort, hrun⟩ | ⟨hnot, e, v, hrun⟩ :=
    sysMunmap_run (r := r) hat hal hsz hint
  swap
  · exact iff_of_false (not_munmapMeets hrun) fun h => hnot h.1
  have hmaps := fun x hx => hat.maps_shorten hsz hint hvma hproc hshort (x := x) hx
  unfold MunmapMeets
  rw [hrun]
  constructor
  · rintro (⟨hbad, -⟩ | ⟨-, hremoved⟩)
    · cases hbad
    · exact ⟨hok, fun x hx => (hmaps x hx).symm.trans (hremoved.rest x hx)⟩
  · rintro ⟨⟨hover, -, habsent⟩, hends⟩
    exact .inr ⟨rfl, fun x hx => (hmaps x hx).trans (hends x hx),
      fun x _ hle hlt => absent_unmapped hat.aligned hsz hover habsent hle hlt⟩

/-- Where the range ends before the mapping, the end of the mapping is lost. -/
theorem munmap_loses_end (hat : MappedAt w.files p i a addr) (hal : pagetable % 4096 = 0)
    (hsz : 1 ≤ sz) (hint : sz < 2 ^ 31)
    (hends : (addr : Int) + sz < (w.files.vma a).addr + (w.files.vma a).length) :
    ¬ MunmapMeets pagetable p a addr sz r w := by
  intro hmeets
  obtain ⟨-, u, v, hvma, hproc, hshort, hrun⟩ | ⟨-, e, v, hrun⟩ :=
    sysMunmap_run (r := r) hat hal hsz hint
  swap
  · exact not_munmapMeets hrun hmeets
  have habove := hat.above
  have hbelow := hat.below
  have hlength := hat.int
  unfold MunmapMeets at hmeets
  rw [hrun] at hmeets
  obtain ⟨hbad, -⟩ | ⟨-, hremoved⟩ := hmeets
  · cases hbad
  -- the last address of the mapping
  obtain ⟨x, hx⟩ : ∃ x : Nat, (x : Int) = (w.files.vma a).addr + (w.files.vma a).length - 1 :=
    ⟨_, Int.toNat_of_nonneg (by omega)⟩
  have hcovers : (w.files.vma a).Covers x := (hat.covers_iff x).mpr ⟨by omega, by omega⟩
  have hleft := (hremoved.rest x hcovers).mpr (by omega)
  have hlt := (hat.maps_shorten hsz hint hvma hproc hshort hcovers).mp hleft
  have hend := toUint64_of_lt (z := (w.files.vma a).addr + ((w.files.vma a).length - sz))
    (by omega) (by omega)
  omega

theorem onFiles_eq {α : Type} {x : FilesComp α} {b : α} {v : MunmapWorld}
    (h : MunmapWorld.onFiles x w = .ok b v) : x w.files = .ok b v.files := by
  unfold MunmapWorld.onFiles at h
  cases hx : x w.files with
  | ok c u =>
    rw [hx] at h
    cases h
    rfl
  | fault e u =>
    rw [hx] at h
    cases h

theorem onMem_eq {α : Type} {x : MemComp α} {b : α} {v : MunmapWorld}
    (h : MunmapWorld.onMem x w = .ok b v) : v.files = w.files := by
  unfold MunmapWorld.onMem at h
  cases hx : x w.mem with
  | ok c u =>
    rw [hx] at h
    cases h
    rfl
  | fault e u =>
    rw [hx] at h
    cases h

/-- On the mappings it is the `sys_munmap` that says nothing of the page table. -/
theorem sysMunmap_files {x : Int} {v : MunmapWorld}
    (hrun : w.sysMunmap pagetable p addr sz r = .ok x v) :
    sysMunmap p addr sz r true w.files = .ok x v.files := by
  unfold MunmapWorld.sysMunmap at hrun
  unfold sysMunmap
  rw [read_bind] at hrun ⊢
  cases hfind : findVma w.files p addr with
  | none =>
    rw [hfind] at hrun
    cases hrun
    rfl
  | some found =>
    obtain ⟨j, b⟩ := found
    rw [hfind] at hrun
    obtain ⟨_, w₁, hwrite, hrest⟩ := bind_eq_ok.mp hrun
    refine (bind_ok (onFiles_eq hwrite) _).trans ?_
    split at hrest
    case isTrue => cases hrest
    case isFalse =>
      obtain ⟨_, w₂, hunmap, hrest⟩ := bind_eq_ok.mp hrest
      obtain ⟨_, w₃, hshort, hret⟩ := bind_eq_ok.mp hrest
      cases hret
      have hshort' := onFiles_eq hshort
      rw [onMem_eq hunmap] at hshort'
      simp only [MunmapWorld.shorten, setVma, modify_bind, read_bind] at hshort' ⊢
      split at hshort'
      case isTrue hzero =>
        rw [if_pos hzero]
        exact bind_ok hshort' fun _ => pure 0
      case isFalse hzero =>
        rw [if_neg hzero]
        exact bind_ok hshort' fun _ => pure 0

end Call

/-! ## A mapping of one page, and one of two -/

/-- Process 1 has `length` bytes of file `0` mapped at `addr`. -/
def mappedFiles (addr : Nat) (length : Int) : Files where
  fileTable := fun _ => { File.zero with ref := 1, readable := true, type := .entry }
  vma := fun _ => { Mapping.zero with addr := addr, length := length, f := some 0 }
  procTable := fun _ =>
    { state := .running, workDir := [47], ofile := fun _ => none,
      vma := fun i => if i = 0 then some 0 else none }

theorem mappedFiles_at {addr x : Nat} {length : Int} (habove : addr ≤ x)
    (hinside : (x : Int) < addr + length) (haligned : x % 4096 = 0) (hint : length < 2 ^ 31)
    (hbelow : addr < 2 ^ 63) : MappedAt (mappedFiles addr length) 1 0 0 x := by
  refine ⟨⟨by decide, rfl⟩, habove, hinside, haligned, hint, hbelow, fun j b hb hj => ?_⟩
  have hslot := hb.2
  simp [mappedFiles, hj] at hslot

/-- The second page of `forkMachine` is not there. -/
theorem forkMachine_absent : Absent forkMachine.mem 0x80300000 0x1000 := by
  obtain ⟨hleaf, hpte⟩ := forkMachine_path.pteOf_low (by decide : 0x1000 < 2 ^ 21)
  refine ⟨by decide, ?_, ?_⟩
  · have haddr : pteAddr forkMachine.mem 0x80300000 0x1000 = 0x80302 * 4096 + 8 * px 0 0x1000 := by
      rw [pteAddr, hleaf]
    omega
  · refine hpte.trans ?_
    rw [← smallMachine_zero 1 (by decide : 0x80302 < 0x80500)]
    simp only [slots, forkMachine]
    rw [readWord_writeWord_of_disjoint _ _ _ _ (by decide),
      readWord_writeWord_of_disjoint _ _ _ _ (by decide),
      readWord_writeWord_of_disjoint _ _ _ _ (by decide)]
    rfl

theorem munmap_meets_one_page :
    MunmapMeets 0x80300000 1 0 0x1000 4096 0 ⟨mappedFiles 0x1000 4096, forkMachine⟩ := by
  refine (munmap_meets_iff (mappedFiles_at (by decide) (by decide) (by decide) (by decide)
    (by decide)) (by decide) (by decide) (by decide)).mpr
    ⟨⟨by decide, fun h => absurd rfl h, fun k hk => ?_⟩, .inl rfl⟩
  obtain rfl : k = 0 := by
    have hcount : MunmapWorld.pageCount 4096 = 1 := by decide
    omega
  exact forkMachine_absent

/-- Two pages where `sys_mmap` puts them: `sys_munmap` of the first one takes the second one, or
panics, whatever is in the page table. -/
theorem munmap_first_page : MappedAt (mappedFiles 0x3fffff9000 8192) 1 0 0 0x3fffff9000 ∧
    ∀ pagetable σ, pagetable % 4096 = 0 →
      ¬ MunmapMeets pagetable 1 0 0x3fffff9000 4096 0 ⟨mappedFiles 0x3fffff9000 8192, σ⟩ := by
  have hat : MappedAt (mappedFiles 0x3fffff9000 8192) 1 0 0 0x3fffff9000 :=
    mappedFiles_at (by decide) (by decide) (by decide) (by decide) (by decide)
  have hends : ((0x3fffff9000 : Nat) : Int) + 4096 < (0x3fffff9000 : Nat) + 8192 := by decide
  exact ⟨hat, fun pagetable σ hal => munmap_loses_end hat hal (by decide) (by decide) hends⟩

end PageFaultOS
