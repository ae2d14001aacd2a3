import Mathlib.Tactic
import PageFaultOS.Mm.Uvmcopy

/-! `vmunmap` of `mm/vm.cpp` on a range of mapped pages. Its second check rejects every
entry that is not `0`, so it stops at the first mapped page of the range. -/

namespace PageFaultOS
open Exec Exec.Comp ByteMem

/-- A page-aligned range of `npages` pages, each mapped by a leaf entry. -/
structure MappedRange (m : Mem) (pagetable vaddr npages : Nat) : Prop where
  below : vaddr < 2 ^ 64
  aligned : vaddr % 4096 = 0
  leaf : ∀ i < npages, vaddr + i * 4096 < maxva ∧
    ∃ frame flags, translate m pagetable (vaddr + i * 4096) = some (frame, flags) ∧
      flags &&& (pteR ||| pteW ||| pteX) ≠ 0

/-- The frames of the range, in the order of the pages. -/
def rangeFrames (m : Mem) (pagetable vaddr npages : Nat) : List Nat :=
  (List.range npages).map fun i => pte2page (pteOf m pagetable (vaddr + i * 4096))

/-- What `vmunmap` is for: the pages of the range are unmapped, the others are as before, and
the frames of the range are on the free list where they are to be freed. -/
structure Unmapped (pagetable vaddr npages : Nat) (doFree : Bool) (σ : MemState) (l : List Nat)
    (σ' : MemState) : Prop where
  inside : ∀ va < maxva, vaddr ≤ va → va < vaddr + npages * 4096 →
    translate σ'.mem pagetable va = none
  outside : ∀ va < maxva, va < vaddr ∨ vaddr + npages * 4096 ≤ va →
    translate σ'.mem pagetable va = translate σ.mem pagetable va
  freed : ∃ l', FreeList σ' l' ∧
    l'.Perm ((if doFree then rangeFrames σ.mem pagetable vaddr npages else []) ++ l)

def VmunmapMeets (pagetable vaddr npages : Nat) (doFree : Bool) (σ : MemState) (l : List Nat) :
    Prop :=
  (vmunmap pagetable vaddr npages doFree σ).Holds
    (fun _ σ' => Unmapped pagetable vaddr npages doFree σ l σ') (fun _ _ => False)

variable {pagetable vaddr npages : Nat} {σ : MemState} {l : List Nat}

theorem translate_some {m : Mem} {va : Nat} {p : Nat × Nat}
    (h : translate m pagetable va = some p) : pteOf m pagetable va ≠ 0 := by
  intro h0
  rw [translate_of_zero h0] at h
  cases h

/-- An entry other than `0` ends the run, whatever its flags are. -/
theorem vmunmapRound_entry (hal : pagetable % 4096 = 0) {stop temp : Nat} (hstop : temp < stop)
    (hbelow : temp < maxva) (hentry : pteOf σ.mem pagetable temp ≠ 0) (doFree : Bool) :
    ∃ msg, vmunmapRound pagetable stop doFree temp σ = .fault (.panic msg) σ := by
  have hwalk := walk_lookup hal temp hbelow (σ := σ)
  have hround : vmunmapRound pagetable stop doFree temp σ =
      (if pteAddr σ.mem pagetable temp = 0 then Comp.panic "vmunmap: walk"
        else vmunmapEntry (pteAddr σ.mem pagetable temp) doFree temp) σ := by
    unfold vmunmapRound
    rw [if_neg (not_not_intro hstop), bind_ok hwalk]
  rw [hround]
  by_cases haddr : pteAddr σ.mem pagetable temp = 0
  · rw [if_pos haddr]
    exact ⟨_, rfl⟩
  · rw [if_neg haddr]
    refine ⟨"vmumap: invalid", ?_⟩
    have hword := readWord_pteAddr haddr
    unfold vmunmapEntry
    rw [read_bind]
    simp only [hword]
    rw [if_pos hentry]
    rfl

/-- The first page of the range is one that is mapped. -/
theorem vmunmap_mapped (hpt : PageTable σ.mem pagetable)
    (hrange : MappedRange σ.mem pagetable vaddr npages) (hpages : 0 < npages) (doFree : Bool) :
    ∃ msg, vmunmap pagetable vaddr npages doFree σ = .fault (.panic msg) σ := by
  obtain ⟨hbelow, frame, flags, hmapped, -⟩ := hrange.leaf 0 hpages
  have hlast := (hrange.leaf (npages - 1) (by omega)).1
  simp only [Nat.zero_mul, Nat.add_zero] at hbelow hmapped
  rw [maxva_eq] at hlast
  have hstop : vaddr < u64 (vaddr + npages * pgsize) := by
    have hlt : vaddr + npages * 4096 < 2 ^ 64 := by
      by_contra hnot
      omega
    rw [u64, show pgsize = 4096 from rfl, Nat.mod_eq_of_lt hlt]
    omega
  obtain ⟨msg, hround⟩ :=
    vmunmapRound_entry hpt.aligned hstop hbelow (translate_some hmapped) doFree
  refine ⟨msg, ?_⟩
  unfold vmunmap
  rw [if_neg (not_not_intro hrange.aligned), pageRounds]
  exact loop_fault hround _

/-- An empty range leaves everything as it is. -/
theorem vmunmap_empty (hrange : MappedRange σ.mem pagetable vaddr 0) (doFree : Bool) :
    vmunmap pagetable vaddr 0 doFree σ = .ok () σ := by
  have hstop : ¬ vaddr < u64 (vaddr + 0 * pgsize) := by
    rw [Nat.zero_mul, Nat.add_zero, u64, Nat.mod_eq_of_lt hrange.below]
    exact Nat.lt_irrefl vaddr
  unfold vmunmap
  rw [if_neg (not_not_intro hrange.aligned), pageRounds]
  refine loop_done ?_ _
  unfold vmunmapRound
  rw [if_pos hstop]
  rfl

/-- On mapped pages `vmunmap` does what it is for just when there is none. -/
theorem vmunmap_meets_iff (hpt : PageTable σ.mem pagetable) (hfree : FreeList σ l)
    (hrange : MappedRange σ.mem pagetable vaddr npages) (doFree : Bool) :
    VmunmapMeets pagetable vaddr npages doFree σ l ↔ npages = 0 := by
  constructor
  · intro hmeets
    by_contra hne
    obtain ⟨msg, hrun⟩ := vmunmap_mapped hpt hrange (Nat.pos_of_ne_zero hne) doFree
    unfold VmunmapMeets at hmeets
    rw [hrun] at hmeets
    exact hmeets
  · rintro rfl
    unfold VmunmapMeets
    rw [vmunmap_empty hrange]
    refine ⟨fun va _ hle hlt => ?_, fun va _ _ => rfl, l, hfree, ?_⟩
    · omega
    · cases doFree <;> exact List.Perm.refl l

/-! ## Pages that are not there -/

/-- There is an entry for the page, and it is `0`. -/
structure Absent (m : Mem) (pagetable va : Nat) : Prop where
  below : va < maxva
  found : pteAddr m pagetable va ≠ 0
  entry : pteOf m pagetable va = 0

theorem vmunmapRound_absent (hal : pagetable % 4096 = 0) {stop temp : Nat} (hstop : temp < stop)
    (h : Absent σ.mem pagetable temp) :
    vmunmapRound pagetable stop false temp σ = .ok (.inl (u64 (temp + pgsize))) σ := by
  have hflags : ¬ pteFlags 0 = pteV := by decide
  have hword := readWord_pteAddr h.found
  have hwrite : writeWord σ.mem (pteAddr σ.mem pagetable temp) 0 = σ.mem := by
    rw [← h.entry, ← hword]
    exact writeWord_readWord σ.mem _
  unfold vmunmapRound
  rw [if_neg (not_not_intro hstop), bind_ok (walk_lookup hal temp h.below), if_neg h.found]
  unfold vmunmapEntry
  rw [read_bind]
  simp only [hword, h.entry, ne_eq, not_true_eq_false, if_false, hflags, Bool.false_eq_true,
    setWord, modify_bind, pure_apply, hwrite]

theorem vmunmapRound_present (hal : pagetable % 4096 = 0) {stop temp : Nat} (hstop : temp < stop)
    (h : ¬ Absent σ.mem pagetable temp) :
    ∃ msg, vmunmapRound pagetable stop false temp σ = .fault (.panic msg) σ := by
  by_cases hbelow : temp < maxva
  · by_cases hentry : pteOf σ.mem pagetable temp = 0
    · have haddr : pteAddr σ.mem pagetable temp = 0 := by
        by_contra hne
        exact h ⟨hbelow, hne, hentry⟩
      refine ⟨"vmunmap: walk", ?_⟩
      unfold vmunmapRound
      rw [if_neg (not_not_intro hstop), bind_ok (walk_lookup hal temp hbelow), if_pos haddr]
      rfl
    · exact vmunmapRound_entry hal hstop hbelow hentry false
  · refine ⟨"get pagetable entry", ?_⟩
    have hwalk : walk pagetable temp false σ = .fault (.panic "get pagetable entry") σ := by
      unfold walk
      rw [if_pos (Nat.le_of_not_lt hbelow)]
      rfl
    unfold vmunmapRound
    rw [if_neg (not_not_intro hstop), bind_fault hwalk]

/-- The loop of `vmunmap` with `n` pages to go: it gets to the end and changes nothing, or it
panics at the first page that is not absent. -/
theorem vmunmap_loop (hal : pagetable % 4096 = 0) {stop : Nat} (hstop : stop < 2 ^ 64) (n : Nat) :
    ∀ (rounds temp : Nat), temp + n * 4096 = stop →
      ((∀ k < n, Absent σ.mem pagetable (temp + k * 4096)) ∧
        loop (vmunmapRound pagetable stop false) (n + 1 + rounds) temp σ = .ok () σ) ∨
      ((¬ ∀ k < n, Absent σ.mem pagetable (temp + k * 4096)) ∧
        ∃ msg, loop (vmunmapRound pagetable stop false) (n + 1 + rounds) temp σ =
          .fault (.panic msg) σ) := by
  induction n with
  | zero =>
    intro rounds temp htemp
    refine .inl ⟨fun k hk => absurd hk (Nat.not_lt_zero k), ?_⟩
    have hround : vmunmapRound pagetable stop false temp σ = .ok (.inr ()) σ := by
      unfold vmunmapRound
      rw [if_pos (by omega)]
      rfl
    rw [Nat.zero_add, Nat.add_comm]
    exact loop_done hround _
  | succ n ih =>
    intro rounds temp htemp
    have hlt : temp < stop := by omega
    have hrounds : n + 1 + 1 + rounds = n + 1 + rounds + 1 := by omega
    rw [hrounds]
    by_cases habsent : Absent σ.mem pagetable temp
    · have hround := vmunmapRound_absent hal hlt habsent
      have hnext : u64 (temp + pgsize) = temp + 4096 := by
        rw [u64, show pgsize = 4096 from rfl, Nat.mod_eq_of_lt (by omega)]
      rw [hnext] at hround
      have hsucc : ∀ k, temp + (k + 1) * 4096 = temp + 4096 + k * 4096 := fun k => by ring
      have hall : (∀ k < n + 1, Absent σ.mem pagetable (temp + k * 4096)) ↔
          ∀ k < n, Absent σ.mem pagetable (temp + 4096 + k * 4096) := by
        constructor
        · intro h k hk
          have hk' := h (k + 1) (by omega)
          rwa [hsucc k] at hk'
        · intro h k hk
          cases k with
          | zero =>
            rw [Nat.zero_mul, Nat.add_zero]
            exact habsent
          | succ k =>
            rw [hsucc k]
            exact h k (by omega)
      rw [hall, loop_again hround]
      exact ih rounds (temp + 4096) (by omega)
    · obtain ⟨msg, hround⟩ := vmunmapRound_present hal hlt habsent
      refine .inr ⟨fun h => habsent ?_, msg, loop_fault hround _⟩
      have h0 := h 0 (Nat.succ_pos n)
      rwa [Nat.zero_mul, Nat.add_zero] at h0

/-- `vmunmap` returns, and then without a change, just where no page of the range is there. -/
theorem vmunmap_run (hal : pagetable % 4096 = 0) (haligned : vaddr % 4096 = 0)
    (hstop : vaddr + npages * 4096 < 2 ^ 64) :
    ((∀ k < npages, Absent σ.mem pagetable (vaddr + k * 4096)) ∧
      vmunmap pagetable vaddr npages false σ = .ok () σ) ∨
    ((¬ ∀ k < npages, Absent σ.mem pagetable (vaddr + k * 4096)) ∧
      ∃ msg, vmunmap pagetable vaddr npages false σ = .fault (.panic msg) σ) := by
  have hrun : vmunmap pagetable vaddr npages false =
      loop (vmunmapRound pagetable (vaddr + npages * 4096) false)
        (npages + 1 + (2 ^ 52 - npages)) vaddr := by
    unfold vmunmap
    rw [if_neg (not_not_intro haligned), u64, show pgsize = 4096 from rfl,
      Nat.mod_eq_of_lt hstop, pageRounds]
    congr 1
    omega
  rw [hrun]
  exact vmunmap_loop hal hstop npages _ vaddr rfl

/-! ## A table with one page -/

theorem forkMachine_range : MappedRange forkMachine.mem 0x80300000 0 1 := by
  refine ⟨by decide, rfl, fun i hi => ?_⟩
  obtain rfl : i = 0 := by omega
  have hentry := forkMachine_pte (by decide : 0 + 0 * 4096 < 4096)
  refine ⟨by decide, 0x80303000, pteW ||| pteX ||| pteR ||| pteU ||| pteV, ?_, by decide⟩
  rw [translate, hentry]
  decide

theorem vmunmap_meets_iff_fork :
    VmunmapMeets 0x80300000 0 1 true forkMachine [0x80500000, 0x80501000, 0x80502000] ↔ 1 = 0 :=
  vmunmap_meets_iff forkMachine_path.pageTable forkMachine_free forkMachine_range true

/-- The one page of a process cannot be unmapped. -/
theorem vmunmap_panics :
    PageTable forkMachine.mem 0x80300000 ∧
    FreeList forkMachine [0x80500000, 0x80501000, 0x80502000] ∧
    MappedRange forkMachine.mem 0x80300000 0 1 ∧
    ¬ VmunmapMeets 0x80300000 0 1 true forkMachine [0x80500000, 0x80501000, 0x80502000] := by
  refine ⟨forkMachine_path.pageTable, forkMachine_free, forkMachine_range, fun hmeets => ?_⟩
  obtain ⟨msg, hrun⟩ := vmunmap_mapped forkMachine_path.pageTable forkMachine_range
    (by decide) true
  unfold VmunmapMeets at hmeets
  rw [hrun] at hmeets
  exact hmeets

end PageFaultOS
