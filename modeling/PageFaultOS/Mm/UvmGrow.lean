import Mathlib.Tactic
import PageFaultOS.Mm.NullTable
import PageFaultOS.Mm.TableCount
import PageFaultOS.Mm.Uvm

/-! One `Uvmalloc` of a user space of any size. Either the pages run out before an entry is met
that is not `0`, and the call fails, or the call maps its first page to the page at `PGSIZE`, if it
returns at all. -/

namespace PageFaultOS
open Exec Exec.Comp ByteMem

/-- There is no page for `first`, the first page to be mapped, or the tables for the call of `MapPages`
run out. The size that `MapPages` is called with is the address of the new page. -/
def GrowthFails (m : Mem) (pagetable first : Nat) : List Nat → Prop
  | [] => True
  | page :: free =>
    TablesRunOut m pagetable first (pgrounddown (first + page - 1)) free.length

variable {pt kpt : Nat} {σ : MemState} {l : List Nat} {first newsize : Nat}

private theorem grown_mem : pt ∈ [pt, kpt] := List.mem_cons_self ..

section
variable (h : Tables [pt, kpt] σ l) (htree : PageTable σ.mem pt) (hal : first % 4096 = 0)
  (hsmall : first < maxuva)
include h htree hal hsmall

/-- The first round. Without a page it fails at once; with one the call of `MapPages` decides. -/
theorem uvmallocPage_grows :
    (l = [] ∧ uvmallocPage pt kpt first first σ = .ok (.inr 0) σ) ∨
    ∃ page free s, l = page :: free ∧ Tables [pt, kpt] s free ∧ s.kernelEnd = σ.kernelEnd ∧
      Owned [pt, kpt] s free page ∧
      uvmallocPage pt kpt first first σ =
        (mapPages pt first pgsize page (pteW ||| pteX ||| pteR ||| pteU) >>=
          uvmallocMapped pt kpt first page first) s ∧
      (mapPages pt first pgsize page (pteW ||| pteX ||| pteR ||| pteU) s).Holds
        (fun r _ => (r = -1 ∧ GrowthFails σ.mem pt first l) ∨
          r = 0 ∧ ¬ GrowthFails σ.mem pt first l)
        (fun _ _ => ¬ GrowthFails σ.mem pt first l) := by
  obtain ⟨hl, hrun⟩ | ⟨page, free, hl, hrun, htables1, howned, hsame⟩ := kalloc_tables h
  · refine .inl ⟨hl, ?_⟩
    unfold uvmallocPage
    rw [bind_ok hrun, if_pos rfl, bind_ok (uvmDealloc_le (Nat.le_refl first))]
    rfl
  obtain ⟨htables2, howned2, hsame2⟩ := howned.write htables1
    (fill_apply_of_outside (allocated σ page).mem page pgsize 0)
  have hboth : TableSame σ.mem (fill (allocated σ page).mem page pgsize 0) pt := by
    intro is pn his hr i
    have hr' := ((hsame pt grown_mem).reach is his).trans hr
    rw [hsame2 pt grown_mem is pn his hr' i]
    exact hsame pt grown_mem is pn his hr i
  refine .inr ⟨page, free, _, hl, htables2, rfl, howned2, ?_, ?_⟩
  · unfold uvmallocPage
    rw [bind_ok hrun]
    simp only [howned.ne_zero, if_false, memset, modify_bind]
  have hmax : maxuva = 0x80000000 := rfl
  have hphys : phystop = 0x80600000 := rfl
  have hbelow := howned.managed.below
  have hround : pgrounddown first = first := by
    rw [pgrounddown_eq (by omega)]
    omega
  have hcount := mapPages_count (hboth.pageTable htree) htables2.free
    (htables2.fresh pt grown_mem) (htables2.nonzero pt grown_mem)
    (by decide : pgsize < 2 ^ 64) (Nat.pos_of_ne_zero howned.ne_zero)
    (show first + page - 1 < maxva by rw [maxva_eq]; omega)
    (by decide : pteW ||| pteX ||| pteR ||| pteU < 1024)
  rw [hround, hboth.tablesRunOut_iff] at hcount
  rw [hl]
  exact hcount

/-- The call fails, and the size stays. -/
theorem uvmalloc_fails (hnew : first < newsize)
    (hfails : GrowthFails σ.mem pt first l) :
    ∃ σ', loop (uvmallocRound pt kpt first newsize) pageRounds first σ = .ok 0 σ' := by
  have hround : uvmallocRound pt kpt first newsize first σ = uvmallocPage pt kpt first first σ := by
    unfold uvmallocRound
    rw [if_neg (not_not_intro hnew)]
  suffices hpage : ∃ σ', uvmallocPage pt kpt first first σ = .ok (.inr 0) σ' by
    obtain ⟨σ', hpage⟩ := hpage
    exact ⟨σ', loop_done (hround.trans hpage) _⟩
  obtain ⟨-, hrun⟩ | ⟨page, free, s, -, htables, -, howned, hrun, hmap⟩ :=
    uvmallocPage_grows h htree hal hsmall
  · exact ⟨σ, hrun⟩
  cases hmapped : mapPages pt first pgsize page (pteW ||| pteX ||| pteR ||| pteU) s with
  | fault e t =>
    rw [hmapped] at hmap
    exact absurd hfails hmap
  | ok r t =>
    rw [hmapped] at hmap
    obtain ⟨rfl, -⟩ | ⟨-, hno⟩ := hmap
    swap
    · exact absurd hfails hno
    have hkept := mapPages_tables grown_mem (by decide : pteW ||| pteX ||| pteR ||| pteU < 1024)
      htables first page (by decide : pgsize < 2 ^ 64)
    rw [hmapped] at hkept
    obtain ⟨l', hkept⟩ := hkept
    obtain ⟨hfree, -, -⟩ := (howned.kept hkept).kfree hkept.tables
    rw [bind_ok hmapped] at hrun
    refine ⟨freed t page, hrun.trans ?_⟩
    unfold uvmallocMapped
    rw [if_pos (by decide), bind_ok hfree, bind_ok (uvmDealloc_le (Nat.le_refl first))]
    rfl

/-- A call that does not fail returns the new size, with `first` mapped to the page at
`PGSIZE`, or it does not return. -/
theorem uvmalloc_grows (hnew : first < newsize) (hbound : newsize < 2 ^ 32)
    (hend : kernbase ≤ σ.kernelEnd) (hgrows : ¬ GrowthFails σ.mem pt first l) :
    (loop (uvmallocRound pt kpt first newsize) pageRounds first σ).Holds
      (fun r σ' => r = newsize ∧ kernbase ≤ σ'.kernelEnd ∧
        pteOf σ'.mem pt first = swappedEntry)
      (fun _ _ => True) := by
  have hentry : swappedEntry ≠ 0 := by decide
  have hmax : maxuva = 0x80000000 := rfl
  have hround : uvmallocRound pt kpt first newsize first σ = uvmallocPage pt kpt first first σ := by
    unfold uvmallocRound
    rw [if_neg (not_not_intro hnew)]
  have hnext : u64 (first + pgsize) = first + 4096 := by
    simp only [u64, pgsize]
    omega
  rw [pageRounds, loop_succ]
  refine Res.holds_bind (P := fun x s => x = .inl (first + 4096) ∧ (∃ l', Tables [pt, kpt] s l') ∧
    kernbase ≤ s.kernelEnd ∧ pteOf s.mem pt first = swappedEntry) ?_ ?_
  · -- the first page
    rw [hround]
    obtain ⟨rfl, -⟩ | ⟨page, free, s, -, htables, hkernel, howned, hrun, hmap⟩ :=
      uvmallocPage_grows h htree hal hsmall
    · exact absurd trivial hgrows
    rw [hrun]
    refine Res.holds_bind (P := fun r t => r = 0 ∧ ∃ l', Kept [pt, kpt] s free t l' ∧
      pteOf t.mem pt first = swappedEntry) ?_ ?_
    · cases hmapped : mapPages pt first pgsize page (pteW ||| pteX ||| pteR ||| pteU) s with
      | fault e t => trivial
      | ok r t =>
        rw [hmapped] at hmap
        obtain ⟨-, hfails⟩ | ⟨rfl, -⟩ := hmap
        · exact absurd hfails hgrows
        have hfirst : pgrounddown first = first := by
          rw [pgrounddown_eq (by omega)]
          omega
        have hlen : missing s.mem pt (pgrounddown first) ≤ free.length := by
          by_contra hshort
          obtain ⟨t', l', hfail, -⟩ := mapPages_fails grown_mem htables first pgsize page
            (pteW ||| pteX ||| pteR ||| pteU) (by rw [hfirst, maxva_eq]; omega)
            (Nat.not_le.mp hshort)
          rw [hmapped] at hfail
          cases hfail
        have hmapsFirst := mapPages_first grown_mem
          (by decide : pteW ||| pteX ||| pteR ||| pteU < 1024) htables first page
          (by decide : pgsize < 2 ^ 64) hlen
        rw [hmapped, hfirst] at hmapsFirst
        exact ⟨rfl, hmapsFirst⟩
    · rintro r t ⟨rfl, l', hkept, hpte⟩
      have hend' : kernbase ≤ t.kernelEnd := by
        rw [hkept.kernelEnd, hkernel]
        exact hend
      refine (uvmallocMapped_kept first first 0 hend' hkept.tables (howned.kept hkept)).mono ?_
        fun _ _ h => h
      rintro x t' ⟨hkept', hx⟩
      have hpage : CallPage first first := ⟨hal, hal, Nat.le_refl first, by omega⟩
      obtain ⟨rfl, -⟩ | ⟨-, -, hne⟩ := hx hpage
      · rw [hnext]
        refine ⟨rfl, hkept'.tables, ?_, ?_⟩
        · rw [hkept'.kernelEnd]
          exact hend'
        · rw [hkept'.entries pt grown_mem first (by rw [hpte]; exact hentry), hpte]
      · exact absurd rfl hne
  · -- the pages behind it
    rintro x s ⟨rfl, htables, hkernel, hpte⟩
    refine Res.holds_loop (I := fun temp s => (first < temp ∧ temp % 4096 = 0 ∧ temp < 2 ^ 33) ∧
      (∃ l', Tables [pt, kpt] s l') ∧ kernbase ≤ s.kernelEnd ∧
      pteOf s.mem pt first = swappedEntry) ?_ (fun _ _ _ => trivial) _ _ _
      ⟨by omega, htables, hkernel, hpte⟩
    rintro temp s ⟨htemp, ⟨l', htables⟩, hkernel, hpte⟩
    unfold uvmallocRound
    by_cases hlt : temp < newsize
    · rw [if_neg (not_not_intro hlt)]
      refine (uvmallocPage_kept first temp hkernel htables).mono ?_ fun _ _ h => h
      rintro x t ⟨hkept, hx⟩
      have hpage : CallPage first temp := ⟨hal, htemp.2.1, htemp.1.le, by omega⟩
      obtain rfl | ⟨-, hfirst⟩ := hx hpage
      · have hstep : u64 (temp + pgsize) = temp + 4096 := by
          simp only [u64, pgsize]
          omega
        rw [hstep]
        refine ⟨by omega, hkept.tables, ?_, ?_⟩
        · rw [hkept.kernelEnd]
          exact hkernel
        · rw [hkept.entries pt grown_mem first (by rw [hpte]; exact hentry), hpte]
      · omega
    · rw [if_pos hlt]
      exact ⟨rfl, hkernel, hpte⟩

end

end PageFaultOS
