import Mathlib.Tactic
import PageFaultOS.Lib.Run
import PageFaultOS.Mm.Kalloc

/-! What `kinit` puts on the free list, and what holds of the allocator from then on while
its clients take pages, write to them and give them back. -/

namespace PageFaultOS
open Exec Exec.Comp ByteMem

/-- A page for each round is more than the address space has. -/
def freeRangeRounds : Nat := 2 ^ 52

def freeRangeRound (pa_end p : Nat) : MemComp (Nat ⊕ Unit) :=
  if p + pgsize < pa_end then do
    kfree p
    pure (.inl (p + pgsize))
  else pure (.inr ())

def freeRange (pa_start pa_end : Nat) : MemComp Unit :=
  loop (freeRangeRound pa_end) freeRangeRounds (pgrounddown pa_start)

def kinit : MemComp Unit := do
  modify fun σ => { σ with freelist := 0 }
  modify fun σ => { σ with npages := 0 }
  let σ ← read
  freeRange σ.kernelEnd phystop

def freememAmount (σ : MemState) : Nat := u64 (σ.npages <<< 12)

/-- The globals as `kinit` sets them. -/
def initialized (σ : MemState) : MemState := { σ with freelist := 0, npages := 0 }

theorem kinit_eq (σ : MemState) :
    kinit σ = loop (freeRangeRound phystop) freeRangeRounds (pgrounddown σ.kernelEnd)
      (initialized σ) := by
  simp only [kinit, modify_bind, read_bind, freeRange]
  rfl

/-! ## The guard of `kfree` -/

/-- The addresses that the guard lets through. -/
def Accepted (kernelEnd pa : Nat) : Prop := pa % 4096 = 0 ∧ kernelEnd ≤ pa ∧ pa ≤ phystop

theorem kfree_accepted {σ : MemState} {pa : Nat} (h : Accepted σ.kernelEnd pa) :
    kfree pa σ = .ok () (freed σ pa) := by
  obtain ⟨hal, habove, hbelow⟩ := h
  have hguard : ¬ (pa % pgsize ≠ 0 ∨ pa < σ.kernelEnd ∨ phystop < pa) := by
    rintro (h | h | h)
    · exact h hal
    · omega
    · omega
  simp only [kfree, read_bind, hguard, if_false]
  rfl

theorem kfree_refused {σ : MemState} {pa : Nat} (h : ¬ Accepted σ.kernelEnd pa) :
    kfree pa σ = .fault (.panic "kfree: invalid physical address") σ := by
  have hguard : pa % pgsize ≠ 0 ∨ pa < σ.kernelEnd ∨ phystop < pa := by
    by_contra hnot
    push Not at hnot
    exact h ⟨hnot.1, hnot.2.1, hnot.2.2⟩
  simp [kfree, hguard]

theorem kfree_returns_iff {σ : MemState} {pa : Nat} :
    (∃ τ, kfree pa σ = .ok () τ) ↔ Accepted σ.kernelEnd pa := by
  constructor
  · rintro ⟨τ, hrun⟩
    by_contra hnot
    rw [kfree_refused hnot] at hrun
    cases hrun
  · exact fun h => ⟨_, kfree_accepted h⟩

/-- The guard lets the end of memory itself through, which is no page. -/
theorem accepted_phystop {kernelEnd : Nat} (h : kernelEnd ≤ phystop) :
    Accepted kernelEnd phystop ∧ ¬ Managed kernelEnd phystop := by
  refine ⟨⟨by decide, h, Nat.le_refl _⟩, fun hm => ?_⟩
  have := hm.below
  omega

/-! ## `kinit` -/

theorem freeRange_stop {σ : MemState} {pa_end p : Nat} (h : ¬ p + 4096 < pa_end) (n : Nat) :
    loop (freeRangeRound pa_end) (n + 1) p σ = .ok () σ := by
  have hround : freeRangeRound pa_end p σ = .ok (.inr ()) σ := by
    rw [freeRangeRound, if_neg h]
    rfl
  exact loop_done hround n

theorem freeRange_again {σ : MemState} {pa_end p : Nat} (h : p + 4096 < pa_end)
    (hp : Accepted σ.kernelEnd p) (n : Nat) :
    loop (freeRangeRound pa_end) (n + 1) p σ =
      loop (freeRangeRound pa_end) n (p + 4096) (freed σ p) := by
  have hround : freeRangeRound pa_end p σ = .ok (.inl (p + 4096)) (freed σ p) := by
    rw [freeRangeRound, if_pos h, bind_ok (kfree_accepted hp)]
    rfl
  exact loop_again hround n

/-- From a page of the range on, the loop of `FreeRange` puts on the list every later page
but the last. -/
theorem freeRange_run {e : Nat} (he : e ≤ phystop) (n : Nat) :
    ∀ (fuel p : Nat) (σ : MemState) (l : List Nat), n < fuel →
    e ≤ p + 4096 * n + 4096 → p % 4096 = 0 → σ.kernelEnd ≤ p → p ≠ 0 → FreeList σ l →
    (∀ q ∈ l, q < p) →
    ∃ τ l', loop (freeRangeRound e) fuel p σ = .ok () τ ∧ τ.kernelEnd = σ.kernelEnd ∧
      FreeList τ l' ∧ ∀ q, q ∈ l' ↔ q ∈ l ∨ q % 4096 = 0 ∧ p ≤ q ∧ q + 4096 < e := by
  induction n with
  | zero =>
    intro fuel p σ l hn hend _ _ _ hlist _
    obtain ⟨fuel, rfl⟩ := Nat.exists_eq_succ_of_ne_zero (show fuel ≠ 0 by omega)
    refine ⟨σ, l, freeRange_stop (by omega) fuel, rfl, hlist, fun q => ?_⟩
    exact ⟨Or.inl, fun h => h.resolve_right (by omega)⟩
  | succ n ih =>
    intro fuel p σ l hn hend hal habove h0 hlist hbelow
    obtain ⟨fuel, rfl⟩ := Nat.exists_eq_succ_of_ne_zero (show fuel ≠ 0 by omega)
    by_cases hlt : p + 4096 < e
    · have hmanaged : Managed σ.kernelEnd p := ⟨hal, habove, by omega⟩
      have hnew : p ∉ l := fun hp => Nat.lt_irrefl p (hbelow p hp)
      obtain ⟨_, hfreed⟩ := kfree_managed hlist hmanaged h0 hnew
      have hbelow' : ∀ q ∈ p :: l, q < p + 4096 := by
        intro q hq
        rcases List.mem_cons.mp hq with rfl | hq
        · omega
        · exact Nat.lt_of_lt_of_le (hbelow q hq) (Nat.le_add_right _ _)
      have hrest : e ≤ p + 4096 + 4096 * n + 4096 := by
        rw [Nat.mul_succ] at hend
        omega
      have habove' : (freed σ p).kernelEnd ≤ p + 4096 := by
        have hkeep : (freed σ p).kernelEnd = σ.kernelEnd := rfl
        omega
      obtain ⟨τ, l', hrun, hend', hlist', hmem⟩ := ih fuel (p + 4096) (freed σ p) (p :: l)
        (by omega) hrest (by omega) habove' (by omega) hfreed hbelow'
      have hacc : Accepted σ.kernelEnd p := ⟨hal, habove, by omega⟩
      refine ⟨τ, l', ?_, hend', hlist', fun q => ?_⟩
      · rw [freeRange_again hlt hacc fuel]
        exact hrun
      · rw [hmem, List.mem_cons]
        constructor
        · rintro ((rfl | hq) | ⟨h1, h2, h3⟩)
          · exact Or.inr ⟨hal, Nat.le_refl _, hlt⟩
          · exact Or.inl hq
          · exact Or.inr ⟨h1, by omega, h3⟩
        · rintro (hq | ⟨h1, h2, h3⟩)
          · exact Or.inl (Or.inr hq)
          · by_cases hqp : q = p
            · exact Or.inl (Or.inl hqp)
            · exact Or.inr ⟨h1, by omega, h3⟩
    · refine ⟨σ, l, freeRange_stop hlt fuel, rfl, hlist, fun q => ?_⟩
      exact ⟨Or.inl, fun h => h.resolve_right (by omega)⟩

private theorem initialized_freeList (σ : MemState) : FreeList (initialized σ) [] :=
  ⟨rfl, by simp, List.nodup_nil, rfl⟩

private theorem pgrounddown_le (a : Nat) : pgrounddown a ≤ a := Nat.and_le_left

/-- `kinit` with a first page to free: the loop gets past it only if `kernel_end` is the
start of that page. -/
theorem kinit_first {σ τ : MemState} (hlt : pgrounddown σ.kernelEnd + 4096 < phystop)
    (hrun : kinit σ = .ok () τ) :
    pgrounddown σ.kernelEnd = σ.kernelEnd ∧ σ.kernelEnd % 4096 = 0 := by
  have hrounds : freeRangeRounds = (2 ^ 52 - 1) + 1 := by decide
  by_cases hacc : Accepted σ.kernelEnd (pgrounddown σ.kernelEnd)
  · have heq := Nat.le_antisymm (pgrounddown_le σ.kernelEnd) hacc.2.1
    refine ⟨heq, ?_⟩
    rw [← heq]
    exact hacc.1
  · have hpanic : kfree (pgrounddown σ.kernelEnd) (initialized σ) =
        .fault (.panic "kfree: invalid physical address") (initialized σ) := kfree_refused hacc
    have hround : freeRangeRound phystop (pgrounddown σ.kernelEnd) (initialized σ) =
        .fault (.panic "kfree: invalid physical address") (initialized σ) := by
      rw [freeRangeRound, if_pos hlt, bind_fault hpanic]
    rw [kinit_eq, hrounds, loop_fault hround] at hrun
    cases hrun

/-- The list after a `kinit` that returns: the pages of the range without the last one. -/
theorem kinit_lists {σ τ : MemState} (h0 : 0 < σ.kernelEnd) (hrun : kinit σ = .ok () τ) :
    ∃ l, FreeList τ l ∧ τ.kernelEnd = σ.kernelEnd ∧
      ∀ q, q ∈ l ↔ q % 4096 = 0 ∧ σ.kernelEnd ≤ q ∧ q + 4096 < phystop := by
  by_cases hlt : pgrounddown σ.kernelEnd + 4096 < phystop
  · obtain ⟨hpage, hal⟩ := kinit_first hlt hrun
    obtain ⟨τ', l, hloop, hend, hlist, hmem⟩ := freeRange_run (Nat.le_refl _) phystop freeRangeRounds
      σ.kernelEnd (initialized σ) [] (by decide) (by omega) hal (Nat.le_refl _) (by omega)
      (initialized_freeList σ) (by simp)
    rw [kinit_eq, hpage, hloop] at hrun
    cases hrun
    exact ⟨l, hlist, hend, fun q => by simpa using hmem q⟩
  · have hrounds : freeRangeRounds = (2 ^ 52 - 1) + 1 := by decide
    have hle := pgrounddown_le σ.kernelEnd
    rw [kinit_eq, hrounds, freeRange_stop hlt] at hrun
    cases hrun
    refine ⟨[], initialized_freeList σ, rfl, fun q => ?_⟩
    constructor
    · intro hq
      cases hq
    · rintro ⟨_, h1, h2⟩
      omega

/-- `kinit` returns when `kernel_end` is the start of a page, or less than a page is left. -/
theorem kinit_returns_iff (σ : MemState) (h0 : 0 < σ.kernelEnd) (h64 : σ.kernelEnd < 2 ^ 64) :
    (∃ τ, kinit σ = .ok () τ) ↔
      σ.kernelEnd % 4096 = 0 ∨ phystop ≤ σ.kernelEnd / 4096 * 4096 + 4096 := by
  have hdown := pgrounddown_eq h64
  constructor
  · rintro ⟨τ, hrun⟩
    by_cases hlt : pgrounddown σ.kernelEnd + 4096 < phystop
    · exact Or.inl (kinit_first hlt hrun).2
    · exact Or.inr (by omega)
  · intro h
    by_cases hlt : pgrounddown σ.kernelEnd + 4096 < phystop
    · have hal : σ.kernelEnd % 4096 = 0 := h.resolve_right (by omega)
      obtain ⟨τ, _, hloop, _⟩ := freeRange_run (Nat.le_refl _) phystop freeRangeRounds
        σ.kernelEnd (initialized σ) [] (by decide) (by omega) hal (Nat.le_refl _) (by omega)
        (initialized_freeList σ) (by simp)
      refine ⟨τ, ?_⟩
      rw [kinit_eq, hdown, page_mul hal]
      exact hloop
    · have hrounds : freeRangeRounds = (2 ^ 52 - 1) + 1 := by decide
      exact ⟨_, by rw [kinit_eq, hrounds, freeRange_stop hlt]⟩

/-- What the boot range and the guard of `kfree` are to agree on. -/
def BootAgrees (σ : MemState) : Prop :=
  ∃ τ, kinit σ = .ok () τ ∧
    (∃ l, Chained τ.mem τ.freelist l ∧ l.Nodup ∧ ∀ p, p ∈ l ↔ Managed σ.kernelEnd p) ∧
    ∀ p, (∃ υ, kfree p τ = .ok () υ) ↔ Managed σ.kernelEnd p

theorem freeRange_keeps (pa_end n p : Nat) :
    Keeps MemState.kernelEnd (loop (freeRangeRound pa_end) n p) := by
  refine keeps_loop (fun q => keeps_ite (keeps_bind ?_ fun _ => keeps_pure _ _) (keeps_pure _ _)) n p
  refine keeps_bind (keeps_read _) fun σ => keeps_ite (keeps_fault _ _) ?_
  refine keeps_bind (keeps_modify fun _ => rfl) fun _ => ?_
  exact keeps_bind (keeps_modify fun _ => rfl) fun _ => keeps_modify fun _ => rfl

/-- Boot range and guard never describe the same pages: the guard lets `PHYSTOP` through. -/
theorem kinit_never_agrees (σ : MemState) (h : σ.kernelEnd ≤ phystop) : ¬ BootAgrees σ := by
  rintro ⟨τ, hrun, _, hguard⟩
  rw [kinit_eq] at hrun
  have hend : τ.kernelEnd = σ.kernelEnd :=
    freeRange_keeps phystop freeRangeRounds (pgrounddown σ.kernelEnd) (initialized σ) () τ hrun
  obtain ⟨hacc, hnot⟩ := accepted_phystop h
  rw [← hend] at hacc
  exact hnot ((hguard phystop).mp (kfree_returns_iff.mpr hacc))

/-- Memory before `kinit`, with the image ending at `kernelEnd`. -/
def bootState (kernelEnd : Nat) : MemState := ⟨fun _ => 0, 0, 0, kernelEnd, []⟩

theorem kinit_never_agrees_aligned : ¬ BootAgrees (bootState 0x80050000) :=
  kinit_never_agrees (bootState 0x80050000) (by decide)

/-- With an image that ends inside a page, `kinit` panics. -/
theorem kinit_unaligned_panics :
    ¬ ∀ σ : MemState, σ.kernelEnd ≤ phystop → BootAgrees σ := by
  intro hall
  obtain ⟨τ, hrun, _⟩ := hall (bootState 0x80050001) (by decide)
  have hiff := kinit_returns_iff (bootState 0x80050001) (by decide) (by decide)
  exact absurd (hiff.mp ⟨τ, hrun⟩) (by decide)

/-! ## Clients of the allocator -/

/-- The allocator and the pages that its clients hold. -/
structure Clients where
  σ : MemState
  held : Finset Nat

inductive ClientCall where
  | kalloc
  | kfree (pa : Nat)
  | write (a : Nat) (c : UInt8)

/-- A client frees only pages that are held, and writes only to those. -/
inductive ClientStep : Clients → ClientCall → Clients → Prop where
  | kalloc {s : Clients} {r : Nat} {τ : MemState} (h : kalloc s.σ = .ok r τ) :
      ClientStep s .kalloc ⟨τ, if r = 0 then s.held else insert r s.held⟩
  | kfree {s : Clients} {pa : Nat} {τ : MemState} (hheld : pa ∈ s.held)
      (h : kfree pa s.σ = .ok () τ) : ClientStep s (.kfree pa) ⟨τ, s.held.erase pa⟩
  | write {s : Clients} {p a : Nat} (c : UInt8) (hheld : p ∈ s.held)
      (ha : p ≤ a ∧ a < p + pgsize) :
      ClientStep s (.write a c) ⟨{ s.σ with mem := Function.update s.σ.mem a c }, s.held⟩

/-- Every page is managed, and the free ones and the held ones are apart. -/
structure ClientInv (kernelEnd : Nat) (s : Clients) (l : List Nat) : Prop where
  list : FreeList s.σ l
  range : s.σ.kernelEnd = kernelEnd
  apart : ∀ p ∈ l, p ∉ s.held
  held : ∀ p ∈ s.held, Managed kernelEnd p ∧ p ≠ 0

section Clients
variable {k : Nat} {s : Clients} {l : List Nat}

private theorem clientInv_kalloc (hI : ClientInv k s l) {r : Nat} {τ : MemState}
    (hrun : kalloc s.σ = .ok r τ) :
    ∃ l', ClientInv k ⟨τ, if r = 0 then s.held else insert r s.held⟩ l' := by
  rcases kalloc_holds hI.list with ⟨rfl, h0⟩ | ⟨p, l', rfl, hp, hlist⟩
  · rw [h0] at hrun
    cases hrun
    exact ⟨[], hI⟩
  · rw [hp] at hrun
    cases hrun
    have hmem := List.mem_cons_self (a := r) (l := l')
    have hne := hI.list.chain.ne_zero r hmem
    have hmanaged := hI.list.managed r hmem
    have hnot := (List.nodup_cons.mp hI.list.nodup).1
    rw [if_neg hne]
    refine ⟨l', hlist, hI.range, fun q hq hheld => ?_, fun q hq => ?_⟩
    · rcases Finset.mem_insert.mp hheld with rfl | hheld
      · exact hnot hq
      · exact hI.apart q (List.mem_cons_of_mem _ hq) hheld
    · rcases Finset.mem_insert.mp hq with rfl | hq
      · exact ⟨hI.range ▸ hmanaged, hne⟩
      · exact hI.held q hq

/-- A page that is held can be freed. -/
private theorem kfree_held (hI : ClientInv k s l) {pa : Nat} (hheld : pa ∈ s.held) :
    kfree pa s.σ = .ok () (freed s.σ pa) ∧
      ClientInv k ⟨freed s.σ pa, s.held.erase pa⟩ (pa :: l) := by
  obtain ⟨hmanaged, hne⟩ := hI.held pa hheld
  rw [← hI.range] at hmanaged
  have hnew : pa ∉ l := fun hp => hI.apart pa hp hheld
  obtain ⟨hrun, hlist⟩ := kfree_managed hI.list hmanaged hne hnew
  refine ⟨hrun, hlist, hI.range, fun q hq hq' => ?_, fun q hq => ?_⟩
  · rcases List.mem_cons.mp hq with rfl | hq
    · exact Finset.notMem_erase _ _ hq'
    · exact hI.apart q hq (Finset.mem_of_mem_erase hq')
  · exact hI.held q (Finset.mem_of_mem_erase hq)

/-- A byte of a page that is held is in no page of the list. -/
private theorem clientInv_write (hI : ClientInv k s l) {p a : Nat} (c : UInt8)
    (hheld : p ∈ s.held) (ha : p ≤ a ∧ a < p + pgsize) :
    ClientInv k ⟨{ s.σ with mem := Function.update s.σ.mem a c }, s.held⟩ l := by
  refine ⟨hI.list.congr _ fun q hq => ?_, hI.range, hI.apart, hI.held⟩
  have hp := (hI.held p hheld).1.aligned
  have hq' := (hI.list.managed q hq).aligned
  have hne : q ≠ p := fun h => hI.apart q hq (h ▸ hheld)
  have hpg : pgsize = 4096 := rfl
  exact readWord_congr fun b _ _ => Function.update_of_ne (by omega) _ _

theorem clientInv_step (hI : ClientInv k s l) {a : ClientCall} {t : Clients}
    (hstep : ClientStep s a t) : ∃ l', ClientInv k t l' := by
  cases hstep with
  | kalloc h => exact clientInv_kalloc hI h
  | kfree hheld h =>
    obtain ⟨hrun, hI'⟩ := kfree_held hI hheld
    rw [hrun] at h
    cases h
    exact ⟨_, hI'⟩
  | write c hheld ha => exact ⟨l, clientInv_write hI c hheld ha⟩

end Clients

/-- What is to hold of the allocator while `held` are the pages of its clients. -/
structure AllocatorOk (kernelEnd : Nat) (s : Clients) (l : List Nat) : Prop where
  chain : Chained s.σ.mem s.σ.freelist l
  nodup : l.Nodup
  managed : ∀ p ∈ l, Managed kernelEnd p
  apart : ∀ p ∈ l, p ∉ s.held
  npages : s.σ.npages = l.length
  freemem : freememAmount s.σ = 4096 * l.length
  kalloc : ∃ r τ, PageFaultOS.kalloc s.σ = .ok r τ ∧ (r = 0 ↔ l = []) ∧ r ∉ s.held
  kfree : ∀ pa ∈ s.held, ∃ τ, PageFaultOS.kfree pa s.σ = .ok () τ

theorem ClientInv.ok {k : Nat} {s : Clients} {l : List Nat} (hI : ClientInv k s l) :
    AllocatorOk k s l := by
  refine ⟨hI.list.chain, hI.list.nodup, fun p hp => hI.range ▸ hI.list.managed p hp, hI.apart,
    hI.list.count, ?_, ?_, fun pa hpa => ⟨_, (kfree_held hI hpa).1⟩⟩
  · have hlen := managed_length_le hI.list.nodup hI.list.managed
    rw [freememAmount, hI.list.count, Nat.shiftLeft_eq, u64, Nat.mul_comm]
    apply Nat.mod_eq_of_lt
    calc 2 ^ 12 * l.length ≤ 2 ^ 12 * phystop := Nat.mul_le_mul_left _ hlen
      _ < 2 ^ 64 := by decide
  · rcases kalloc_holds hI.list with ⟨rfl, h0⟩ | ⟨p, l', rfl, hp, _⟩
    · exact ⟨0, _, h0, by simp, fun h => (hI.held 0 h).2 rfl⟩
    · have hmem := List.mem_cons_self (a := p) (l := l')
      have hne := hI.list.chain.ne_zero p hmem
      exact ⟨p, _, hp, by simp [hne], hI.apart p hmem⟩

/-- After `kinit`, whatever the clients do with the pages they hold, the free list and the
counter stay right and `kalloc` hands out a page that nobody holds. -/
theorem clients_allocator_ok {σ τ : MemState} (h0 : 0 < σ.kernelEnd) (hinit : kinit σ = .ok () τ)
    {s : Clients} (h : Run.Reach (fun s => s = ⟨τ, ∅⟩) ClientStep Run.anyStep s) :
    ∃ l, AllocatorOk σ.kernelEnd s l := by
  have hI : ∃ l, ClientInv σ.kernelEnd s l := by
    refine h.invariant (I := fun s => ∃ l, ClientInv σ.kernelEnd s l) (fun s hs => ?_)
      fun s a t hI _ hstep => ?_
    · obtain ⟨l, hlist, hend, _⟩ := kinit_lists h0 hinit
      subst hs
      exact ⟨l, hlist, hend, by simp, by simp⟩
    · obtain ⟨l, hI⟩ := hI
      exact clientInv_step hI hstep
  obtain ⟨l, hI⟩ := hI
  exact ⟨l, hI.ok⟩

/-- A machine on which `kinit` finds one page. -/
theorem clients_allocator_ok_one_page : ∃ τ, kinit (bootState (phystop - 8192)) = .ok () τ ∧
    ∃ l, AllocatorOk (phystop - 8192) ⟨τ, ∅⟩ l := by
  have hboot := kinit_returns_iff (bootState (phystop - 8192)) (by decide) (by decide)
  obtain ⟨τ, hrun⟩ := hboot.mpr (Or.inl (by decide))
  exact ⟨τ, hrun, clients_allocator_ok (by decide) hrun (.start rfl)⟩

end PageFaultOS
