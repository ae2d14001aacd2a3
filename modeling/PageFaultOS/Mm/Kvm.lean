import Mathlib.Tactic
import PageFaultOS.Mm.Teardown

/-! A process's kernel page table, `proc_kpagetable`, `Kfreewalk` and `KvmfreeUser` of
`mm/vm.cpp`. The root is a copy of the root of `kern_pagetable`, so the tables of the kernel are
shared; the tables that map user addresses are the process's own. -/

namespace PageFaultOS
open Exec Exec.Comp ByteMem

def vkstack : Nat := 0x3EC0000000

/-- One round of the loop of `Kfreewalk`, which a leaf entry ends; `free` is the call for a
table below. -/
def kfreewalkRound (free : Nat → MemComp Unit) (kpagetable i : Nat) : MemComp (Nat ⊕ Unit) := do
  if ¬ i < 512 then
    pure (.inr ())
  else do
    let σ ← read
    let pte := readWord σ.mem (kpagetable + 8 * i)
    if pte &&& pteV ≠ 0 ∧ pte &&& (pteR ||| pteW ||| pteX) = 0 then do
      free (pte2page pte)
      setWord (kpagetable + 8 * i) 0
      pure (.inl (i + 1))
    else if pte &&& pteV ≠ 0 then
      pure (.inr ())
    else
      pure (.inl (i + 1))

def kfreewalk : Nat → Nat → MemComp Unit
  | 0, _ => fault .diverge
  | depth + 1, kpagetable => do
    loop (kfreewalkRound (kfreewalk depth) kpagetable) 513 0
    kfree kpagetable

/-- One entry in the loop of `KvmfreeUser`. -/
def kvmfreeUserEntry (kpagetable i : Nat) : MemComp Unit := do
  let σ ← read
  let pte := readWord σ.mem (kpagetable + 8 * i)
  if pte &&& pteV ≠ 0 ∧ pte &&& (pteR ||| pteW ||| pteX) = 0 then do
    kfreewalk pageRounds (pte2page pte)
    setWord (kpagetable + 8 * i) 0
  else
    pure ()

def kvmfreeUser (kpagetable : Nat) : MemComp Unit :=
  forEach (List.range (px 2 maxuva)) (kvmfreeUserEntry kpagetable)

def kvmfree (kpagetable : Nat) (stackFree : Bool) : MemComp Unit := do
  if stackFree then do
    vmunmap kpagetable vkstack 1 true
    let σ ← read
    let pte := readWord σ.mem (kpagetable + 8 * px 2 vkstack)
    if pte &&& pteV ≠ 0 ∧ pte &&& (pteR ||| pteW ||| pteX) = 0 then
      kfreewalk pageRounds (pte2page pte)
  kvmfreeUser kpagetable
  kfree kpagetable

/-- The exit `fail` of `proc_kpagetable`. -/
def procKpagetableFail (kpagetable : Nat) : MemComp Nat := do
  kvmfree kpagetable true
  pure 0

/-- `kern` is `kern_pagetable`. -/
def procKpagetable (kern : Nat) : MemComp Nat := do
  let kpagetable ← kalloc
  if kpagetable = 0 then
    pure 0
  else do
    memmove kpagetable kern pgsize
    let pstack ← kalloc
    if pstack = 0 then
      procKpagetableFail kpagetable
    else do
      let r ← mapPages kpagetable vkstack pstack pgsize (pteR ||| pteW)
      if r ≠ 0 then
        procKpagetableFail kpagetable
      else
        pure kpagetable

/-! ## The tables of user addresses -/

/-- An index list below the root entries of user addresses. -/
def UserPath (is : List (Fin 512)) : Prop := ∀ i, is.head? = some i → i.val < px 2 maxuva

/-- A frame of the caller's: it is not free and no table. -/
structure CallersFrame (roots : List Nat) (σ : MemState) (l : List Nat) (f : Nat) : Prop where
  aligned : f % 4096 = 0
  notFree : f ∉ l
  notIn : ∀ root ∈ roots, NotInTable σ.mem root f

/-- The user part of `kpt`. Its tables are in no other place of the tables in `roots`, they
are pages of the allocator, their inner entries are tables, the entries of the last level leaves,
and the frames of the leaves are the caller's. -/
structure UserPart (roots : List Nat) (kpt : Nat) (σ : MemState) (l : List Nat) : Prop where
  tables : Tables roots σ l
  owned : Radix.Owned child (slots σ.mem) (rootPages roots) (kpt / 4096) 2 UserPath
  empty : ∀ i : Fin 512, i.val < px 2 maxuva → child (slots σ.mem (kpt / 4096) i) = none →
    slots σ.mem (kpt / 4096) i = 0
  inner : ∀ is p i, UserPath (is ++ [i]) → is.length < 2 →
    Radix.reach child (slots σ.mem) (kpt / 4096) is = some p → slots σ.mem p i &&& pteV ≠ 0 →
    slots σ.mem p i &&& (pteR ||| pteW ||| pteX) = 0
  leaves : ∀ is p i, UserPath is → is.length = 2 →
    Radix.reach child (slots σ.mem) (kpt / 4096) is = some p → slots σ.mem p i &&& pteV ≠ 0 →
    slots σ.mem p i &&& (pteR ||| pteW ||| pteX) ≠ 0
  managed : ∀ is p, UserPath is → is.length ≤ 2 →
    Radix.reach child (slots σ.mem) (kpt / 4096) is = some p → Managed σ.kernelEnd (p * 4096)
  frames : ∀ va < maxuva, ∀ f flags, translate σ.mem kpt va = some (f, flags) →
    CallersFrame roots σ l f

variable {roots : List Nat} {kpt root : Nat} {σ σ' : MemState} {l l' : List Nat} {f va : Nat}

theorem userPath_nil : UserPath [] := fun _ h => by cases h

theorem userPath_append {is js : List (Fin 512)} (h : UserPath (is ++ js)) : UserPath is := by
  cases is with
  | nil => exact userPath_nil
  | cons i is => exact h

theorem userPath_inner (hva : va < maxuva) : UserPath (inner va) := by
  intro i hi
  have hidx : idx 2 va = i := Option.some.inj hi
  have hmax : maxuva = 0x80000000 := rfl
  have hlimit : px 2 maxuva = 2 := by decide
  rw [← hidx, hlimit]
  show px 2 va < 2
  rw [px_eq]
  omega

/-- Page-table code leaves the caller's frames alone. -/
theorem Kept.callersFrame (h : Kept roots σ l σ' l') (hf : CallersFrame roots σ l f) :
    CallersFrame roots σ' l' f :=
  ⟨hf.aligned, fun hmem => hf.notFree (h.sub.mem hmem),
    h.outside f hf.aligned hf.notFree hf.notIn⟩

section
variable (h : UserPart roots kpt σ l) (hkpt : kpt ∈ roots)
include h hkpt

/-- A change that spares the tables. -/
theorem UserPart.same (htables : Tables roots σ' l')
    (hsame : ∀ root ∈ roots, TableSame σ.mem σ'.mem root) (hend : σ'.kernelEnd = σ.kernelEnd)
    (hframes : ∀ f, CallersFrame roots σ l f → f ∉ l') : UserPart roots kpt σ' l' := by
  have hreach : ∀ is : List (Fin 512), is.length ≤ 2 →
      Radix.reach child (slots σ'.mem) (kpt / 4096) is =
        Radix.reach child (slots σ.mem) (kpt / 4096) is := (hsame kpt hkpt).reach
  have hslots : ∀ (is : List (Fin 512)) p, is.length ≤ 2 →
      Radix.reach child (slots σ'.mem) (kpt / 4096) is = some p →
      ∀ i, slots σ'.mem p i = slots σ.mem p i := fun is p his hr =>
    hsame kpt hkpt is p his ((hreach is his).symm.trans hr)
  refine ⟨htables, ?_, fun i hi hnone => ?_, fun is p i hin his hr hvalid => ?_,
    fun is p i hin his hr hvalid => ?_, fun is p hin his hr => ?_, fun va hva f flags hf => ?_⟩
  · rintro is p hin his hr _ ⟨root, hroot, rfl⟩ js hjs hrj
    rw [hreach is his] at hr
    rw [(hsame root hroot).reach js hjs] at hrj
    exact h.owned is p hin his hr _ ⟨root, hroot, rfl⟩ js hjs hrj
  · rw [hslots [] (kpt / 4096) (by decide) rfl] at hnone ⊢
    exact h.empty i hi hnone
  · rw [hslots is p (by omega) hr] at hvalid ⊢
    rw [hreach is (by omega)] at hr
    exact h.inner is p i hin his hr hvalid
  · rw [hslots is p (by omega) hr] at hvalid ⊢
    rw [hreach is (by omega)] at hr
    exact h.leaves is p i hin his hr hvalid
  · rw [hreach is his] at hr
    rw [hend]
    exact h.managed is p hin his hr
  · rw [translate_congr ((hsame kpt hkpt).pteOf va)] at hf
    have hold := h.frames va hva f flags hf
    exact ⟨hold.aligned, hframes f hold, fun root hroot =>
      (hsame root hroot).notIn_iff.mpr (hold.notIn root hroot)⟩

/-- Hanging a page from the free list into the tables. -/
theorem UserPart.hang {is : List (Fin 512)} {pn q level : Nat} (hroot : root ∈ roots)
    (hl : l = q :: l') (hreach : Radix.reach child (slots σ.mem) (root / 4096) is = some pn)
    (his : is.length < 2) (hempty : child (slots σ.mem pn (idx level va)) = none)
    (hfree : FreeList (linked σ q pn level va) l') :
    UserPart roots kpt (linked σ q pn level va) l' := by
  obtain ⟨hkept, hentries⟩ := kept_linked h.tables hroot hl hreach his hempty hfree
  have hql : q ∈ l := hl ▸ List.mem_cons_self ..
  have hq := h.tables.free.managed q hql
  have hqlt : q < 2 ^ 64 := Nat.lt_of_le_of_lt (by omega) hq.lt
  have hslots := slots_linked σ pn level va hq.aligned hqlt
  have hv : child (page2pte q ||| pteV) = some (q / 4096) := child_table_entry hq.aligned hqlt
  have hz : child 0 = none := by decide
  have hqf : ∀ p ∈ rootPages roots, Radix.Fresh child (slots σ.mem) p 2 (q / 4096) := by
    rintro _ ⟨r, hr, rfl⟩
    exact h.tables.fresh r hr q hql
  have hpq : pn ≠ q / 4096 := by
    rintro rfl
    exact hqf _ (mem_rootPages hroot) is (by omega) hreach
  -- a page of the user part is the new one, or it was there before
  have hpage : ∀ (js : List (Fin 512)) r, js.length ≤ 2 →
      Radix.reach child (slots (linked σ q pn level va).mem) (kpt / 4096) js = some r →
      (r = q / 4096 ∧ ∀ j, slots (linked σ q pn level va).mem r j = 0) ∨
        (Radix.reach child (slots σ.mem) (kpt / 4096) js = some r ∧
          ∀ j, (r ≠ pn ∨ j ≠ idx level va) →
            slots (linked σ q pn level va).mem r j = slots σ.mem r j) := by
    intro js r hjs hr
    rw [hslots] at hr ⊢
    rcases Radix.reach_link_inv hqf hpq hv hz (mem_rootPages hkpt) js hjs hr with
      ⟨rfl, _⟩ | hold
    · refine Or.inl ⟨rfl, fun j => ?_⟩
      rw [Radix.link, Radix.set_other (fun e => absurd e.symm hpq), Radix.clear_self]
    · have hrq : r ≠ q / 4096 := by
        rintro rfl
        exact hqf _ (mem_rootPages hkpt) js hjs hold
      refine Or.inr ⟨hold, fun j hj => ?_⟩
      rw [Radix.link, Radix.set_other, Radix.clear_other hrq]
      exact fun e => hj.resolve_left (not_not_intro e)
  have hnew : slots (linked σ q pn level va).mem pn (idx level va) = page2pte q ||| pteV := by
    rw [hslots, Radix.link, Radix.set_self]
  refine ⟨hkept.tables, ?_, fun i hi hnone => ?_, fun js r i hin hjs hr hvalid => ?_,
    fun js r i hin hjs hr hvalid => ?_, fun js r hin hjs hr => ?_, fun vb hvb f flags hf => ?_⟩
  · rw [hslots]
    exact Radix.owned_link hqf hpq hv hz (fun _ _ => userPath_append) (mem_rootPages hkpt) h.owned
  · rcases hpage [] (kpt / 4096) (by decide) rfl with ⟨-, hzero⟩ | ⟨-, hold⟩
    · exact hzero i
    · by_cases hslot : kpt / 4096 ≠ pn ∨ i ≠ idx level va
      · rw [hold i hslot] at hnone ⊢
        exact h.empty i hi hnone
      · rw [not_or, not_not, not_not] at hslot
        rw [hslot.1, hslot.2, hnew, hv] at hnone
        cases hnone
  · rcases hpage js r (by omega) hr with ⟨-, hzero⟩ | ⟨hr', hold⟩
    · rw [hzero] at hvalid
      exact absurd rfl hvalid
    · by_cases hslot : r ≠ pn ∨ i ≠ idx level va
      · rw [hold i hslot] at hvalid ⊢
        exact h.inner js r i hin hjs hr' hvalid
      · rw [not_or, not_not, not_not] at hslot
        rw [hslot.1, hslot.2, hnew, and_flag _ (by decide), pteFlags_or (by decide)]
        decide
  · rcases hpage js r (by omega) hr with ⟨-, hzero⟩ | ⟨hr', hold⟩
    · rw [hzero] at hvalid
      exact absurd rfl hvalid
    · have hne : r ≠ pn := by
        rintro rfl
        have := h.tables.leveled _ (mem_rootPages hkpt) _ (mem_rootPages hroot) _ _ _ (by omega)
          (by omega) hr' hreach
        omega
      rw [hold i (Or.inl hne)] at hvalid ⊢
      exact h.leaves js r i hin hjs hr' hvalid
  · rcases hpage js r hjs hr with ⟨rfl, -⟩ | ⟨hr', -⟩
    · rw [page_mul hq.aligned]
      exact hq
    · exact h.managed js r hin hjs hr'
  · rw [translate_congr (hentries kpt hkpt vb)] at hf
    exact hkept.callersFrame (h.frames vb hvb f flags hf)

/-- Storing a leaf entry over a `0` in the last table of `va`. -/
theorem UserPart.setLeaf {pn v : Nat} (hroot : root ∈ roots)
    (hleaf : leafTable σ.mem root va = some pn) (hzero : slots σ.mem pn (idx 0 va) = 0)
    (hv : v < 2 ^ 64) (hperm : v &&& (pteR ||| pteW ||| pteX) ≠ 0)
    (hframe : CallersFrame roots σ l (pte2page v)) :
    UserPart roots kpt { σ with mem := writeWord σ.mem (pn * 4096 + 8 * px 0 va) v } l := by
  obtain ⟨hkept, -⟩ := kept_setLeaf h.tables hroot hleaf hzero hv
  have hslots : slots (writeWord σ.mem (pn * 4096 + 8 * px 0 va) v) =
      Radix.set (slots σ.mem) pn (idx 0 va) v := by
    have hset := slots_writeWord σ.mem pn v (idx 0 va)
    rw [Nat.mod_eq_of_lt hv] at hset
    exact hset
  have hreach : ∀ js : List (Fin 512), js.length ≤ 2 →
      Radix.reach child (slots (writeWord σ.mem (pn * 4096 + 8 * px 0 va) v)) (kpt / 4096) js =
        Radix.reach child (slots σ.mem) (kpt / 4096) js := by
    intro js hjs
    rw [hslots]
    exact Radix.reach_set_leaf h.tables.leveled (mem_rootPages hroot) hleaf rfl
      (mem_rootPages hkpt) js hjs
  -- `pn` is a table of the last level
  have hinner : ∀ (js : List (Fin 512)) r, js.length < 2 →
      Radix.reach child (slots σ.mem) (kpt / 4096) js = some r → ∀ j,
      slots (writeWord σ.mem (pn * 4096 + 8 * px 0 va) v) r j = slots σ.mem r j := by
    intro js r hjs hr j
    rw [hslots]
    refine Radix.set_other fun e => ?_
    subst e
    have := h.tables.leveled _ (mem_rootPages hkpt) _ (mem_rootPages hroot) _ _ _ (by omega)
      (le_refl 2) hr hleaf
    simp only [PageFaultOS.inner, List.length_cons, List.length_nil] at this
    omega
  refine ⟨hkept.tables, ?_, fun i hi hnone => ?_, fun js r i hin hjs hr hvalid => ?_,
    fun js r i hin hjs hr hvalid => ?_, fun js r hin hjs hr => ?_, fun vb hvb f flags hf => ?_⟩
  · show Radix.Owned child (slots (writeWord σ.mem (pn * 4096 + 8 * px 0 va) v)) _ _ 2 UserPath
    rw [hslots]
    exact Radix.owned_set_leaf h.tables.leveled (mem_rootPages hroot) hleaf rfl
      (mem_rootPages hkpt) h.owned
  · simp only [hinner [] (kpt / 4096) (by decide) rfl] at hnone ⊢
    exact h.empty i hi hnone
  · simp only [hreach js (Nat.le_of_lt hjs)] at hr
    simp only [hinner js r hjs hr] at hvalid ⊢
    exact h.inner js r i hin hjs hr hvalid
  · simp only [hreach js (Nat.le_of_eq hjs)] at hr
    simp only [hslots] at hvalid ⊢
    by_cases hslot : r = pn ∧ i = idx 0 va
    · rw [hslot.1, hslot.2, Radix.set_self]
      exact hperm
    · have hne : r = pn → i ≠ idx 0 va := fun e he => hslot ⟨e, he⟩
      rw [Radix.set_other hne] at hvalid ⊢
      exact h.leaves js r i hin hjs hr hvalid
  · simp only [hreach js hjs] at hr
    exact h.managed js r hin hjs hr
  · refine hkept.callersFrame ?_
    have hleafs : leafTable (writeWord σ.mem (pn * 4096 + 8 * px 0 va) v) kpt vb =
        leafTable σ.mem kpt vb := hreach (PageFaultOS.inner vb) (le_refl 2)
    by_cases hslot : leafTable σ.mem kpt vb = some pn ∧ idx 0 vb = idx 0 va
    · have hpte : pteOf (writeWord σ.mem (pn * 4096 + 8 * px 0 va) v) kpt vb = v := by
        rw [pteOf_of_leafTable (hleafs.trans hslot.1), hslots, hslot.2, Radix.set_self]
      simp only [translate, hpte] at hf
      split at hf
      · rw [← (Prod.mk.inj (Option.some.inj hf)).1]
        exact hframe
      · cases hf
    · refine h.frames vb hvb f flags ?_
      rw [← hf]
      refine (translate_congr ?_).symm
      cases hr : leafTable σ.mem kpt vb with
      | none => rw [pteOf_of_none hr, pteOf_of_none (hleafs.trans hr)]
      | some rn =>
        rw [pteOf_of_leafTable hr, pteOf_of_leafTable (hleafs.trans hr), hslots]
        refine Radix.set_other fun e he => hslot ⟨?_, he⟩
        rw [hr, e]

/-- One level of `walk`, from whichever of the roots. -/
theorem UserPart.walkLevel {is : List (Fin 512)} {pn : Nat} (va level : Nat)
    (hroot : root ∈ roots)
    (hreach : Radix.reach child (slots σ.mem) (root / 4096) is = some pn) (his : is.length < 2) :
    ∃ r σ' l', walkLevel (pn * 4096) va true level σ = .ok r σ' ∧ UserPart roots kpt σ' l' ∧
      Kept roots σ l σ' l' ∧ (r = none ∨ ∃ qn, r = some (qn * 4096) ∧
        Radix.reach child (slots σ'.mem) (root / 4096) (is ++ [idx level va]) = some qn) := by
  obtain ⟨r, σ', l', hrun, hkept, -, hend⟩ := walkLevel_tables h.tables hroot va level hreach his
  have hpn : ∀ q ∈ l, q / 4096 ≠ pn := fun q hq e =>
    h.tables.fresh root hroot q hq is (by omega) (e ▸ hreach)
  refine ⟨r, σ', l', hrun, ?_, hkept, ?_⟩
  · rcases walkLevel_cases h.tables.free hpn va level with
      ⟨hval, hrun'⟩ | ⟨hval, hl, hrun'⟩ | ⟨hval, q, l'', hl, hrun', hfree'⟩
    · rw [hrun] at hrun'
      obtain ⟨rfl, rfl⟩ := Res.ok.inj hrun'
      rcases hend with ⟨hnone, _⟩ | ⟨qn, _, _, ⟨_, rfl, _⟩ | ⟨hnone, _⟩⟩
      · cases hnone
      · exact h
      · rw [child, if_pos hval] at hnone
        cases hnone
    · rw [hrun] at hrun'
      obtain ⟨rfl, rfl⟩ := Res.ok.inj hrun'
      have hl' : l' = l := by
        have hsub := hkept.sub
        rw [hl] at hsub ⊢
        exact List.suffix_nil.mp hsub
      rw [hl']
      exact h
    · have hchild : child (slots σ.mem pn (idx level va)) = none := if_neg (not_not_intro hval)
      rw [hrun] at hrun'
      obtain ⟨rfl, rfl⟩ := Res.ok.inj hrun'
      have hl' : l' = l'' := hkept.tables.free.chain.unique hfree'.chain
      rw [hl']
      exact h.hang hkpt hroot hl hreach his hchild hfree'
  · rcases hend with ⟨hnone, _⟩ | ⟨qn, hr, hreach', _⟩
    · exact Or.inl hnone
    · exact Or.inr ⟨qn, hr, hreach'⟩

omit h in
/-- `walk` with `alloc` set, for any address. -/
theorem UserPart.walk (h : UserPart roots kpt σ l) (hroot : root ∈ roots) (hva : va < maxva) :
    ∃ r σ' l', walk root va true σ = .ok r σ' ∧ UserPart roots kpt σ' l' ∧
      Kept roots σ l σ' l' ∧
      (r = 0 ∨ ∃ pn, leafTable σ'.mem root va = some pn ∧ r = pn * 4096 + 8 * px 0 va) := by
  have hnot : ¬ maxva ≤ va := by omega
  have hself : Radix.reach child (slots σ.mem) (root / 4096) [] = some (root / 4096) := rfl
  obtain ⟨r2, σ2, l2, hw2, hu2, hk2, hr2⟩ := h.walkLevel hkpt va 2 hroot hself (by decide)
  rw [page_mul (h.tables.aligned root hroot)] at hw2
  rcases hr2 with rfl | ⟨q2, rfl, hq2⟩
  · refine ⟨0, σ2, l2, ?_, hu2, hk2, Or.inl rfl⟩
    simp only [PageFaultOS.walk, hnot, if_false]
    rw [bind_ok hw2]
    rfl
  · obtain ⟨r1, σ1, l1, hw1, hu1, hk1, hr1⟩ := hu2.walkLevel hkpt va 1 hroot hq2 (by simp)
    rcases hr1 with rfl | ⟨q1, rfl, hq1⟩
    · refine ⟨0, σ1, l1, ?_, hu1, hk2.trans hk1, Or.inl rfl⟩
      simp only [PageFaultOS.walk, hnot, if_false]
      rw [bind_ok hw2]
      exact bind_ok hw1 _
    · refine ⟨_, σ1, l1, ?_, hu1, hk2.trans hk1, Or.inr ⟨q1, hq1, rfl⟩⟩
      simp only [PageFaultOS.walk, hnot, if_false]
      rw [bind_ok hw2]
      exact bind_ok hw1 _

end

/-! ## `MapPages` -/

/-- The frames that `MapPages` maps for `size` bytes at `vaddr`. -/
def MappedFrame (vaddr paddr size f : Nat) : Prop :=
  ∃ k, (vaddr / 4096 + k) * 4096 ≤ (vaddr + size - 1) / 4096 * 4096 ∧
    f = u64 (paddr + k * 4096) / 4096 * 4096

/-- A `MapPages` of leaf entries for frames of the caller's keeps the user part. -/
theorem UserPart.mapPages (h : UserPart roots kpt σ l) (hkpt : kpt ∈ roots) (hroot : root ∈ roots)
    {vaddr paddr size perm : Nat} (hsize : 1 ≤ size) (hrange : vaddr + size ≤ maxva)
    (hpaddr : paddr < 2 ^ 64) (hperm : perm < 1024) (hleaf : perm &&& (pteR ||| pteW ||| pteX) ≠ 0)
    (hframes : ∀ f, MappedFrame vaddr paddr size f → CallersFrame roots σ l f) :
    (mapPages root vaddr paddr size perm σ).Holds
      (fun _ σ' => ∃ l', UserPart roots kpt σ' l' ∧ Kept roots σ l σ' l') (fun _ _ => True) := by
  have hmax := maxva_eq
  have hfirst : pgrounddown vaddr = vaddr / 4096 * 4096 := pgrounddown_eq (by omega)
  have hlast : pgrounddown (u64 (vaddr + size + (2 ^ 64 - 1))) =
      (vaddr + size - 1) / 4096 * 4096 := by
    have hu : u64 (vaddr + size + (2 ^ 64 - 1)) = vaddr + size - 1 := by
      rw [u64]
      omega
    rw [hu, pgrounddown_eq (by omega)]
  unfold PageFaultOS.mapPages
  simp only [hfirst, hlast]
  -- the `k`-th round is at the `k`-th page of the range
  refine Res.holds_loop (I := fun p s => ∃ k l', p = ((vaddr / 4096 + k) * 4096,
      u64 (paddr + k * 4096)) ∧ (vaddr / 4096 + k) * 4096 ≤ (vaddr + size - 1) / 4096 * 4096 ∧
      UserPart roots kpt s l' ∧ Kept roots σ l s l') ?_ (fun _ _ _ => trivial) _ _ σ
    ⟨0, l, ?_, ?_, h, Kept.refl h.tables⟩
  · rintro _ s ⟨k, l1, rfl, hk, hu1, hk1⟩
    have htemp : (vaddr / 4096 + k) * 4096 < maxva := by
      by_contra hnot
      omega
    obtain ⟨r, s2, l2, hwalk, hu2, hk2, hr⟩ := hu1.walk hkpt hroot htemp
    rw [mapPagesRound_walked hwalk]
    by_cases hr0 : r = 0
    · rw [if_pos hr0]
      exact ⟨l2, hu2, hk1.trans hk2⟩
    · obtain ⟨pn, hpn, rfl⟩ := hr.resolve_left hr0
      rw [if_neg hr0]
      by_cases hentry : readWord s2.mem (pn * 4096 + 8 * px 0 ((vaddr / 4096 + k) * 4096)) ≠ 0
      · rw [if_pos hentry]
        trivial
      · rw [if_neg hentry]
        -- the entry of a frame of the caller's
        have hpa := u64_lt (paddr + k * 4096)
        have hflags : perm ||| pteV < 1024 := or_lt_1024 hperm (by decide)
        have hframe : pte2page (page2pte (u64 (paddr + k * 4096)) ||| perm ||| pteV) =
            u64 (paddr + k * 4096) / 4096 * 4096 := by
          rw [Nat.or_assoc, page2pte_or hflags, pte2page_eq]
          omega
        have hrwx : (page2pte (u64 (paddr + k * 4096)) ||| perm ||| pteV) &&&
            (pteR ||| pteW ||| pteX) ≠ 0 := by
          rw [Nat.or_assoc, and_flag _ (by decide), pteFlags_or hflags, Nat.and_or_distrib_right]
          intro h0
          exact hleaf (Nat.or_eq_zero_iff.mp h0).1
        have hcaller := hk2.callersFrame (hk1.callersFrame (hframes _ ⟨k, hk, rfl⟩))
        have hv : page2pte (u64 (paddr + k * 4096)) ||| perm ||| pteV < 2 ^ 64 := by
          rw [Nat.or_assoc]
          exact page2pte_or_lt hpa hflags
        have hset := hu2.setLeaf hkpt hroot hpn (not_not.mp hentry) hv hrwx
          (by rw [hframe]; exact hcaller)
        have hkset := (kept_setLeaf hu2.tables hroot hpn (not_not.mp hentry) hv).1
        by_cases hlast' : (vaddr / 4096 + k) * 4096 = (vaddr + size - 1) / 4096 * 4096
        · rw [if_pos hlast']
          exact ⟨l2, hset, (hk1.trans hk2).trans hkset⟩
        · rw [if_neg hlast']
          refine ⟨k + 1, l2, ?_, ?_, hset, (hk1.trans hk2).trans hkset⟩
          · have hsize : pgsize = 4096 := rfl
            have htemp' : u64 ((vaddr / 4096 + k) * 4096 + pgsize) =
                (vaddr / 4096 + (k + 1)) * 4096 := by
              rw [u64]
              omega
            have hpa' : u64 (u64 (paddr + k * 4096) + pgsize) = u64 (paddr + (k + 1) * 4096) := by
              simp only [u64]
              omega
            rw [htemp', hpa']
          · by_contra hnot
            omega
  · rw [Nat.add_zero, Nat.zero_mul, Nat.add_zero, u64, Nat.mod_eq_of_lt hpaddr]
  · by_contra hnot
    omega

/-! ## `Kfreewalk` -/

/-- An entry of a table with `level` levels below it, all of them tables but for the last. -/
def leafyEntry (level entry : Nat) : Prop :=
  entry &&& pteV ≠ 0 → (entry &&& (pteR ||| pteW ||| pteX) = 0 ↔ 0 < level)

section
variable {pn n : Nat} {free : Nat → MemComp Unit} {s : MemState}

theorem not_valid_of_child {entry : Nat} (h : child entry = none) : ¬ entry &&& pteV ≠ 0 := by
  intro hvalid
  rw [child, if_pos hvalid] at h
  cases h

/-- At an entry that is no leaf. -/
theorem kfreewalkRound_table (i : Fin 512) (h : leafyEntry (n + 1) (slots s.mem pn i)) :
    kfreewalkRound free (pn * 4096) i s =
      (clearEntry free (pn * 4096) i >>= fun _ => pure (.inl (i.val + 1))) s := by
  have hword : readWord s.mem (pn * 4096 + 8 * i.val) = slots s.mem pn i := rfl
  unfold kfreewalkRound
  rw [if_neg (not_not_intro i.isLt), read_bind]
  simp only [hword]
  cases hq : child (slots s.mem pn i) with
  | none =>
    have hinvalid := not_valid_of_child hq
    rw [if_neg fun hand => hinvalid hand.1, if_neg hinvalid, bind_ok (clearEntry_none free hq)]
  | some q =>
    obtain ⟨hvalid, hpage⟩ := child_valid hq
    rw [if_pos ⟨hvalid, (h hvalid).mpr (Nat.succ_pos n)⟩, hpage]
    have hclear := clearEntry_some free hq
    rw [bind_apply, bind_apply, hclear, bind_apply]
    cases free (q * 4096) s <;> rfl

/-- A table of leaf entries is left as it is. -/
theorem kfreewalk_leaves (h : ∀ i : Fin 512, leafyEntry 0 (slots s.mem pn i)) (fuel i : Nat)
    (hi : i ≤ 512) (hfuel : 512 < fuel + i) :
    loop (kfreewalkRound free (pn * 4096)) fuel i s = .ok () s := by
  induction fuel generalizing i with
  | zero => omega
  | succ fuel ih =>
    by_cases hlt : i < 512
    · have hword : readWord s.mem (pn * 4096 + 8 * i) = slots s.mem pn ⟨i, hlt⟩ := rfl
      by_cases hvalid : slots s.mem pn ⟨i, hlt⟩ &&& pteV ≠ 0
      · -- the first leaf ends the loop
        have hrwx : ¬ slots s.mem pn ⟨i, hlt⟩ &&& (pteR ||| pteW ||| pteX) = 0 := fun h0 =>
          Nat.lt_irrefl 0 ((h ⟨i, hlt⟩ hvalid).mp h0)
        refine loop_done ?_ fuel
        unfold kfreewalkRound
        rw [if_neg (not_not_intro hlt), read_bind]
        simp only [hword]
        rw [if_neg fun hand => hrwx hand.2, if_pos hvalid]
        rfl
      · have hround : kfreewalkRound free (pn * 4096) i s = .ok (.inl (i + 1)) s := by
          unfold kfreewalkRound
          rw [if_neg (not_not_intro hlt), read_bind]
          simp only [hword]
          rw [if_neg fun hand => hvalid hand.1, if_neg hvalid]
          rfl
        rw [loop_again hround]
        exact ih (i + 1) hlt (by omega)
    · refine loop_done ?_ fuel
      unfold kfreewalkRound
      rw [if_pos hlt]
      rfl

end

section
variable {n pn : Nat} {free : Nat → MemComp Unit} {s : MemState}
variable (hown : OwnBelow leafyEntry σ l n pn 512) (htears : TearsDown leafyEntry n free)
  (hentries : ∀ i : Fin 512, leafyEntry (n + 1) (slots σ.mem pn i))
include hown htears hentries

/-- The loop of `Kfreewalk` in a table of tables runs to its end. -/
theorem kfreewalk_inner (fuel k : Nat) (hk : k ≤ 512) (hfuel : 512 < fuel + k)
    (h : Midway σ l pn k (tablesBefore σ.mem n pn k) s) :
    ∃ s', loop (kfreewalkRound free (pn * 4096)) fuel k s = .ok () s' ∧
      Midway σ l pn 512 (tablesBefore σ.mem n pn 512) s' := by
  induction fuel generalizing k s with
  | zero => omega
  | succ fuel ih =>
    by_cases hlt : k < 512
    · let i : Fin 512 := ⟨k, hlt⟩
      have hpn : pn ∉ tablesBefore σ.mem n pn k := fun hin =>
        hown.apart ((tablesBefore_le σ.mem n pn hk).subset hin)
      have hslot := h.slots_rest hpn i (Nat.le_refl k)
      obtain ⟨s1, hclear, hmid⟩ := Midway.step hown htears (i := i) hlt h
      have hround : kfreewalkRound free (pn * 4096) k s = .ok (.inl (k + 1)) s1 := by
        have hleafy : leafyEntry (n + 1) (slots s.mem pn i) := by
          rw [hslot]
          exact hentries i
        have htable : kfreewalkRound free (pn * 4096) k s = _ := kfreewalkRound_table i hleafy
        rw [htable, bind_ok hclear]
        rfl
      rw [loop_again hround]
      exact ih (k + 1) hlt (by omega) hmid
    · have hend : k = 512 := by omega
      subst hend
      refine ⟨s, loop_done ?_ fuel, h⟩
      unfold kfreewalkRound
      rw [if_pos hlt]
      rfl

end

theorem kfreewalk_tearsDown {n depth : Nat} (hdepth : n < depth) :
    TearsDown leafyEntry n (kfreewalk depth) := by
  induction n generalizing depth with
  | zero =>
    intro pn σ l hfree hown
    obtain ⟨d, rfl⟩ : ∃ d, depth = d + 1 := ⟨depth - 1, by omega⟩
    have hloop : loop (kfreewalkRound (kfreewalk d) (pn * 4096)) 513 0 σ = .ok () σ :=
      kfreewalk_leaves hown.entries.top 513 0 (by decide) (by decide)
    obtain ⟨σ', hrun, htorn⟩ := (midway_zero hfree pn).kfree
      (hown.taken pn Radix.mem_pages_self) List.not_mem_nil
    refine ⟨σ', ?_, htorn⟩
    unfold kfreewalk
    rw [bind_ok hloop]
    exact hrun
  | succ n ih =>
    intro pn σ l hfree hown
    obtain ⟨d, rfl⟩ : ∃ d, depth = d + 1 := ⟨depth - 1, by omega⟩
    have hbelow := hown.below
    obtain ⟨s, hloop, hmid⟩ := kfreewalk_inner hbelow (ih (by omega : n < d)) hown.entries.top
      513 0 (by decide) (by decide) (midway_zero hfree pn)
    obtain ⟨σ', hrun, htorn⟩ := hmid.kfree hbelow.table hbelow.apart
    refine ⟨σ', ?_, ?_⟩
    · unfold kfreewalk
      rw [bind_ok hloop]
      exact hrun
    · rw [tablePages_succ]
      exact htorn

/-! ## `KvmfreeUser` -/

theorem mem_take_finRange {k : Nat} (i : Fin 512) : i ∈ (List.finRange 512).take k ↔ i.val < k := by
  rw [List.mem_take_iff_getElem]
  constructor
  · rintro ⟨j, hj, rfl⟩
    rw [List.getElem_finRange]
    exact lt_of_lt_of_le hj (Nat.min_le_left k _)
  · intro hi
    refine ⟨i.val, ?_, ?_⟩
    · rw [List.length_finRange]
      exact lt_min hi i.isLt
    · rw [List.getElem_finRange]
      rfl

theorem mem_tablesBefore {m : Mem} {n pn k p : Nat} : p ∈ tablesBefore m n pn k ↔
    ∃ (i : Fin 512) (is : List (Fin 512)), i.val < k ∧ is.length ≤ n ∧
      Radix.reach child (slots m) pn (i :: is) = some p := by
  rw [tablesBefore, List.mem_flatMap]
  constructor
  · rintro ⟨i, hi, hp⟩
    obtain ⟨is, his, hr⟩ := (Radix.mem_branch_iff fun j => List.mem_finRange j).mp hp
    exact ⟨i, is, (mem_take_finRange i).mp hi, his, hr⟩
  · rintro ⟨i, is, hi, his, hr⟩
    exact ⟨i, (mem_take_finRange i).mpr hi,
      (Radix.mem_branch_iff fun j => List.mem_finRange j).mpr ⟨is, his, hr⟩⟩

theorem userPath_cons {i : Fin 512} (hi : i.val < px 2 maxuva) (is : List (Fin 512)) :
    UserPath (i :: is) := by
  intro j hj
  rw [← Option.some.inj hj]
  exact hi

section
variable (h : UserPart roots kpt σ l) (hkpt : kpt ∈ roots)
include h hkpt

theorem UserPart.taken {is : List (Fin 512)} {p : Nat} (hin : UserPath is) (his : is.length ≤ 2)
    (hr : Radix.reach child (slots σ.mem) (kpt / 4096) is = some p) :
    TakenPage σ l (p * 4096) := by
  have hpage : p * 4096 / 4096 = p := Nat.mul_div_cancel p (by decide)
  refine ⟨h.managed is p hin his hr, fun hzero => ?_, fun hmem => ?_⟩
  · refine h.tables.nonzero kpt hkpt is his ?_
    rw [hr, ← hpage, hzero]
  · refine h.tables.fresh kpt hkpt _ hmem is his ?_
    rw [hr, hpage]

/-- The tables below the user entries of the root are the process's own. -/
theorem UserPart.ownBelow : OwnBelow leafyEntry σ l 1 (kpt / 4096) (px 2 maxuva) := by
  have hcons : ∀ {i : Fin 512} {q : Nat}, child (slots σ.mem (kpt / 4096) i) = some q →
      ∀ is, Radix.reach child (slots σ.mem) (kpt / 4096) (i :: is) =
        Radix.reach child (slots σ.mem) q is := by
    intro i q hq is
    rw [Radix.reach_cons, hq]
    rfl
  have hself := mem_rootPages hkpt
  refine ⟨fun i hi q hq is r j his hr hvalid => ?_, ?_, fun hin => ?_, fun p hp => ?_, ?_⟩
  · rw [← hcons hq] at hr
    have hpath := userPath_cons hi is
    rcases Nat.lt_or_ge is.length 1 with hlt | hge
    · have hrwx := h.inner (i :: is) r j (userPath_cons hi (is ++ [j])) (by simpa using hlt) hr
        hvalid
      exact ⟨fun _ => by omega, fun _ => hrwx⟩
    · have hlen : is.length = 1 := Nat.le_antisymm his hge
      have hrwx := h.leaves (i :: is) r j hpath (by simpa using hlen) hr hvalid
      exact ⟨fun h0 => absurd h0 hrwx, fun hpos => by omega⟩
  · refine List.nodup_flatMap.mpr ⟨fun i hi => ?_,
      ((List.nodup_finRange 512).sublist (List.take_sublist _ _)).imp_of_mem
        fun {i j} hi hj hne r hir hjr => ?_⟩
    · have hlt := (mem_take_finRange i).mp hi
      cases hq : child (slots σ.mem (kpt / 4096) i) with
      | none =>
        rw [Radix.branch_none hq]
        exact List.nodup_nil
      | some q =>
        rw [Radix.branch_some hq]
        refine Radix.pages_nodup (fun j => List.mem_finRange j) (List.nodup_finRange 512) ?_
        intro is js r his hjs hri hrj
        rw [← hcons hq] at hri hrj
        obtain ⟨-, heq⟩ := h.owned (i :: js) r (userPath_cons hlt js) (by simpa using hjs) hrj _
          hself (i :: is) (by simpa using his) hri
        exact (List.cons.inj heq).2
    · obtain ⟨is, his, hri⟩ := (Radix.mem_branch_iff fun j => List.mem_finRange j).mp hir
      obtain ⟨js, hjs, hrj⟩ := (Radix.mem_branch_iff fun j => List.mem_finRange j).mp hjr
      obtain ⟨-, heq⟩ := h.owned (i :: is) r (userPath_cons ((mem_take_finRange i).mp hi) is)
        (by simpa using his) hri _ hself (j :: js) (by simpa using hjs) hrj
      exact hne (List.cons.inj heq).1.symm
  · obtain ⟨i, is, hi, his, hr⟩ := mem_tablesBefore.mp hin
    obtain ⟨-, hnil⟩ := h.owned (i :: is) _ (userPath_cons hi is) (by simpa using his) hr _ hself []
      (by decide) rfl
    cases hnil
  · obtain ⟨i, is, hi, his, hr⟩ := mem_tablesBefore.mp hp
    exact h.taken hkpt (userPath_cons hi is) (by simpa using his) hr
  · exact h.taken hkpt userPath_nil (by decide) rfl

omit hkpt in
/-- The root entries of user addresses are empty or lead to a table. -/
theorem UserPart.kvmfreeUserEntry (i : Fin 512) (hi : i.val < px 2 maxuva) (s : MemState)
    (hs : slots s.mem (kpt / 4096) i = slots σ.mem (kpt / 4096) i) :
    kvmfreeUserEntry (kpt / 4096 * 4096) i s =
      clearEntry (kfreewalk pageRounds) (kpt / 4096 * 4096) i s := by
  have hword : readWord s.mem (kpt / 4096 * 4096 + 8 * i.val) = slots s.mem (kpt / 4096) i := rfl
  cases hq : child (slots s.mem (kpt / 4096) i) with
  | none =>
    have hinvalid := not_valid_of_child hq
    rw [clearEntry_none _ hq]
    unfold PageFaultOS.kvmfreeUserEntry
    rw [read_bind]
    simp only [hword]
    rw [if_neg fun hand => hinvalid hand.1]
    rfl
  | some q =>
    obtain ⟨hvalid, hpage⟩ := child_valid hq
    have hrwx : slots s.mem (kpt / 4096) i &&& (pteR ||| pteW ||| pteX) = 0 := by
      rw [hs] at hvalid ⊢
      exact h.inner [] _ i (userPath_cons hi []) (by decide) rfl hvalid
    rw [clearEntry_some _ hq]
    unfold PageFaultOS.kvmfreeUserEntry
    rw [read_bind]
    simp only [hword]
    rw [if_pos ⟨hvalid, hrwx⟩, hpage]

omit hkpt in
/-- A table that some root reaches otherwise than through these entries. -/
theorem UserPart.notBelow (hroot : root ∈ roots) {is : List (Fin 512)} {p : Nat}
    (his : is.length ≤ 2)
    (hother : root / 4096 = kpt / 4096 → ∀ i js, is = i :: js → px 2 maxuva ≤ i.val)
    (hr : Radix.reach child (slots σ.mem) (root / 4096) is = some p) :
    p ∉ tablesBefore σ.mem 1 (kpt / 4096) (px 2 maxuva) := by
  intro hin
  obtain ⟨i, js, hi, hjs, hrj⟩ := mem_tablesBefore.mp hin
  obtain ⟨hsame, heq⟩ := h.owned (i :: js) p (userPath_cons hi js) (by simpa using hjs) hrj _
    (mem_rootPages hroot) is his hr
  exact absurd (hother hsame i js heq) (Nat.not_le_of_lt hi)

/-- `KvmfreeUser` gives back the tables of the user part and nothing else. -/
theorem UserPart.kvmfreeUser :
    ∃ σ' freed, kvmfreeUser kpt σ = .ok () σ' ∧ FreeList σ' (freed ++ l) ∧ freed.Nodup ∧
      (∀ page, page ∈ freed ↔ page % 4096 = 0 ∧ ∃ (i : Fin 512) (is : List (Fin 512)),
        i.val < px 2 maxuva ∧ is.length ≤ 1 ∧
          Radix.reach child (slots σ.mem) (kpt / 4096) (i :: is) = some (page / 4096)) ∧
      (∀ i : Fin 512, i.val < px 2 maxuva → slots σ'.mem (kpt / 4096) i = 0) ∧
      ∀ root ∈ roots, ∀ va, maxuva ≤ va → va < maxva →
        translate σ'.mem root va = translate σ.mem root va := by
  have hbelow := h.ownBelow hkpt
  have hpage := page_mul (h.tables.aligned kpt hkpt)
  obtain ⟨s, hrun, hmid⟩ := hbelow.walk h.tables.free
    (kfreewalk_tearsDown (by decide : 1 < pageRounds)) h.kvmfreeUserEntry (by decide) (le_refl _)
  rw [hpage] at hrun
  refine ⟨s, _, hrun, hmid.free, (List.nodup_append.mp hmid.free.nodup).1, fun page => ?_,
    fun i hi => ?_, fun root hroot va hva hmax => translate_congr (pteOf_congr ?_)⟩
  · rw [List.mem_reverse, List.mem_map]
    constructor
    · rintro ⟨p, hp, rfl⟩
      rw [Nat.mul_div_cancel p (by decide)]
      exact ⟨Nat.mul_mod_left p 4096, mem_tablesBefore.mp hp⟩
    · rintro ⟨hal, hp⟩
      exact ⟨page / 4096, mem_tablesBefore.mpr hp, page_mul hal⟩
  · rw [hmid.cleared i hi, clearedEntry]
    split
    · rfl
    · rename_i hvalid
      exact h.empty i hi (if_neg hvalid)
  · intro is i js hpath pn hr
    have hindex : px 2 maxuva ≤ (idx 2 va).val := by
      have hlimit : px 2 maxuva = 2 := by decide
      rw [hlimit]
      show 2 ≤ px 2 va
      rw [px_eq]
      have h1 : maxuva = 0x80000000 := rfl
      have h2 := maxva_eq
      omega
    have hhead : ∀ j ks, is ++ i :: js = j :: ks → px 2 maxuva ≤ j.val := by
      intro j ks hcons
      rw [← hpath] at hcons
      rw [← (List.cons.inj hcons).1]
      exact hindex
    have hlen : is.length ≤ 2 := by
      have := congrArg List.length hpath
      simp only [PageFaultOS.inner, List.length_append, List.length_cons, List.length_nil] at this
      omega
    have hkeep := h.notBelow hroot hlen (fun _ j ks hcons => hhead j _ (by rw [hcons]; rfl)) hr
    by_cases hpn : pn = kpt / 4096
    · -- only the root of `kpt` itself, at an entry that stays
      subst hpn
      obtain ⟨-, hnil⟩ := h.owned [] _ userPath_nil (by decide) rfl _ (mem_rootPages hroot) is
        hlen hr
      subst hnil
      exact hmid.slots_rest hbelow.apart i (hhead i js rfl)
    · exact hmid.slots_other hkeep hpn i

end

/-! ## `proc_kpagetable` -/

/-- The root of `kern_pagetable` has no entries for user addresses. -/
def UserEmpty (m : Mem) (kern : Nat) : Prop :=
  ∀ i : Fin 512, i.val < px 2 maxuva → slots m (kern / 4096) i = 0

section
variable {kern : Nat} (h : Tables [kern] σ l) (hempty : UserEmpty σ.mem kern)
  (hpage : Owned [kern] σ l kpt)
include h hempty hpage

/-- A copy of the root of `kern_pagetable`. -/
theorem userPart_copy :
    UserPart [kern, kpt] kpt { σ with mem := move σ.mem kpt kern pgsize } l := by
  have hkern : kern ∈ [kern] := List.mem_cons_self
  have hka := h.aligned kern hkern
  have hpa := hpage.managed.aligned
  obtain ⟨htables, howned, hsame⟩ := hpage.write h
    (move_apply_of_outside σ.mem kpt kern pgsize)
  have hsk := hsame kern hkern
  have hcopy : ∀ i, slots (move σ.mem kpt kern pgsize) (kpt / 4096) i =
      slots (move σ.mem kpt kern pgsize) (kern / 4096) i := by
    intro i
    rw [hsk [] (kern / 4096) (by decide) rfl i]
    have hi := i.isLt
    have hsize : pgsize = 4096 := rfl
    have hword : readWord (move σ.mem kpt kern pgsize) (kpt + 8 * i.val) =
        readWord σ.mem (kern + 8 * i.val) := by
      unfold readWord
      refine readLE_shift fun k hk => ?_
      rw [Nat.add_assoc, Nat.add_assoc]
      exact move_apply σ.mem kpt kern pgsize (8 * i.val + k) (by omega)
    unfold slots
    rw [page_mul hpa, page_mul hka]
    exact hword
  generalize hm : move σ.mem kpt kern pgsize = m at *
  have hnot := howned.notIn kern hkern
  have hcons : ∀ i is, Radix.reach child (slots m) (kpt / 4096) (i :: is) =
      Radix.reach child (slots m) (kern / 4096) (i :: is) := by
    intro i is
    rw [Radix.reach_cons, Radix.reach_cons, hcopy i]
  -- below its root the copy has the tables of `kern`
  have hold : ∀ root ∈ [kern, kpt], ∀ is p,
      Radix.reach child (slots m) (root / 4096) is = some p →
      Radix.reach child (slots m) (kern / 4096) is = some p ∨
        (root = kpt ∧ is = [] ∧ p = kpt / 4096) := by
    intro root hroot is p hr
    rcases List.mem_pair.mp hroot with rfl | rfl
    · exact Or.inl hr
    · cases is with
      | nil => exact Or.inr ⟨rfl, rfl, (Option.some.inj hr).symm⟩
      | cons i is => exact Or.inl ((hcons i is).symm.trans hr)
  have hzero : ∀ i : Fin 512, i.val < px 2 maxuva → slots m (kpt / 4096) i = 0 := by
    intro i hi
    rw [hcopy i, hsk [] (kern / 4096) (by decide) rfl i]
    exact hempty i hi
  have hnil : ∀ is p, UserPath is → Radix.reach child (slots m) (kpt / 4096) is = some p →
      is = [] ∧ p = kpt / 4096 := by
    intro is p hin hr
    cases is with
    | nil => exact ⟨rfl, (Option.some.inj hr).symm⟩
    | cons i is =>
      have hnone : child 0 = none := by decide
      rw [Radix.reach_cons, hzero i (hin i rfl), hnone] at hr
      cases hr
  refine ⟨⟨?_, htables.free, fun root hroot q hq is his hr => ?_, fun root hroot is his hr => ?_,
    ?_⟩, ?_, fun i hi _ => hzero i hi, fun is p i hin his hr hvalid => ?_,
    fun is p i hin his hr => ?_, fun is p hin his hr => ?_, fun va hva f flags hf => ?_⟩
  · rintro root hroot
    rcases List.mem_pair.mp hroot with rfl | rfl
    · exact hka
    · exact hpa
  · rcases hold root hroot is _ hr with hk | ⟨-, -, heq⟩
    · exact htables.fresh kern hkern q hq is his hk
    · have hqa := (htables.free.managed q hq).aligned
      refine howned.notFree ?_
      rwa [← page_mul hpa, ← heq, page_mul hqa]
  · rcases hold root hroot is _ hr with hk | ⟨-, -, heq⟩
    · exact htables.nonzero kern hkern is his hk
    · refine howned.ne_zero ?_
      rw [← page_mul hpa, ← heq]
  · rintro _ ⟨r1, h1, rfl⟩ _ ⟨r2, h2, rfl⟩ is js p his hjs hr1 hr2
    rcases hold r1 h1 is p hr1 with hk1 | ⟨rfl, rfl, rfl⟩ <;>
      rcases hold r2 h2 js _ hr2 with hk2 | ⟨rfl, rfl, heq⟩
    · exact htables.leveled _ (mem_rootPages hkern) _ (mem_rootPages hkern) is js p his hjs hk1 hk2
    · exact absurd (heq ▸ hk1) (hnot is his)
    · exact absurd hk2 (hnot js hjs)
    · rfl
  · rintro is p hin his hr _ ⟨root, hroot, rfl⟩ js hjs hrj
    obtain ⟨rfl, rfl⟩ := hnil is p hin hr
    rcases hold root hroot js _ hrj with hk | ⟨rfl, rfl, -⟩
    · exact absurd hk (hnot js hjs)
    · exact ⟨rfl, rfl⟩
  · obtain ⟨rfl, rfl⟩ := hnil is p (userPath_append hin) hr
    rw [hzero i (hin i rfl)] at hvalid
    exact absurd rfl hvalid
  · obtain ⟨rfl, -⟩ := hnil is p hin hr
    cases his
  · obtain ⟨rfl, rfl⟩ := hnil is p hin hr
    rw [page_mul hpa]
    exact hpage.managed
  · have hpte : pteOf m kpt va = 0 := by
      cases hleaf : leafTable m kpt va with
      | none => exact pteOf_of_none hleaf
      | some pn =>
        obtain ⟨hcontra, -⟩ := hnil _ _ (userPath_inner hva) hleaf
        cases hcontra
    simp [translate, hpte] at hf

end

/-- `kalloc` between two steps of the table code. -/
theorem UserPart.kalloc (h : UserPart roots kpt σ l) (hkpt : kpt ∈ roots) :
    ∃ page σ' l', kalloc σ = .ok page σ' ∧ UserPart roots kpt σ' l' ∧
      (page ≠ 0 → Owned roots σ' l' page) := by
  rcases kalloc_tables h.tables with
    ⟨rfl, hrun⟩ | ⟨page, l', rfl, hrun, htables, howned, hsame⟩
  · exact ⟨0, σ, [], hrun, h, fun hne => absurd rfl hne⟩
  · refine ⟨page, _, l', hrun, h.same hkpt htables hsame rfl fun f hf hmem => ?_, fun _ => howned⟩
    exact hf.notFree (List.mem_cons_of_mem _ hmem)

theorem Owned.callersFrame {page : Nat} (h : Owned roots σ l page) :
    CallersFrame roots σ l page := ⟨h.managed.aligned, h.notFree, h.notIn⟩

/-- A table made by `proc_kpagetable`. -/
theorem procKpagetable_userPart {kern : Nat} (h : Tables [kern] σ l)
    (hempty : UserEmpty σ.mem kern) :
    (procKpagetable kern σ).Holds
      (fun kpt σ' => kpt ≠ 0 → kpt ≠ kern ∧ ∃ l', UserPart [kern, kpt] kpt σ' l')
      (fun _ _ => True) := by
  have hfail : ∀ kpt s, (procKpagetableFail kpt s).Holds
      (fun kpt' σ' => kpt' ≠ 0 → kpt' ≠ kern ∧ ∃ l', UserPart [kern, kpt'] kpt' σ' l')
      (fun _ _ => True) := by
    intro kpt s
    have hfree : (kvmfree kpt true s).Holds (fun _ _ => True) (fun _ _ => True) := by
      cases kvmfree kpt true s <;> trivial
    exact Res.holds_bind hfree fun _ _ _ hne => absurd rfl hne
  unfold procKpagetable
  rcases kalloc_tables h with ⟨-, hrun⟩ | ⟨kpt, l1, -, hrun, htables, howned, hsame⟩
  · rw [bind_ok hrun, if_pos rfl]
    exact fun hne => absurd rfl hne
  · have hempty1 : UserEmpty (allocated σ kpt).mem kern := by
      intro i hi
      rw [hsame kern List.mem_cons_self [] _ (by decide) rfl i]
      exact hempty i hi
    have hcopy := userPart_copy htables hempty1 howned
    have hkpt : kpt ∈ [kern, kpt] := List.mem_cons_of_mem _ List.mem_cons_self
    obtain ⟨pstack, s, l2, hrun2, hpart, hstack⟩ := hcopy.kalloc hkpt
    rw [bind_ok hrun, if_neg howned.ne_zero, memmove, modify_bind, bind_ok hrun2]
    by_cases hp : pstack = 0
    · rw [if_pos hp]
      exact hfail kpt s
    · rw [if_neg hp]
      have hmanaged := (hstack hp).managed
      have hlt := hmanaged.lt
      refine Res.holds_bind (hpart.mapPages hkpt hkpt (by decide) (by decide) (by omega)
        (by decide) (by decide) ?_) ?_
      · rintro f ⟨k, hk, rfl⟩
        have hv : vkstack = 0x3EC0000000 := rfl
        have hsize : pgsize = 4096 := rfl
        have hk0 : k = 0 := by
          by_contra hnot
          omega
        rw [hk0, Nat.zero_mul, Nat.add_zero, u64, Nat.mod_eq_of_lt (by omega),
          page_mul hmanaged.aligned]
        exact (hstack hp).callersFrame
      · rintro r s' ⟨l3, hpart', -⟩
        by_cases hr : r ≠ 0
        · rw [if_pos hr]
          exact hfail kpt s'
        · rw [if_neg hr]
          refine fun _ => ⟨fun heq => ?_, l3, hpart'⟩
          exact howned.notIn kern List.mem_cons_self [] (by decide) (heq ▸ rfl)

/-! ## The life of a kernel page table -/

/-- The states of a table `kpt` that `proc_kpagetable` has made. `MapPages` gives it leaf entries
for frames of its callers, which take pages and write to their own in between. -/
inductive KpageRun (kern kpt : Nat) : MemState → Prop
  | made {σ σ' : MemState} {l : List Nat} : Tables [kern] σ l → UserEmpty σ.mem kern → kpt ≠ 0 →
      procKpagetable kern σ = .ok kpt σ' → KpageRun kern kpt σ'
  | mapped {σ σ' : MemState} {vaddr paddr size perm : Nat} {r : Int} : KpageRun kern kpt σ →
      1 ≤ size → vaddr + size ≤ maxuva → paddr < 2 ^ 64 → perm < 1024 →
      perm &&& (pteR ||| pteW ||| pteX) ≠ 0 →
      (∀ l f, FreeList σ l → MappedFrame vaddr paddr size f → CallersFrame [kern, kpt] σ l f) →
      mapPages kpt vaddr paddr size perm σ = .ok r σ' → KpageRun kern kpt σ'
  | taken {σ σ' : MemState} {page : Nat} : KpageRun kern kpt σ → kalloc σ = .ok page σ' →
      KpageRun kern kpt σ'
  | written {σ : MemState} {m : Mem} : KpageRun kern kpt σ →
      (∀ l b, FreeList σ l → m b ≠ σ.mem b → CallersFrame [kern, kpt] σ l (b / 4096 * 4096)) →
      KpageRun kern kpt { σ with mem := m }

/-- Data of the callers. -/
theorem UserPart.written {m : Mem} (h : UserPart roots kpt σ l) (hkpt : kpt ∈ roots)
    (hm : ∀ b, m b ≠ σ.mem b → CallersFrame roots σ l (b / 4096 * 4096)) :
    UserPart roots kpt { σ with mem := m } l := by
  have hsame : ∀ root ∈ roots, TableSame σ.mem m root := by
    intro root hroot is pn his hr i
    refine slots_of_outside (fun b hb => ?_) i
    by_contra hne
    refine (hm b hne).notIn root hroot is his ?_
    rw [Nat.mul_div_cancel _ (by decide), hb]
    exact hr
  have hfree : FreeList { σ with mem := m } l := by
    refine h.tables.free.congr m fun q hq => readWord_congr fun b hb hb' => ?_
    by_contra hne
    have hqa := (h.tables.free.managed q hq).aligned
    have hpage : b / 4096 * 4096 = q := by omega
    exact (hm b hne).notFree (hpage ▸ hq)
  exact h.same hkpt (h.tables.same hsame hfree fun root hroot q hq =>
    h.tables.fresh root hroot q hq) hsame rfl fun f hf => hf.notFree

theorem KpageRun.userPart {kern : Nat} (h : KpageRun kern kpt σ) :
    kpt ≠ kern ∧ ∃ l, UserPart [kern, kpt] kpt σ l := by
  have hkpt : kpt ∈ [kern, kpt] := List.mem_cons_of_mem _ List.mem_cons_self
  induction h with
  | made htables hempty hne hrun =>
    have hmade := procKpagetable_userPart htables hempty
    rw [hrun] at hmade
    exact hmade hne
  | mapped _ hsize hrange hpaddr hperm hleaf hframes hrun ih =>
    obtain ⟨hne, l, hpart⟩ := ih
    have hbelow : maxuva ≤ maxva := by decide
    have hmap := hpart.mapPages hkpt hkpt hsize (Nat.le_trans hrange hbelow) hpaddr hperm hleaf
      fun f => hframes l f hpart.tables.free
    rw [hrun] at hmap
    obtain ⟨l', hpart', -⟩ := hmap
    exact ⟨hne, l', hpart'⟩
  | taken _ hrun ih =>
    obtain ⟨hne, l, hpart⟩ := ih
    obtain ⟨page, s, l', hrun', hpart', -⟩ := hpart.kalloc hkpt
    rw [hrun] at hrun'
    obtain ⟨-, rfl⟩ := Res.ok.inj hrun'
    exact ⟨hne, l', hpart'⟩
  | written _ hm ih =>
    obtain ⟨hne, l, hpart⟩ := ih
    exact ⟨hne, l, hpart.written hkpt fun b => hm l b hpart.tables.free⟩

/-- What `KvmfreeUser` leaves of the pages `l` that are free in `σ`. -/
structure UserFreed (kern kpt : Nat) (σ : MemState) (l freed : List Nat) (σ' : MemState) :
    Prop where
  free : FreeList σ' (freed ++ l)
  once : freed.Nodup
  tables : ∀ page, page ∈ freed ↔ page % 4096 = 0 ∧ ∃ (i : Fin 512) (is : List (Fin 512)),
    i.val < px 2 maxuva ∧ is.length ≤ 1 ∧
      Radix.reach child (slots σ.mem) (kpt / 4096) (i :: is) = some (page / 4096)
  noFrame : ∀ va < maxuva, ∀ f flags, translate σ.mem kpt va = some (f, flags) → f ∉ freed
  noShared : ∀ page ∈ freed, NotInTable σ.mem kern page
  cleared : ∀ i : Fin 512, i.val < px 2 maxuva → slots σ'.mem (kpt / 4096) i = 0
  translations : ∀ root ∈ [kern, kpt], ∀ va, maxuva ≤ va → va < maxva →
    translate σ'.mem root va = translate σ.mem root va

theorem kvmfreeUser_frees {kern : Nat} (h : KpageRun kern kpt σ) :
    ∃ l freed σ', FreeList σ l ∧ kvmfreeUser kpt σ = .ok () σ' ∧
      UserFreed kern kpt σ l freed σ' := by
  have hkern : kern ∈ [kern, kpt] := List.mem_cons_self
  have hkpt : kpt ∈ [kern, kpt] := List.mem_cons_of_mem _ List.mem_cons_self
  obtain ⟨hne, l, hpart⟩ := h.userPart
  obtain ⟨σ', freed, hrun, hfree, honce, htables, hcleared, htrans⟩ := hpart.kvmfreeUser hkpt
  refine ⟨l, freed, σ', hpart.tables.free, hrun, hfree, honce, htables,
    fun va hva f flags hf hmem => ?_, fun page hmem is his hr => ?_, hcleared, htrans⟩
  · obtain ⟨-, i, is, hi, his, hr⟩ := (htables f).mp hmem
    exact (hpart.frames va hva f flags hf).notIn kpt hkpt (i :: is) (by simpa using his) hr
  · obtain ⟨-, i, js, hi, hjs, hrj⟩ := (htables page).mp hmem
    have hpath := userPath_cons hi js
    obtain ⟨heq, -⟩ := hpart.owned (i :: js) _ hpath (by simpa using hjs) hrj _
      (mem_rootPages hkern) is his hr
    refine hne ?_
    rw [← page_mul (hpart.tables.aligned kpt hkpt), ← heq,
      page_mul (hpart.tables.aligned kern hkern)]

/-- Seven free pages above an empty `kern_pagetable` at `0x80400000`. -/
def kpageMachine : MemState := withFree kernbase [0x80500000, 0x80501000, 0x80502000, 0x80503000,
  0x80504000, 0x80505000, 0x80506000]

theorem kpageMachine_zero (i : Fin 512) : slots kpageMachine.mem 0x80400 i = 0 := by
  have hi := i.isLt
  have hword : readWord kpageMachine.mem (0x80400 * 4096 + 8 * i.val) =
      readWord (fun _ => 0) (0x80400 * 4096 + 8 * i.val) := by
    refine readWord_congr fun b _ _ => withFree_zero _ fun p hp => ?_
    simp only [List.mem_cons, List.not_mem_nil, or_false] at hp
    omega
  rw [slots, hword]
  simp [readWord, readLE]

theorem kpageMachine_tables : Tables [0x80400000] kpageMachine [0x80500000, 0x80501000, 0x80502000,
    0x80503000, 0x80504000, 0x80505000, 0x80506000] := by
  have hfree : FreeList kpageMachine [0x80500000, 0x80501000, 0x80502000, 0x80503000, 0x80504000,
      0x80505000, 0x80506000] := by
    refine withFree_freeList (by decide) fun p hp => ?_
    simp only [List.mem_cons, List.not_mem_nil, or_false] at hp
    rcases hp with rfl | rfl | rfl | rfl | rfl | rfl | rfl <;>
      exact ⟨⟨by decide, by decide, by decide⟩, by decide⟩
  refine tables_of_zero ?_ hfree ?_ ?_ ?_
  all_goals
    intro root hroot
    rw [List.mem_singleton.mp hroot]
  · decide
  · decide
  · exact kpageMachine_zero

/-- A table with a stack and one user page. -/
theorem kpageMachine_run : ∃ σ, KpageRun 0x80400000 0x80500000 σ ∧
    translate σ.mem 0x80500000 0x1000 = some (0x80504000, pteR ||| pteV) := by
  have hvalue : ((do
      let kpt ← procKpagetable 0x80400000
      let page ← kalloc
      let r ← mapPages 0x80500000 0x1000 page pgsize pteR
      let σ ← read
      pure (kpt, page, r, translate σ.mem 0x80500000 0x1000) : MemComp _) kpageMachine).value =
        some (0x80500000, 0x80504000, 0, some (0x80504000, pteR ||| pteV)) := by decide +kernel
  obtain ⟨s, hrun⟩ := Res.eq_ok_of_value hvalue
  obtain ⟨kpt, s1, hmade, hrun⟩ := bind_eq_ok.mp hrun
  obtain ⟨page, s2, htaken, hrun⟩ := bind_eq_ok.mp hrun
  obtain ⟨r, s3, hmapped, hrun⟩ := bind_eq_ok.mp hrun
  obtain ⟨hres, rfl⟩ := Res.ok.inj hrun
  simp only [Prod.mk.injEq] at hres
  obtain ⟨rfl, rfl, -, htrans⟩ := hres
  have hkpt : 0x80500000 ∈ [0x80400000, 0x80500000] := by decide
  have hrun1 : KpageRun 0x80400000 0x80500000 s1 :=
    .made kpageMachine_tables (fun i _ => kpageMachine_zero i) (by decide) hmade
  obtain ⟨-, l, hpart⟩ := hrun1.userPart
  obtain ⟨page, s2', l', htaken', hpart', howned⟩ := hpart.kalloc hkpt
  rw [htaken] at htaken'
  obtain ⟨rfl, rfl⟩ := Res.ok.inj htaken'
  refine ⟨s3, .mapped (hrun1.taken htaken) (by decide) (by decide) (by decide) (by decide)
    (by decide) ?_ hmapped, htrans⟩
  rintro l1 f hfree ⟨k, hk, rfl⟩
  have hk0 : k = 0 := by
    have hsize : pgsize = 4096 := rfl
    by_contra hnot
    omega
  rw [hk0, hfree.chain.unique hpart'.tables.free.chain]
  exact (howned (by decide)).callersFrame

theorem kvmfreeUser_frees_kpage : ∃ σ, KpageRun 0x80400000 0x80500000 σ ∧
    translate σ.mem 0x80500000 0x1000 = some (0x80504000, pteR ||| pteV) ∧
    ∃ l freed σ', FreeList σ l ∧ kvmfreeUser 0x80500000 σ = .ok () σ' ∧
      UserFreed 0x80400000 0x80500000 σ l freed σ' := by
  obtain ⟨σ, hrun, htrans⟩ := kpageMachine_run
  exact ⟨σ, hrun, htrans, kvmfreeUser_frees hrun⟩

end PageFaultOS
