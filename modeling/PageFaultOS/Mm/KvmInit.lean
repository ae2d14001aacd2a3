import Mathlib.Tactic
import PageFaultOS.Mm.Freewalk
import PageFaultOS.Mm.TableCount

/-! The kernel's page table at boot (`kvmInit`, built with `K210` defined as the Makefile does):
which pages it maps, and how many free pages it takes. -/

namespace PageFaultOS
open Exec Exec.Comp ByteMem

def virtOffset : Nat := 0x3F00000000
def uart : Nat := 0x38000000
def clint : Nat := 0x02000000
def plic : Nat := 0x0c000000

/-- Where the linker puts the kernel: its text ends at `etext`, with the trampoline's page in it. -/
structure KernelImage where
  etext : Nat
  trampolineCode : Nat
  etext_aligned : etext % 4096 = 0
  trampoline_aligned : trampolineCode % 4096 = 0
  text : kernbase ≤ trampolineCode ∧ trampolineCode + pgsize ≤ etext
  data : etext < phystop

def kvmMap (kernPagetable vaddr paddr size perm : Nat) : MemComp Unit := do
  let r ← mapPages kernPagetable vaddr paddr size perm
  if r ≠ 0 then Comp.panic "kvmMap: failed!" else pure ()

def kvmInit (k : KernelImage) : MemComp Nat := do
  let kernPagetable ← kalloc
  memset kernPagetable 0 pgsize
  kvmMap kernPagetable (uart + virtOffset) uart pgsize (pteR ||| pteW)
  kvmMap kernPagetable kernbase kernbase (k.etext - kernbase) (pteR ||| pteX)
  kvmMap kernPagetable k.etext k.etext (phystop - k.etext) (pteR ||| pteW)
  kvmMap kernPagetable trampoline k.trampolineCode pgsize (pteR ||| pteX)
  kvmMap kernPagetable (clint + virtOffset) clint 0x10000 (pteR ||| pteW)
  kvmMap kernPagetable (plic + virtOffset) plic 0x4000 (pteR ||| pteW)
  kvmMap kernPagetable (plic + virtOffset + 0x200000) (plic + 0x200000) 0x4000 (pteR ||| pteW)
  pure kernPagetable

/-- A range of pages that is mapped to consecutive frames. -/
structure Region where
  vaddr : Nat
  paddr : Nat
  size : Nat
  perm : Nat

def Region.Has (r : Region) (va : Nat) : Prop := r.vaddr ≤ va ∧ va < r.vaddr + r.size

instance (r : Region) (va : Nat) : Decidable (r.Has va) := inferInstanceAs (Decidable (_ ∧ _))

structure Region.Ok (r : Region) : Prop where
  aligned : r.vaddr % 4096 = 0 ∧ r.paddr % 4096 = 0 ∧ r.size % 4096 = 0
  size_pos : 0 < r.size
  below : r.vaddr + r.size ≤ maxva
  frames : r.paddr + r.size ≤ maxva
  perm_lt : r.perm < 1024

/-- What `kvmInit` maps, in its order. -/
def bootRegions (k : KernelImage) : List Region :=
  [⟨uart + virtOffset, uart, pgsize, pteR ||| pteW⟩,
   ⟨kernbase, kernbase, k.etext - kernbase, pteR ||| pteX⟩,
   ⟨k.etext, k.etext, phystop - k.etext, pteR ||| pteW⟩,
   ⟨trampoline, k.trampolineCode, pgsize, pteR ||| pteX⟩,
   ⟨clint + virtOffset, clint, 0x10000, pteR ||| pteW⟩,
   ⟨plic + virtOffset, plic, 0x4000, pteR ||| pteW⟩,
   ⟨plic + virtOffset + 0x200000, plic + 0x200000, 0x4000, pteR ||| pteW⟩]

/-- The tables below the root that the regions need. -/
def pathsOf (rs : List Region) : Finset (List (Fin 512)) :=
  rs.foldr (fun r paths => tablePathsTo r.vaddr (r.size / 4096) ∪ paths) ∅

def mapRegions (kernPagetable : Nat) (rs : List Region) : MemComp Unit :=
  forEach rs fun r => kvmMap kernPagetable r.vaddr r.paddr r.size r.perm

/-- The table while it is built: `done` is mapped, `n` pages were free at first. -/
structure Booting (root n : Nat) (done : List Region) (σ : MemState) (l : List Nat) : Prop where
  table : PageTable σ.mem root
  free : FreeList σ l
  fresh : ∀ q ∈ l, NotInTable σ.mem root q
  nonzero : NotInTable σ.mem root 0
  ok : ∀ r ∈ done, r.Ok
  maps : ∀ r ∈ done, ∀ va, r.Has va → translate σ.mem root va =
    some (frameOf r.vaddr r.paddr va, r.perm ||| pteV)
  unmapped : ∀ va, va < 2 ^ 39 → (∀ r ∈ done, ¬ r.Has va) → pteOf σ.mem root va = 0
  lacks : ∀ js, js.length ≤ 2 → (Lacks σ.mem root js ↔ js ≠ [] ∧ js ∉ pathsOf done)
  count : l.length + (pathsOf done).card = n

theorem mapRegions_cons {α : Type} (kern : Nat) (r : Region) (rs : List Region)
    (f : Unit → MemComp α) : (mapRegions kern (r :: rs) >>= f) =
      kvmMap kern r.vaddr r.paddr r.size r.perm >>= fun _ => mapRegions kern rs >>= f :=
  funext fun s => bind_assoc_apply _ _ _ s

/-- The function as one loop over its regions. -/
theorem kvmInit_eq (k : KernelImage) :
    kvmInit k = kalloc >>= fun kern => memset kern 0 pgsize >>= fun _ =>
      mapRegions kern (bootRegions k) >>= fun _ => pure kern := by
  simp only [bootRegions, mapRegions_cons]
  rfl

section
variable {root n : Nat} {done : List Region} {σ : MemState} {l : List Nat} {r : Region}

theorem mem_tablePathsTo {first m : Nat} {js : List (Fin 512)} :
    js ∈ tablePathsTo first m ↔ ∃ i < m, js = [idx 2 (first + 4096 * i)] ∨
      js = [idx 2 (first + 4096 * i), idx 1 (first + 4096 * i)] := by
  simp [tablePathsTo, tablePaths]

theorem pathsOf_length {js : List (Fin 512)} (h : js ∈ pathsOf done) : js.length ≤ 2 := by
  induction done with
  | nil => cases h
  | cons r done ih =>
    rcases Finset.mem_union.mp h with h | h
    · obtain ⟨i, -, hi⟩ := Finset.mem_biUnion.mp h
      exact tablePaths_length hi
    · exact ih h

theorem Region.Ok.range (h : r.Ok) {va : Nat} (hva : va < 2 ^ 39) :
    pgrounddown r.vaddr ≤ pgrounddown va ∧
      pgrounddown va ≤ pgrounddown (r.vaddr + r.size - 1) ↔ r.Has va := by
  have hmax := maxva_eq
  obtain ⟨hv, -, hs⟩ := h.aligned
  have hbelow := h.below
  have hpos := h.size_pos
  unfold Region.Has
  rw [pgrounddown_eq (by omega), pgrounddown_eq (by omega), pgrounddown_eq (by omega)]
  omega

/-- The number of its pages, as `MapPages` counts them. -/
theorem Region.Ok.pages (h : r.Ok) : pgrounddown r.vaddr = r.vaddr ∧
    (pgrounddown (r.vaddr + r.size - 1) - r.vaddr) / 4096 + 1 = r.size / 4096 := by
  have hmax := maxva_eq
  obtain ⟨hv, -, hs⟩ := h.aligned
  have hbelow := h.below
  have hpos := h.size_pos
  rw [pgrounddown_eq (by omega), pgrounddown_eq (by omega)]
  omega

theorem Region.Ok.lt (h : r.Ok) {va : Nat} (hva : r.Has va) : va < 2 ^ 39 := by
  have hmax := maxva_eq
  have hbelow := h.below
  have hlt := hva.2
  omega

/-- `PGROUNDDOWN` and `walk` see 64 bits of an address. -/
theorem pgrounddown_mod (va : Nat) : pgrounddown (va % 2 ^ 64) = pgrounddown va := by
  have hlt : va &&& (2 ^ 64 - pgsize) < 2 ^ 64 :=
    Nat.lt_of_le_of_lt Nat.and_le_right (show 2 ^ 64 - pgsize < 2 ^ 64 by decide)
  have hmod := Nat.and_mod_two_pow (a := va) (b := 2 ^ 64 - pgsize) (n := 64)
  rw [Nat.mod_eq_of_lt hlt, Nat.mod_eq_of_lt (show 2 ^ 64 - pgsize < 2 ^ 64 by decide)] at hmod
  exact hmod.symm

theorem pteOf_mod (m : Mem) (root va : Nat) : pteOf m root (va % 2 ^ 64) = pteOf m root va := by
  have hidx : ∀ level ≤ 2, idx level (va % 2 ^ 64) = idx level va := by
    intro level hlevel
    apply Fin.ext
    change px level (va % 2 ^ 64) = px level va
    rw [px_eq, px_eq]
    interval_cases level <;> omega
  simp only [pteOf, leafTable, inner, hidx 2 (by decide), hidx 1 (by decide), hidx 0 (by decide)]

/-- `MapPages` does not meet an entry where there is none below `2 ^ 39`. -/
theorem Region.Ok.meets (h : r.Ok) {m : Mem} {va : Nat} (hin : PageInRange r.vaddr r.size va)
    (hne : pteOf m root va ≠ 0) : ∃ va, r.Has va ∧ pteOf m root va ≠ 0 := by
  have hmax := maxva_eq
  have hbelow := h.below
  have hpos := h.size_pos
  have hround := pgrounddown_eq (a := va % 2 ^ 64) (Nat.mod_lt va (by decide))
  rw [PageInRange, ← pgrounddown_mod va] at hin
  have hlast := hin.2
  rw [hround, pgrounddown_eq (a := r.vaddr + r.size - 1) (by omega)] at hlast
  refine ⟨va % 2 ^ 64, (h.range (by omega)).mp hin, ?_⟩
  rw [pteOf_mod]
  exact hne

/-- What is still lacking of the tables of `n` pages. -/
theorem Booting.lacking (h : Booting root n done σ l) (first m : Nat) :
    lacking σ.mem root first m = (tablePathsTo first m \ pathsOf done).card := by
  unfold PageFaultOS.lacking
  congr 1
  ext js
  rw [Finset.mem_filter, Finset.mem_sdiff]
  refine and_congr_right fun hjs => ?_
  obtain ⟨i, -, hi⟩ := Finset.mem_biUnion.mp hjs
  rw [h.lacks js (tablePaths_length hi)]
  refine and_iff_right ?_
  rintro rfl
  simp [tablePaths] at hi

/-- Where the pages run out, the regions need more tables than there were pages. -/
theorem Booting.runs_out (h : Booting root n done σ l) (hr : r.Ok)
    (hout : TablesRunOut σ.mem root (pgrounddown r.vaddr) (pgrounddown (r.vaddr + r.size - 1))
      l.length) : n < (pathsOf (r :: done)).card := by
  obtain ⟨m, hm, -, hlt⟩ := hout
  obtain ⟨hfirst, hpages⟩ := hr.pages
  rw [hfirst] at hm hlt
  have hsub : m + 1 ≤ r.size / 4096 := by omega
  have hle : PageFaultOS.lacking σ.mem root r.vaddr (m + 1) ≤
      (tablePathsTo r.vaddr (r.size / 4096) \ pathsOf done).card := by
    rw [← h.lacking]
    exact lacking_mono σ.mem root r.vaddr hsub
  have hunion := Finset.card_sdiff_add_card (tablePathsTo r.vaddr (r.size / 4096)) (pathsOf done)
  have hcount := h.count
  change n < (tablePathsTo r.vaddr (r.size / 4096) ∪ pathsOf done).card
  omega

/-- The region is mapped: what has become of the table and the free pages. -/
theorem Booting.mapped (h : Booting root n done σ l) (hr : r.Ok)
    (hsep : ∀ r' ∈ done, ∀ va, r'.Has va → ¬ r.Has va) {σ' : MemState} {l' : List Nat}
    (htable : PageTable σ'.mem root)
    (hptes : ∀ va, va < 2 ^ 39 → pteOf σ'.mem root va =
      if pgrounddown r.vaddr ≤ pgrounddown va ∧
        pgrounddown va ≤ pgrounddown (r.vaddr + r.size - 1) then
        entryOf r.vaddr r.paddr r.perm va else pteOf σ.mem root va)
    (hall : MapAll root (pgrounddown r.vaddr) (pgrounddown (r.vaddr + r.size - 1)) σ l σ' l') :
    Booting root n (r :: done) σ' l' := by
  have hmax := maxva_eq
  obtain ⟨hfirst, hpages⟩ := hr.pages
  have hadded := hall.added
  rw [hfirst, hpages] at hadded
  refine ⟨htable, hall.free, hall.fresh, ?_, List.forall_mem_cons.mpr ⟨hr, h.ok⟩, ?_, ?_, ?_, ?_⟩
  · exact hadded.outside 0 rfl (fun hmem => h.free.ne_zero hmem rfl) h.nonzero
  · intro r' hr' va hva
    rcases List.mem_cons.mp hr' with rfl | hdone
    · have hlt := hr.lt hva
      have hentry := hptes va hlt
      rw [if_pos ((hr.range hlt).mpr hva)] at hentry
      have hbelow := hr.below
      have hpos := hr.size_pos
      exact translate_entryOf hr.perm_lt hlt (by omega) hr.aligned.2.1 hentry
    · rw [← h.maps r' hdone va hva]
      have hlt : va < 2 ^ 39 := (h.ok r' hdone).lt hva
      refine translate_congr ((hptes va hlt).trans (if_neg fun hin => ?_))
      exact hsep r' hdone va hva ((hr.range hlt).mp hin)
  · intro va hlt hnone
    rw [hptes va hlt, if_neg fun hin =>
      hnone r (List.mem_cons_self ..) ((hr.range hlt).mp hin)]
    exact h.unmapped va hlt fun r' hr' => hnone r' (List.mem_cons_of_mem _ hr')
  · intro js hjs
    rw [hadded.lacks js hjs, h.lacks js hjs, and_assoc]
    refine and_congr_right fun _ => ?_
    change _ ↔ js ∉ tablePathsTo r.vaddr (r.size / 4096) ∪ pathsOf done
    rw [Finset.mem_union, not_or, and_comm]
  · have hcount : l'.length + PageFaultOS.lacking σ.mem root r.vaddr (r.size / 4096) = l.length :=
      hadded.count
    rw [h.lacking] at hcount
    have hunion := Finset.card_sdiff_add_card (tablePathsTo r.vaddr (r.size / 4096)) (pathsOf done)
    have hold := h.count
    change l'.length + (tablePathsTo r.vaddr (r.size / 4096) ∪ pathsOf done).card = n
    omega

/-- `kvmMap` maps the region, or panics because the regions need more tables than there were
pages. -/
theorem Booting.kvmMap (h : Booting root n done σ l) (hr : r.Ok)
    (hsep : ∀ r' ∈ done, ∀ va, r'.Has va → ¬ r.Has va) :
    (kvmMap root r.vaddr r.paddr r.size r.perm σ).Holds
      (fun _ σ' => ∃ l', Booting root n (r :: done) σ' l')
      (fun f _ => f = .panic "kvmMap: failed!" ∧ n < (pathsOf (r :: done)).card) := by
  have hmax := maxva_eq
  have hbelow := hr.below
  have hframes := hr.frames
  have hpos := hr.size_pos
  have hloop := mapPages_loop h.table h.free h.fresh (show r.paddr < 2 ^ 64 by omega) hpos
    (show r.vaddr + r.size - 1 < maxva by omega) hr.perm_lt
  have htakes := mapPages_takes h.table h.free h.fresh h.nonzero (show r.paddr < 2 ^ 64 by omega)
    hpos (show r.vaddr + r.size - 1 < maxva by omega) hr.perm_lt
  unfold PageFaultOS.kvmMap
  rw [bind_apply]
  cases hrun : mapPages root r.vaddr r.paddr r.size r.perm σ with
  | ok c σ' =>
    rw [hrun] at hloop htakes
    obtain ⟨htable, hptes⟩ := hloop
    rcases htakes with ⟨rfl, hout⟩ | ⟨rfl, -, l', hall⟩
    · exact ⟨rfl, h.runs_out hr hout⟩
    · have hptes := (hptes.resolve_left fun hneg => absurd hneg.1 (by decide)).2
      exact ⟨l', h.mapped hr hsep htable hptes hall⟩
  | fault f s =>
    rw [hrun] at hloop
    obtain ⟨-, va, hin, hne⟩ := hloop
    obtain ⟨vb, hvb, hne⟩ := hr.meets hin hne
    exact absurd (h.unmapped vb (hr.lt hvb) fun r' hr' hva => hsep r' hr' vb hva hvb) hne

theorem mem_pathsOf {rs : List Region} {js : List (Fin 512)} :
    js ∈ pathsOf rs ↔ ∃ r ∈ rs, js ∈ tablePathsTo r.vaddr (r.size / 4096) := by
  induction rs with
  | nil => simp [pathsOf]
  | cons r rs ih =>
    rw [List.exists_mem_cons_iff, ← ih]
    exact Finset.mem_union

theorem pathsOf_card_le {rs rs' : List Region} (h : rs ⊆ rs') :
    (pathsOf rs).card ≤ (pathsOf rs').card := by
  refine Finset.card_le_card fun js hjs => ?_
  obtain ⟨r, hr, hr'⟩ := mem_pathsOf.mp hjs
  exact mem_pathsOf.mpr ⟨r, h hr, hr'⟩

/-- The regions one after the other. -/
theorem Booting.mapRegions {rs : List Region} (h : Booting root n done σ l)
    (hok : ∀ r ∈ rs, r.Ok) (hsep : rs.Pairwise fun r r' => ∀ va, r.Has va → ¬ r'.Has va)
    (hdone : ∀ r' ∈ done, ∀ r ∈ rs, ∀ va, r'.Has va → ¬ r.Has va) :
    (mapRegions root rs σ).Holds
      (fun _ σ' => ∃ l', Booting root n (rs.reverse ++ done) σ' l')
      (fun f _ => f = .panic "kvmMap: failed!" ∧ n < (pathsOf (rs.reverse ++ done)).card) := by
  induction rs generalizing done σ l with
  | nil => exact ⟨l, h⟩
  | cons r rs ih =>
    obtain ⟨hr, hok⟩ := List.forall_mem_cons.mp hok
    obtain ⟨hfirst, hsep⟩ := List.pairwise_cons.mp hsep
    have hreverse : (r :: rs).reverse ++ done = rs.reverse ++ r :: done := by simp
    rw [hreverse]
    have hhead := h.kvmMap hr fun r' hr' => hdone r' hr' r (List.mem_cons_self ..)
    refine Res.holds_bind (hhead.mono (fun _ _ h => h) ?_) ?_
    · rintro f s ⟨rfl, hlt⟩
      refine ⟨rfl, Nat.lt_of_lt_of_le hlt (pathsOf_card_le ?_)⟩
      exact List.subset_append_right _ _
    · rintro _ σ1 ⟨l1, h1⟩
      refine ih h1 hok hsep ?_
      intro r' hr' r2 hr2
      rcases List.mem_cons.mp hr' with rfl | hr'
      · exact hfirst r2 hr2
      · exact hdone r' hr' r2 (List.mem_cons_of_mem _ hr2)

end

/-! ## The tables of the kernel's regions -/

theorem tablePathsTo_add (first a b : Nat) : tablePathsTo first (a + b) =
    tablePathsTo first a ∪ tablePathsTo (first + 4096 * a) b := by
  induction b with
  | zero => simp [tablePathsTo]
  | succ b ih =>
    rw [← Nat.add_assoc, tablePathsTo_succ, ih, tablePathsTo_succ, Finset.union_assoc]
    congr 3
    ring

/-- Pages of one last table. -/
theorem tablePathsTo_one {first m : Nat} (hm : 0 < m)
    (h : (first + 4096 * (m - 1)) / 2 ^ 21 = first / 2 ^ 21) :
    tablePathsTo first m = tablePaths first := by
  have hsame : ∀ i < m, tablePaths (first + 4096 * i) = tablePaths first := by
    intro i hi
    have hidx : ∀ level, level = 1 ∨ level = 2 → idx level (first + 4096 * i) = idx level first := by
      intro level hlevel
      apply Fin.ext
      change px level (first + 4096 * i) = px level first
      rw [px_eq, px_eq]
      rcases hlevel with rfl | rfl <;> omega
    rw [tablePaths, tablePaths, hidx 1 (.inl rfl), hidx 2 (.inr rfl)]
  apply Finset.Subset.antisymm
  · refine Finset.biUnion_subset.mpr fun i hi => ?_
    rw [hsame i (Finset.mem_range.mp hi)]
  · have hfirst := Finset.subset_biUnion_of_mem (fun i => tablePaths (first + 4096 * i))
      (Finset.mem_range.mpr hm)
    exact hfirst

section
variable (k : KernelImage)

/-- Text and data lie in the three last tables of `[KERNBASE, PHYSTOP)`, wherever the text ends. -/
theorem paths_kernel : tablePathsTo kernbase ((k.etext - kernbase) / 4096) ∪
    tablePathsTo k.etext ((phystop - k.etext) / 4096) =
      {[2], [2, 0], [2, 1], [2, 2]} := by
  have hetext := k.etext_aligned
  have htext := k.text
  have hdata := k.data
  have hkern : kernbase = 0x80020000 := rfl
  have hstop : phystop = 0x80600000 := rfl
  have hpage : pgsize = 4096 := rfl
  have hjoin := tablePathsTo_add kernbase ((k.etext - kernbase) / 4096)
    ((phystop - k.etext) / 4096)
  rw [show kernbase + 4096 * ((k.etext - kernbase) / 4096) = k.etext by omega,
    show (k.etext - kernbase) / 4096 + (phystop - k.etext) / 4096 = 480 + (512 + 512) by omega]
    at hjoin
  rw [← hjoin, tablePathsTo_add, tablePathsTo_add,
    tablePathsTo_one (by decide) (by decide), tablePathsTo_one (by decide) (by decide),
    tablePathsTo_one (by decide) (by decide)]
  decide

theorem pathsOf_bootRegions : (pathsOf (bootRegions k).reverse).card = 11 := by
  have huart : tablePathsTo (uart + virtOffset) (pgsize / 4096) = {[252], [252, 448]} :=
    tablePathsTo_one (by decide) (by decide)
  have htramp : tablePathsTo trampoline (pgsize / 4096) = {[255], [255, 511]} :=
    tablePathsTo_one (by decide) (by decide)
  have hclint : tablePathsTo (clint + virtOffset) (0x10000 / 4096) = {[252], [252, 16]} :=
    tablePathsTo_one (by decide) (by decide)
  have hplic : tablePathsTo (plic + virtOffset) (0x4000 / 4096) = {[252], [252, 96]} :=
    tablePathsTo_one (by decide) (by decide)
  have hplic' : tablePathsTo (plic + virtOffset + 0x200000) (0x4000 / 4096) =
      {[252], [252, 97]} := tablePathsTo_one (by decide) (by decide)
  simp only [bootRegions, List.reverse_cons, List.reverse_nil, List.nil_append, List.cons_append,
    pathsOf, List.foldr_cons, List.foldr_nil, huart, htramp, hclint, hplic, hplic']
  rw [← Finset.union_assoc (tablePathsTo k.etext _),
    Finset.union_comm (tablePathsTo k.etext _), paths_kernel]
  decide

theorem bootRegions_ok {r : Region} (hr : r ∈ bootRegions k) : r.Ok := by
  have hetext := k.etext_aligned
  have htramp := k.trampoline_aligned
  have htext := k.text
  have hdata := k.data
  have hkern : kernbase = 0x80020000 := rfl
  have hstop : phystop = 0x80600000 := rfl
  have hpage : pgsize = 4096 := rfl
  have hmax := maxva_eq
  have htop : trampoline = 2 ^ 38 - 4096 := by decide
  have hread : pteR ||| pteX < 1024 := by decide
  have hwrite : pteR ||| pteW < 1024 := by decide
  simp only [bootRegions, List.mem_cons, List.not_mem_nil, or_false, uart, clint, plic,
    virtOffset] at hr
  rcases hr with rfl | rfl | rfl | rfl | rfl | rfl | rfl <;> constructor <;> dsimp only <;> omega

theorem bootRegions_disjoint :
    (bootRegions k).Pairwise fun r r' => ∀ va, r.Has va → ¬ r'.Has va := by
  have htext := k.text
  have hdata := k.data
  have hkern : kernbase = 0x80020000 := rfl
  have hstop : phystop = 0x80600000 := rfl
  have hpage : pgsize = 4096 := rfl
  have htop : trampoline = 2 ^ 38 - 4096 := by decide
  simp only [bootRegions, List.pairwise_cons, List.forall_mem_cons, List.not_mem_nil, false_implies,
    implies_true, and_true, List.Pairwise.nil, Region.Has, uart, clint, plic, virtOffset]
  and_intros <;> intro va hva <;> omega

/-- An empty table where there is no page for a table below. -/
theorem mapPages_no_page {σ : MemState} {root vaddr paddr size perm : Nat}
    (hfree : FreeList σ []) (hal : root % 4096 = 0)
    (hzero : ∀ i, slots σ.mem (root / 4096) i = 0) (hva : pgrounddown vaddr < maxva) :
    mapPages root vaddr paddr size perm σ = .ok (-1) σ := by
  have hlevel := @walkLevel_cases σ [] hfree (root / 4096)
    (fun q hq => absurd hq List.not_mem_nil) (pgrounddown vaddr) 2
  rw [hzero, page_mul hal] at hlevel
  have hnone : walkLevel root (pgrounddown vaddr) true 2 σ = .ok none σ := by
    rcases hlevel with ⟨hval, -⟩ | ⟨-, -, hrun⟩ | ⟨-, q, l', hl, -⟩
    · exact absurd (Nat.zero_and pteV) hval
    · exact hrun
    · cases hl
  have hwalk : walk root (pgrounddown vaddr) true σ = .ok 0 σ := by
    have hnot : ¬ maxva ≤ pgrounddown vaddr := Nat.not_le.mpr hva
    simp only [walk, hnot, if_false]
    rw [bind_ok hnone]
    rfl
  unfold mapPages
  refine loop_done ?_ _
  rw [mapPagesRound_walked hwalk, if_pos rfl]

/-- The table after `memset`, with nothing mapped. -/
theorem Booting.start {σ : MemState} {root : Nat} {l : List Nat} (hfree : FreeList σ l)
    (htaken : TakenPage σ l root) :
    Booting root l.length [] { σ with mem := fill σ.mem root pgsize 0 } l := by
  have hal := htaken.managed.aligned
  have hfree' := htaken.write hfree (fill σ.mem root pgsize 0)
    fun b hb => fill_apply_of_outside _ _ _ _ b hb
  have hzero : ∀ i, slots (fill σ.mem root pgsize 0) (root / 4096) i = 0 := by
    intro i
    have hi := i.isLt
    exact readWord_fill_zero _ _ _ _ (by omega) (by simp only [pgsize]; omega)
  obtain ⟨htable, hfresh, hptes⟩ := pageTable_of_zero _ root hal hzero
  refine ⟨htable, hfree', ?_, ?_, ?_, ?_, ?_, ?_, ?_⟩
  · intro q hq
    refine hfresh q (hfree.managed q hq).aligned ?_
    rintro rfl
    exact htaken.notFree hq
  · exact hfresh 0 rfl (Ne.symm htaken.ne_zero)
  · exact fun r hr => absurd hr List.not_mem_nil
  · exact fun r hr => absurd hr List.not_mem_nil
  · exact fun va _ _ => hptes va
  · intro js _
    cases js with
    | nil => simp [Lacks, Radix.reach]
    | cons i js =>
      have hnone : Lacks (fill σ.mem root pgsize 0) root (i :: js) := by
        rw [Lacks, Radix.reach_cons, hzero]
        rfl
      exact ⟨fun _ => ⟨List.cons_ne_nil i js, Finset.notMem_empty _⟩, fun _ => hnone⟩
  · simp [pathsOf]

/-- `kvmInit` succeeds if and only if there are twelve free pages. The table then maps each of its
regions page by page, and no other page of the first 512 GiB. -/
theorem kvmInit_maps {σ : MemState} {l : List Nat} (h : FreeList σ l) :
    (kvmInit k σ).Holds
      (fun root σ' => 12 ≤ l.length ∧ PageTable σ'.mem root ∧
        (∃ l', FreeList σ' l' ∧ l'.length + 12 = l.length ∧ ∀ q ∈ l', NotInTable σ'.mem root q) ∧
        (∀ r ∈ bootRegions k, ∀ va, r.Has va → translate σ'.mem root va =
          some (frameOf r.vaddr r.paddr va, r.perm ||| pteV)) ∧
        ∀ va, va < 2 ^ 39 → (∀ r ∈ bootRegions k, ¬ r.Has va) → translate σ'.mem root va = none)
      (fun f _ => l.length < 12 ∧ f = .panic "kvmMap: failed!") := by
  rw [kvmInit_eq]
  rcases kalloc_taken h with ⟨rfl, hrun⟩ | ⟨root, l', rfl, hrun, hfree, htaken⟩
  · -- the first `MapPages` finds no page for the second level
    have hmap : mapPages 0 (uart + virtOffset) uart pgsize (pteR ||| pteW)
        { σ with mem := fill σ.mem 0 pgsize 0 } =
          .ok (-1) { σ with mem := fill σ.mem 0 pgsize 0 } := by
      refine mapPages_no_page (h.congr _ fun q hq => absurd hq List.not_mem_nil) rfl ?_ (by decide)
      intro i
      have hi := i.isLt
      exact readWord_fill_zero _ _ _ _ (by omega) (by simp only [pgsize]; omega)
    rw [bind_ok hrun]
    simp only [memset, modify_bind]
    rw [bootRegions, mapRegions_cons, bind_fault (e := .panic "kvmMap: failed!")]
    · exact ⟨by decide, rfl⟩
    · rw [kvmMap, bind_ok hmap]
      rfl
  · rw [bind_ok hrun]
    have hstart := Booting.start hfree htaken
    have hall := hstart.mapRegions (fun r hr => bootRegions_ok k hr) (bootRegions_disjoint k)
      fun r hr => absurd hr List.not_mem_nil
    rw [List.append_nil, pathsOf_bootRegions] at hall
    simp only [memset, modify_bind]
    refine Res.holds_bind (hall.mono (fun _ _ h => h) ?_) ?_
    · rintro f s ⟨rfl, hlt⟩
      exact ⟨by simp only [List.length_cons]; omega, rfl⟩
    · rintro _ σ' ⟨l2, hb⟩
      have hcount := hb.count
      rw [pathsOf_bootRegions] at hcount
      refine ⟨by simp only [List.length_cons]; omega, hb.table,
        ⟨l2, hb.free, by simp only [List.length_cons]; omega, hb.fresh⟩, ?_, ?_⟩
      · exact fun r hr va hva => hb.maps r (List.mem_reverse.mpr hr) va hva
      · intro va hva hnone
        have hpte := hb.unmapped va hva fun r hr => hnone r (List.mem_reverse.mp hr)
        rw [translate, hpte]
        rfl

end

/-- A kernel of 1 MiB with twelve free pages behind it. -/
def smallImage : KernelImage where
  etext := 0x80120000
  trampolineCode := 0x8011f000
  etext_aligned := by decide
  trampoline_aligned := by decide
  text := by decide
  data := by decide

def smallPages : List Nat := (List.range 12).map fun i => 0x80500000 + 4096 * i

theorem smallPages_free : FreeList (withFree 0x80200000 smallPages) smallPages := by
  apply withFree_freeList
  · decide
  · intro p hp
    obtain ⟨i, hi, rfl⟩ := List.mem_map.mp hp
    have hlt := List.mem_range.mp hi
    have hstop : phystop = 0x80600000 := rfl
    exact ⟨⟨by omega, by omega, by omega⟩, by omega⟩

theorem kvmInit_maps_small :
    (kvmInit smallImage (withFree 0x80200000 smallPages)).Holds
      (fun root σ' => 12 ≤ smallPages.length ∧ PageTable σ'.mem root ∧
        (∃ l', FreeList σ' l' ∧ l'.length + 12 = smallPages.length ∧
          ∀ q ∈ l', NotInTable σ'.mem root q) ∧
        (∀ r ∈ bootRegions smallImage, ∀ va, r.Has va → translate σ'.mem root va =
          some (frameOf r.vaddr r.paddr va, r.perm ||| pteV)) ∧
        ∀ va, va < 2 ^ 39 → (∀ r ∈ bootRegions smallImage, ¬ r.Has va) →
          translate σ'.mem root va = none)
      (fun f _ => smallPages.length < 12 ∧ f = .panic "kvmMap: failed!") :=
  kvmInit_maps smallImage smallPages_free

/-- The devices that are mapped under `#ifndef K210` only. -/
def k210Devices : List Nat :=
  [0x38001000, 0x50000000, 0x50240000, 0x502B0000, 0x52000000, 0x53000000, 0x54000000, 0x50440000]

/-- In the K210's kernel they are not mapped. -/
theorem kvmInit_devices (k : KernelImage) {σ : MemState} {l : List Nat} (h : FreeList σ l) :
    (kvmInit k σ).Holds
      (fun root σ' => ∀ d ∈ k210Devices, ∀ i < 4096,
        translate σ'.mem root (d + virtOffset + i) = none)
      (fun _ _ => True) := by
  refine (kvmInit_maps k h).mono (fun root σ' hmaps d hd i hi => ?_) fun _ _ _ => trivial
  have htext := k.text
  have hdata := k.data
  have hstop : phystop = 0x80600000 := rfl
  have hkern : kernbase = 0x80020000 := rfl
  have hpage : pgsize = 4096 := rfl
  have htop : trampoline = 2 ^ 38 - 4096 := by decide
  simp only [k210Devices, List.mem_cons, List.not_mem_nil, or_false] at hd
  refine hmaps.2.2.2.2 _ ?_ fun r hr => ?_
  · rw [virtOffset]
    omega
  · simp only [bootRegions, List.mem_cons, List.not_mem_nil, or_false, uart, clint, plic,
      virtOffset] at hr
    unfold Region.Has
    rw [virtOffset]
    rcases hr with rfl | rfl | rfl | rfl | rfl | rfl | rfl <;> dsimp only <;> omega

end PageFaultOS
