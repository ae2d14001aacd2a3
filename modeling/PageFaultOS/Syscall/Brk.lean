import Mathlib.Tactic
import PageFaultOS.Fs.Fat32
import PageFaultOS.Mm.Uvmcopy
import PageFaultOS.Mm.UvmGrow
import PageFaultOS.Proc.Lifetime

/-! `sys_brk` of `syscall/syscallproc.cpp` over `growproc`: the difference of the addresses becomes
an `int`, and the size of the process a `uint`. -/

namespace PageFaultOS
open Exec Exec.Comp ByteMem

/-- `addr - p->sz` as the argument of `growproc`. -/
def brkDifference (sz addr : Nat) : Int := toInt (((addr : Int) - sz) % 2 ^ 64)

/-- For the current process `p`. -/
def sysBrk (p addr : Nat) : PageComp Nat := do
  let w ← read
  if addr = 0 then pure (w.procTable p).sz
  else do
    let _ ← PageWorld.growproc p (brkDifference (w.procTable p).sz addr)
    let w ← read
    pure (w.procTable p).sz

/-- How `sys_brk` is to leave the process, and what it is to return. -/
structure BrkLeaves (p addr : Nat) (w : PageWorld) (r : Nat) (w' : PageWorld) : Prop where
  size : (w'.procTable p).sz = addr ∨ (w'.procTable p).sz = (w.procTable p).sz
  result : r = (w'.procTable p).sz
  mapped : (w'.procTable p).sz = addr →
    UserSpace (w'.procTable p).pagetable (w'.procTable p).kpagetable addr w'.mem
  grows : (w.procTable p).sz < addr → (w.procTable p).sz ≤ (w'.procTable p).sz

def BrkMeets (p addr : Nat) (w : PageWorld) : Prop :=
  (sysBrk p addr w).Holds (fun r w' => BrkLeaves p addr w r w') (fun _ _ => False)

/-- The process has the user space that its size says, and the free pages are `l`. -/
structure BrkStart (p : Nat) (w : PageWorld) (l : List Nat) : Prop where
  tables : Tables [(w.procTable p).pagetable, (w.procTable p).kpagetable] w.mem l
  tree : PageTable w.mem.mem (w.procTable p).pagetable
  kernel : kernbase ≤ w.mem.kernelEnd
  space : UserSpace (w.procTable p).pagetable (w.procTable p).kpagetable (w.procTable p).sz w.mem
  small : (w.procTable p).sz < maxuva

/-- The process is to grow by as much as `Uvmalloc` fails to map, to shrink by more than it has, or
to shrink within its last page, and not to the start of it. -/
def BrkFits (p addr : Nat) (w : PageWorld) (l : List Nat) : Prop :=
  let sz := (w.procTable p).sz
  let n := brkDifference sz addr
  (0 < n → GrowthFails w.mem.mem (w.procTable p).pagetable (pgrounddown sz) l) ∧
    (n < 0 → sz + n < 0 ∨
      sz + n = addr ∧ pgrounddown sz ≤ pgrounddown addr ∧ addr % pgsize ≠ 0)

section
variable {p addr : Nat} {w : PageWorld} {l : List Nat}

theorem brkDifference_bounds (sz addr : Nat) :
    -2 ^ 31 ≤ brkDifference sz addr ∧ brkDifference sz addr < 2 ^ 31 := by
  unfold brkDifference toInt
  have := Int.bmod_def (((addr : Int) - sz) % 2 ^ 64) (2 ^ 32)
  omega

theorem brkDifference_self (sz : Nat) : brkDifference sz sz = 0 := by
  unfold brkDifference
  rw [Int.sub_self]
  rfl

theorem BrkStart.ne_zero (h : BrkStart p w l) :
    (w.procTable p).pagetable ≠ 0 ∧ (w.procTable p).kpagetable ≠ 0 := by
  have hroot : ∀ root ∈ [(w.procTable p).pagetable, (w.procTable p).kpagetable], root ≠ 0 := by
    rintro root hroot rfl
    exact h.tables.nonzero 0 hroot [] (Nat.zero_le 2) rfl
  exact ⟨hroot _ (List.mem_cons_self ..),
    hroot _ (List.mem_cons_of_mem _ (List.mem_singleton_self _))⟩

theorem onMem_ok {α : Type} {x : MemComp α} {a : α} {σ : MemState} (h : x w.mem = .ok a σ) :
    onMem x w = .ok a { w with mem := σ } := by
  unfold onMem
  rw [h]

theorem onMem_fault {α : Type} {x : MemComp α} {e : Fault} {σ : MemState}
    (h : x w.mem = .fault e σ) : onMem x w = .fault e { w with mem := σ } := by
  unfold onMem
  rw [h]

/-- What `sys_brk` leaves is what `growproc` leaves, and the result is the size. -/
theorem sysBrk_ok (haddr : addr ≠ 0) {r : Int} {v : PageWorld}
    (hrun : PageWorld.growproc p (brkDifference (w.procTable p).sz addr) w = .ok r v) :
    sysBrk p addr w = .ok (v.procTable p).sz v := by
  unfold sysBrk
  rw [read_bind, if_neg haddr, bind_ok hrun]
  rfl

theorem brkMeets_ok (haddr : addr ≠ 0) {r : Int} {v : PageWorld}
    (hrun : PageWorld.growproc p (brkDifference (w.procTable p).sz addr) w = .ok r v) :
    BrkMeets p addr w ↔ BrkLeaves p addr w (v.procTable p).sz v := by
  rw [BrkMeets, sysBrk_ok haddr hrun, Res.holds_ok]

theorem not_brkMeets_fault (haddr : addr ≠ 0) {e : Fault} {v : PageWorld}
    (hrun : PageWorld.growproc p (brkDifference (w.procTable p).sz addr) w = .fault e v) :
    ¬ BrkMeets p addr w := by
  have hbrk : sysBrk p addr w = .fault e v := by
    unfold sysBrk
    rw [read_bind, if_neg haddr, bind_fault hrun]
  rw [BrkMeets, hbrk]
  exact id

/-- `growproc` of a process with a user space. -/
theorem BrkStart.growproc (h : BrkStart p w l) (n : Int) :
    PageWorld.growproc p n w =
      (if 0 < n then
        onMem (uvmalloc (w.procTable p).pagetable (w.procTable p).kpagetable (w.procTable p).sz
          (((w.procTable p).sz + n) % 2 ^ 32).toNat) >>= fun r =>
            if r % 2 ^ 32 = 0 then pure (-1) else
              setPageProc p (fun q => { q with sz := r % 2 ^ 32 }) >>= fun _ => pure 0
      else if n < 0 then
        onMem (uvmDealloc (w.procTable p).pagetable (w.procTable p).kpagetable (w.procTable p).sz
          (((w.procTable p).sz + n) % 2 ^ 32).toNat) >>= fun r =>
            setPageProc p (fun q => { q with sz := r % 2 ^ 32 }) >>= fun _ => pure 0
      else setPageProc p (fun q => { q with sz := (w.procTable p).sz }) >>= fun _ => pure 0) w := by
  have hmax : maxuva = 0x80000000 := rfl
  have hsmall := h.small
  have hsz : (w.procTable p).sz % 2 ^ 32 = (w.procTable p).sz := Nat.mod_eq_of_lt (by omega)
  obtain ⟨hpt, hkpt⟩ := h.ne_zero
  unfold PageWorld.growproc
  rw [read_bind]
  simp only [uvmallocAt_eq hpt hkpt, uvmDeallocAt_eq hpt hkpt, hsz]

/-- The process with another size. -/
def PageWorld.withSize (w : PageWorld) (p sz : Nat) : PageWorld :=
  w.withProc p fun q => { q with sz := sz }

theorem withSize_proc (w : PageWorld) (p sz : Nat) :
    (w.withSize p sz).procTable p = { w.procTable p with sz := sz } := Function.update_self _ _ _

/-- The size stays as it is. -/
theorem BrkStart.stays (h : BrkStart p w l) {v : PageWorld} (hproc : v.procTable p = w.procTable p)
    (hmem : (w.procTable p).sz = addr → v.mem = w.mem) :
    BrkLeaves p addr w (v.procTable p).sz v := by
  refine ⟨.inr (by rw [hproc]), rfl, fun hsz => ?_, fun _ => by rw [hproc]⟩
  rw [hproc] at hsz ⊢
  rw [hmem hsz, ← hsz]
  exact h.space

/-- The difference is `0`. -/
theorem BrkStart.same (h : BrkStart p w l) (haddr : addr ≠ 0)
    (hzero : brkDifference (w.procTable p).sz addr = 0) : BrkMeets p addr w := by
  have hrun : PageWorld.growproc p (brkDifference (w.procTable p).sz addr) w =
      .ok 0 (w.withSize p (w.procTable p).sz) := by
    rw [h.growproc, hzero]
    rfl
  rw [brkMeets_ok haddr hrun]
  exact h.stays (withSize_proc w p _) fun _ => rfl

/-- The process is to grow. -/
theorem BrkStart.grow_iff (h : BrkStart p w l) (haddr : addr ≠ 0)
    (hpos : 0 < brkDifference (w.procTable p).sz addr) : BrkMeets p addr w ↔
      GrowthFails w.mem.mem (w.procTable p).pagetable (pgrounddown (w.procTable p).sz) l := by
  have hmax : maxuva = 0x80000000 := rfl
  have hsmall := h.small
  obtain ⟨-, hbound⟩ := brkDifference_bounds (w.procTable p).sz addr
  have hne : (w.procTable p).sz ≠ addr := by
    rintro rfl
    rw [brkDifference_self] at hpos
    exact absurd hpos (by decide)
  have hdown := pgrounddown_eq (a := (w.procTable p).sz) (by omega)
  have hsize : ((((w.procTable p).sz + brkDifference (w.procTable p).sz addr) % 2 ^ 32).toNat :
      Int) = (w.procTable p).sz + brkDifference (w.procTable p).sz addr := by omega
  have hgrow := h.growproc (brkDifference (w.procTable p).sz addr)
  rw [if_pos hpos] at hgrow
  generalize hnew : (((w.procTable p).sz + brkDifference (w.procTable p).sz addr) % 2 ^ 32).toNat =
    newsize at hsize hgrow
  have hstart : uvmalloc (w.procTable p).pagetable (w.procTable p).kpagetable (w.procTable p).sz
      newsize = loop (uvmallocRound (w.procTable p).pagetable (w.procTable p).kpagetable
        (pgrounddown (w.procTable p).sz) newsize) pageRounds (pgrounddown (w.procTable p).sz) := by
    rw [uvmalloc, if_neg (by omega)]
  by_cases hfails : GrowthFails w.mem.mem (w.procTable p).pagetable
      (pgrounddown (w.procTable p).sz) l
  · obtain ⟨σ', hloop⟩ := uvmalloc_fails h.tables h.tree (by omega) (by omega)
      (by omega : pgrounddown (w.procTable p).sz < newsize) hfails
    have hrun : PageWorld.growproc p (brkDifference (w.procTable p).sz addr) w =
        .ok (-1) { w with mem := σ' } := by
      rw [hgrow, bind_ok (onMem_ok (hstart ▸ hloop))]
      rfl
    rw [brkMeets_ok haddr hrun]
    exact iff_of_true (h.stays rfl fun heq => absurd heq hne) hfails
  · have hgrows := uvmalloc_grows h.tables h.tree (by omega) (by omega)
      (by omega : pgrounddown (w.procTable p).sz < newsize) (by omega) h.kernel hfails
    rw [← hstart] at hgrows
    refine iff_of_false ?_ hfails
    cases hloop : uvmalloc (w.procTable p).pagetable (w.procTable p).kpagetable (w.procTable p).sz
        newsize w.mem with
    | fault e σ' =>
      have hrun : PageWorld.growproc p (brkDifference (w.procTable p).sz addr) w =
          .fault e { w with mem := σ' } := by
        rw [hgrow, bind_fault (onMem_fault hloop)]
      exact not_brkMeets_fault haddr hrun
    | ok r σ' =>
      rw [hloop] at hgrows
      obtain ⟨rfl, hkernel, hpte⟩ := hgrows
      have hrun : PageWorld.growproc p (brkDifference (w.procTable p).sz addr) w =
          .ok 0 (PageWorld.withSize { w with mem := σ' } p r) := by
        have hr : r % 2 ^ 32 = r := Nat.mod_eq_of_lt (by omega)
        rw [hgrow, bind_ok (onMem_ok hloop), hr, if_neg (by omega)]
        rfl
      rw [brkMeets_ok haddr hrun]
      rintro ⟨hleft, -, hmapped, -⟩
      rw [withSize_proc] at hleft hmapped
      obtain hleft | hleft := hleft
      · exact not_userSpace_swapped hkernel (by omega) hpte addr (hmapped hleft)
      · dsimp only at hleft
        omega

/-- The pages of a size are those of its last page. -/
theorem userSpace_congr {pt kpt size size' : Nat} {σ : MemState}
    (h : pgroundup size = pgroundup size') :
    UserSpace pt kpt size σ ↔ UserSpace pt kpt size' σ := by
  unfold UserSpace
  rw [h]

/-- Within the last page. -/
theorem BrkStart.samePage_iff (h : BrkStart p w l) {newsize : Nat}
    (hlt : newsize < (w.procTable p).sz)
    (hpages : pgrounddown (w.procTable p).sz ≤ pgrounddown newsize) :
    BrkLeaves p addr w newsize (w.withSize p newsize) ↔ newsize = addr ∧ addr % pgsize ≠ 0 := by
  have hmax : maxuva = 0x80000000 := rfl
  have hpgsize : pgsize = 4096 := rfl
  have hsmall := h.small
  have h1 := pgrounddown_eq (a := (w.procTable p).sz) (by omega)
  have h2 := pgrounddown_eq (a := newsize) (by omega)
  have h3 : pgroundup (w.procTable p).sz = _ := pgroundup_eq (by omega)
  have h4 : pgroundup newsize = _ := pgroundup_eq (by omega)
  constructor
  · rintro ⟨hleft, -, hmapped, -⟩
    rw [withSize_proc] at hleft hmapped
    dsimp only at hleft hmapped
    obtain rfl : newsize = addr := hleft.resolve_right (Nat.ne_of_lt hlt)
    refine ⟨rfl, fun hal => ?_⟩
    rw [hpgsize] at hal
    -- the page at `addr` is mapped, but is not to be
    obtain ⟨frame, flags, hold, -⟩ := h.space
    obtain ⟨frame', flags', hnew, -⟩ := hmapped rfl
    have hboth := (hold newsize (by omega)).symm.trans (hnew newsize (by omega))
    rw [if_pos (by omega), if_neg (by omega)] at hboth
    cases hboth
  · rintro ⟨rfl, hal⟩
    rw [hpgsize] at hal
    refine ⟨.inl ?_, ?_, fun _ => ?_, fun hgrow => absurd hgrow (Nat.not_lt.mpr hlt.le)⟩
    · rw [withSize_proc]
    · rw [withSize_proc]
    · rw [withSize_proc]
      exact (userSpace_congr (by omega)).mpr h.space

theorem BrkStart.growproc_samePage (h : BrkStart p w l) {newsize : Nat} {n : Int}
    (hsize : (newsize : Int) = (w.procTable p).sz + n) (hneg : n < 0)
    (hpages : pgrounddown (w.procTable p).sz ≤ pgrounddown newsize) :
    PageWorld.growproc p n w = .ok 0 (w.withSize p newsize) := by
  have hmax : maxuva = 0x80000000 := rfl
  have hsmall := h.small
  have hlt : newsize < (w.procTable p).sz := by omega
  have hnew : (((w.procTable p).sz + n) % 2 ^ 32).toNat = newsize := by omega
  have hsz : newsize % 2 ^ 32 = newsize := Nat.mod_eq_of_lt (by omega)
  rw [h.growproc, if_neg (by omega), if_pos hneg, hnew,
    bind_ok (onMem_ok (uvmDealloc_samePage hlt hpages)), hsz]
  rfl

/-- The process is to shrink. -/
theorem BrkStart.shrink_iff (h : BrkStart p w l) (haddr : addr ≠ 0)
    (hneg : brkDifference (w.procTable p).sz addr < 0) : BrkMeets p addr w ↔
      (w.procTable p).sz + brkDifference (w.procTable p).sz addr < 0 ∨
        (w.procTable p).sz + brkDifference (w.procTable p).sz addr = addr ∧
          pgrounddown (w.procTable p).sz ≤ pgrounddown addr ∧ addr % pgsize ≠ 0 := by
  have hmax : maxuva = 0x80000000 := rfl
  have hsmall := h.small
  have hpos : 0 < w.mem.kernelEnd := Nat.lt_of_lt_of_le (by decide) h.kernel
  obtain ⟨hbound, -⟩ := brkDifference_bounds (w.procTable p).sz addr
  have hshrink := h.growproc (brkDifference (w.procTable p).sz addr)
  rw [if_neg (by omega), if_pos hneg] at hshrink
  generalize hnew : (((w.procTable p).sz + brkDifference (w.procTable p).sz addr) % 2 ^ 32).toNat =
    newsize at hshrink
  by_cases hwraps : (w.procTable p).sz + brkDifference (w.procTable p).sz addr < 0
  · -- the new size is a large `uint`
    have hrun : PageWorld.growproc p (brkDifference (w.procTable p).sz addr) w =
        .ok 0 (w.withSize p (w.procTable p).sz) := by
      have hsz : (w.procTable p).sz % 2 ^ 32 = (w.procTable p).sz := Nat.mod_eq_of_lt (by omega)
      rw [hshrink, bind_ok (onMem_ok (uvmDealloc_le (by omega))), hsz]
      rfl
    rw [brkMeets_ok haddr hrun]
    exact iff_of_true (h.stays (withSize_proc w p _) fun _ => rfl) (.inl hwraps)
  have hsize : (newsize : Int) = (w.procTable p).sz + brkDifference (w.procTable p).sz addr := by
    omega
  have hlt : newsize < (w.procTable p).sz := by omega
  by_cases hpages : pgrounddown (w.procTable p).sz ≤ pgrounddown newsize
  · have hrun := h.growproc_samePage hsize hneg hpages
    have hproc : ((w.withSize p newsize).procTable p).sz = newsize := by rw [withSize_proc]
    rw [brkMeets_ok haddr hrun, hproc, h.samePage_iff hlt hpages]
    constructor
    · rintro ⟨rfl, hal⟩
      exact .inr ⟨hsize.symm, hpages, hal⟩
    · rintro (hneg' | ⟨heq, -, hal⟩)
      · exact absurd hneg' hwraps
      · exact ⟨by omega, hal⟩
  · obtain ⟨e, σ', hfault⟩ : ∃ e σ', uvmDealloc (w.procTable p).pagetable
        (w.procTable p).kpagetable (w.procTable p).sz newsize w.mem = .fault e σ' :=
      uvmDealloc_faults hpos (Nat.not_le.mp hpages) hlt (by omega)
    have hrun : PageWorld.growproc p (brkDifference (w.procTable p).sz addr) w =
        .fault e { w with mem := σ' } := by
      rw [hshrink, bind_fault (onMem_fault hfault)]
    refine iff_of_false (not_brkMeets_fault haddr hrun) ?_
    rintro (hneg' | ⟨heq, hsame, -⟩)
    · exact hwraps hneg'
    · obtain rfl : newsize = addr := by omega
      exact hpages hsame

/-- The call does what it is to do if and only if it need not map or unmap a page, or has none to
map. -/
theorem brk_meets_iff (h : BrkStart p w l) (haddr : addr ≠ 0) :
    BrkMeets p addr w ↔ BrkFits p addr w l := by
  unfold BrkFits
  obtain hneg | hzero | hpos := Int.lt_trichotomy (brkDifference (w.procTable p).sz addr) 0
  · rw [h.shrink_iff haddr hneg]
    exact ⟨fun hshrink => ⟨fun hpos => absurd hpos (by omega), fun _ => hshrink⟩,
      fun hfits => hfits.2 hneg⟩
  · refine iff_of_true (h.same haddr hzero) ⟨fun hpos => ?_, fun hneg => ?_⟩
    · exact absurd hpos (by omega)
    · exact absurd hneg (by omega)
  · rw [h.grow_iff haddr hpos]
    exact ⟨fun hgrow => ⟨fun _ => hgrow, fun hneg => absurd hneg (by omega)⟩,
      fun hfits => hfits.1 hpos⟩

end

/-! ## A process of one page -/

/-- `forkMachine` with a kernel table for the page. -/
def brkMachine : MemState :=
  { forkMachine with
    mem := onePath forkMachine.mem 0x80400 0x80401 0x80402
      (page2pte 0x80303000 ||| (pteW ||| pteX ||| pteR ||| pteV)) }

def brkWorld : PageWorld :=
  ⟨brkMachine, fun _ => ⟨.running, 0x80304000, 0x80300000, 0x80400000, 100⟩, 0x80200000⟩

theorem brkMachine_zero :
    ∀ pn ∈ [0x80400, 0x80401, 0x80402], ∀ i, slots forkMachine.mem pn i = 0 := by
  intro pn hpn i
  simp only [List.mem_cons, List.not_mem_nil, or_false] at hpn
  rw [forkMachine_slots i (by omega) (by omega) (by omega)]
  exact smallMachine_zero i (by omega)

theorem brkMachine_kernel : OnePath brkMachine.mem 0x80400 0x80401 0x80402 0 0 :=
  onePath_path (by decide) (by decide) (by decide)
    (by decide : page2pte 0x80303000 ||| (pteW ||| pteX ||| pteR ||| pteV) < 2 ^ 64)
    brkMachine_zero

theorem brkMachine_slots {pn : Nat} (h : pn ∉ [0x80400, 0x80401, 0x80402]) (i : Fin 512) :
    slots brkMachine.mem pn i = slots forkMachine.mem pn i :=
  onePath_other (by decide) (by decide)
    (by decide : page2pte 0x80303000 ||| (pteW ||| pteX ||| pteR ||| pteV) < 2 ^ 64) h i

theorem brkMachine_user : OnePath brkMachine.mem 0x80300 0x80301 0x80302 0 0 := by
  refine ⟨by decide, by decide, fun i => ?_, fun i => ?_⟩
  · rw [brkMachine_slots (by decide), forkMachine_path.root]
  · rw [brkMachine_slots (by decide), forkMachine_path.middle]

theorem brkMachine_free : FreeList brkMachine [0x80500000, 0x80501000, 0x80502000] := by
  refine forkMachine_free.congr _ fun q hq => ?_
  simp only [List.mem_cons, List.not_mem_nil, or_false] at hq
  unfold onePath
  rw [readWord_writeWord_of_disjoint _ _ _ _ (by omega),
    readWord_writeWord_of_disjoint _ _ _ _ (by omega),
    readWord_writeWord_of_disjoint _ _ _ _ (by omega)]

/-- The tables of both roots are in a row. -/
theorem brkMachine_reach {root : Nat} (hroot : root ∈ [0x80300000, 0x80400000])
    {is : List (Fin 512)} (his : is.length ≤ 2) {pn : Nat}
    (h : Radix.reach child (slots brkMachine.mem) (root / 4096) is = some pn) :
    root / 4096 + is.length = pn := by
  simp only [List.mem_cons, List.not_mem_nil, or_false] at hroot
  obtain rfl | rfl := hroot
  · obtain ⟨rfl, rfl⟩ | ⟨rfl, rfl⟩ | ⟨rfl, rfl⟩ := (brkMachine_user.reach_iff his pn).mp h <;> rfl
  · obtain ⟨rfl, rfl⟩ | ⟨rfl, rfl⟩ | ⟨rfl, rfl⟩ := (brkMachine_kernel.reach_iff his pn).mp h <;> rfl

theorem brkMachine_tables : Tables [0x80300000, 0x80400000] brkMachine
    [0x80500000, 0x80501000, 0x80502000] := by
  refine ⟨by decide, brkMachine_free, fun root hroot q hq is his hreach => ?_,
    fun root hroot is his hreach => ?_, ?_⟩
  · have hpn := brkMachine_reach hroot his hreach
    simp only [List.mem_cons, List.not_mem_nil, or_false] at hroot hq
    omega
  · have hpn := brkMachine_reach hroot his hreach
    simp only [List.mem_cons, List.not_mem_nil, or_false] at hroot
    omega
  · rintro _ ⟨r1, h1, rfl⟩ _ ⟨r2, h2, rfl⟩ is js pn his hjs hr1 hr2
    have hpn1 := brkMachine_reach h1 his hr1
    have hpn2 := brkMachine_reach h2 hjs hr2
    simp only [List.mem_cons, List.not_mem_nil, or_false] at h1 h2
    omega

theorem brkMachine_pteOf (va : Nat) :
    pteOf brkMachine.mem 0x80300000 va = pteOf forkMachine.mem 0x80300000 va := by
  have hsame : TableSame forkMachine.mem brkMachine.mem 0x80300000 := by
    intro is pn his hreach i
    have hpn := (forkMachine_path.reach_iff his pn).mp hreach
    exact brkMachine_slots (by simp only [List.mem_cons, List.not_mem_nil, or_false]; omega) i
  exact hsame.pteOf va

theorem brkMachine_space : UserSpace 0x80300000 0x80400000 100 brkMachine := by
  have hup : pgroundup 100 = 4096 := by decide
  have hmax : maxuva = 0x80000000 := rfl
  have hmanaged : Managed brkMachine.kernelEnd 0x80303000 := by
    refine ⟨by decide, ?_, by decide⟩
    show smallMachine.kernelEnd ≤ _
    rw [smallMachine, withFree_kernelEnd]
    decide
  refine ⟨fun _ => 0x80303000, fun _ => pteW ||| pteX ||| pteR ||| pteU ||| pteV,
    fun va hva => ?_, fun va hva => ?_, fun _ _ => hmanaged, fun va _ vb _ _ => by omega⟩
  · rw [hup, translate, brkMachine_pteOf, forkMachine_pteOf (by omega)]
    by_cases hpage : va < 4096
    · rw [if_pos hpage, if_pos hpage, if_pos (by decide)]
      dsimp only
      exact congrArg some (by decide)
    · rw [if_neg hpage, if_neg hpage]
      rfl
  · have hpte : pteOf brkMachine.mem 0x80400000 va = if va < 4096 then
        page2pte 0x80303000 ||| (pteW ||| pteX ||| pteR ||| pteV) else 0 :=
      onePath_pteOf (by decide) (by decide) (by decide) (by decide) brkMachine_zero (by omega)
    rw [hup, translate, hpte]
    by_cases hpage : va < 4096
    · rw [if_pos hpage, if_pos hpage, if_pos (by decide)]
      dsimp only
      exact congrArg some (by decide)
    · rw [if_neg hpage, if_neg hpage]
      rfl

theorem brkWorld_start (p : Nat) :
    BrkStart p brkWorld [0x80500000, 0x80501000, 0x80502000] := by
  have hsmall : 100 < maxuva := by decide
  refine ⟨brkMachine_tables, brkMachine_user.pageTable, ?_, brkMachine_space, hsmall⟩
  show kernbase ≤ smallMachine.kernelEnd
  rw [smallMachine, withFree_kernelEnd]

/-- One byte less. -/
theorem brk_meets_one_byte : BrkMeets 0 99 brkWorld := by
  have hone : brkDifference 100 99 = -1 := by decide
  refine (brk_meets_iff (brkWorld_start 0) (by decide)).mpr ⟨fun hpos => ?_, fun _ => ?_⟩
  · exact absurd hpos (by decide)
  · exact .inr ⟨by decide, by decide, by decide⟩

/-- An address `2 ^ 32 - 3` bytes above the end of the process makes it three bytes smaller. -/
theorem brk_shrinks : sysBrk 0 (2 ^ 32 + 97) brkWorld = .ok 97 (brkWorld.withSize 0 97) ∧
    ¬ BrkMeets 0 (2 ^ 32 + 97) brkWorld := by
  have hrun : PageWorld.growproc 0 (brkDifference (brkWorld.procTable 0).sz (2 ^ 32 + 97))
      brkWorld = .ok 0 (brkWorld.withSize 0 97) := by
    have hdiff : brkDifference (brkWorld.procTable 0).sz (2 ^ 32 + 97) = -3 := by decide
    have hsize : ((97 : Nat) : Int) = (brkWorld.procTable 0).sz + -3 := by decide
    rw [hdiff]
    exact (brkWorld_start 0).growproc_samePage hsize (by decide) (by decide)
  refine ⟨sysBrk_ok (by decide) hrun, ?_⟩
  rw [brkMeets_ok (by decide) hrun]
  rintro ⟨hsize, -⟩
  exact absurd hsize (by decide)

end PageFaultOS
