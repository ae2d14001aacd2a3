import Mathlib.Tactic
import PageFaultOS.Lib.Run
import PageFaultOS.Fs.FileRefs

/-! Where `sys_mmap` puts the mappings of a process, over any sequence of calls of `sys_mmap` and
`sys_munmap` by any processes. -/

namespace PageFaultOS
open Exec Exec.Comp

/-- The mapping has the page of number `k`. -/
def Mapping.Page (v : Mapping) (k : Int) : Prop :=
  (v.addr : Int) ≤ k * pgsize ∧ k * pgsize < v.addr + v.length

structure Mapping.Placed (v : Mapping) (sz : Nat) : Prop where
  aligned : v.addr % pgsize = 0
  above : sz ≤ v.addr
  below : v.addr + v.length ≤ trapframe

/-- Slot `i` of process `p` has the mapping `a`. -/
def Files.Live (w : Files) (p i a : Nat) : Prop :=
  i < NOMMAPFILE ∧ (w.procTable p).vma i = some a

/-- `sz p` is `p->sz`. -/
structure Files.Separated (w : Files) (sz : Nat → Nat) : Prop where
  placed : ∀ p i a, w.Live p i a → (w.vma a).Placed (sz p)
  disjoint : ∀ p i j a b, w.Live p i a → w.Live p j b → i ≠ j →
    ∀ k, (w.vma a).Page k → ¬ (w.vma b).Page k

inductive MapAction where
  | mmap (p : Nat) (length : Int32) (prot flags fd : Int)
  | munmap (p addr : Nat) (sz : Int32) (r : Int) (unmapped : Bool)

def MapAction.Valid : MapAction → Prop
  | .mmap _ length _ _ _ => 1 ≤ length.toInt
  | .munmap .. => True

instance : (a : MapAction) → Decidable a.Valid
  | .mmap .. => inferInstanceAs (Decidable (_ ≤ _))
  | .munmap .. => inferInstanceAs (Decidable True)

def MapAction.call : MapAction → FilesComp Int
  | .mmap p length prot flags fd => sysMmap p length.toInt prot flags fd
  | .munmap p addr sz r unmapped => sysMunmap p addr sz.toInt r unmapped

/-- A call that panics is the last one. -/
def mapStep (w : Files) (a : MapAction) : Option Files :=
  if a.Valid then
    match a.call w with
    | .ok _ w' => some w'
    | .fault _ _ => none
  else none

/-- No process has a mapping. -/
structure MapStart (w : Files) : Prop where
  free : ∀ a < NVMA, (w.vma a).f = none
  unused : ∀ p i, ¬ ∃ a, w.Live p i a

/-- The descriptor is for no open file. -/
def Files.NoFile (w : Files) (p : Nat) (fd : Int) : Prop :=
  fd < 0 ∨ (NOFILE : Int) ≤ fd ∨ (w.procTable p).ofile fd.toNat = none

/-- There is no slot left, in `vma` or in the process. -/
def Files.NoSlot (w : Files) (p : Nat) : Prop :=
  (∀ a < NVMA, (w.vma a).f ≠ none) ∨ ∀ i < NOMMAPFILE, (w.procTable p).vma i ≠ none

/-- The end of the mappings, `PGSIZE * 5` below `MAXVA`. -/
def mapTop : Int := maxva - pgsize * 5

/-- The pages for `n` bytes end to end, in bytes. -/
def pageBytes (n : Int) : Int := (n + 4095) / 4096 * 4096

/-- The next mapping, of `length` bytes at `mapTop - pageBytes (vmasz + length)`, is above
`p->sz` and below `TRAPFRAME`, and no mapping of the process has a page there. -/
structure Files.Fits (w : Files) (sz p : Nat) (length : Int) : Prop where
  left : ∃ a < NVMA, (w.vma a).f = none
  int : -2 ^ 31 ≤ vmasz w p ∧ vmasz w p < 2 ^ 31
  above : sz ≤ mapTop - pageBytes (vmasz w p + length)
  below : mapTop - pageBytes (vmasz w p + length) + length ≤ trapframe
  clear : ∀ i a, w.Live p i a → ∀ k, (w.vma a).Page k →
    ¬ (mapTop - pageBytes (vmasz w p + length) ≤ k * pgsize ∧
      k * pgsize < mapTop - pageBytes (vmasz w p + length) + length)

/-- What `sys_munmap` leaves of the mapping does not grow into another one. A size that is not
negative makes it shorter. -/
def Files.ShrinksAt (w : Files) (p addr : Nat) (sz : Int) : Prop :=
  0 ≤ sz ∨ ∀ i a, findVma w p addr = some (i, a) →
    (w.vma a).addr + Int.bmod ((w.vma a).length - sz) (2 ^ 32) ≤ trapframe ∧
    ∀ j b, w.Live p j b → j ≠ i → ∀ k, (w.vma b).Page k →
      ¬ ((w.vma a).addr ≤ k * pgsize ∧
        k * pgsize < (w.vma a).addr + Int.bmod ((w.vma a).length - sz) (2 ^ 32))

def MapSafe (sz : Nat → Nat) (w : Files) : MapAction → Prop
  | .mmap p length _ _ fd => w.NoFile p fd ∨ w.Fits (sz p) p length.toInt
  | .munmap p addr n _ _ => w.ShrinksAt p addr n.toInt

/-! ## What the calls do -/

section Calls
variable {w w' : Files} {p : Nat}

theorem argfd_run (w : Files) (p : Nat) (fd : Int) : ∃ x, argfd p fd w = .ok x w ∧
    (x = none ↔ w.NoFile p fd) := by
  unfold argfd Files.NoFile
  rw [read_bind]
  split
  case isTrue h => exact ⟨none, rfl, by tauto⟩
  case isFalse h => exact ⟨_, rfl, by tauto⟩

/-- The sum of the lengths depends on the mappings of the process only. -/
theorem vmasz_congr (hslot : (w'.procTable p).vma = (w.procTable p).vma)
    (hlen : ∀ i a, w.Live p i a → (w'.vma a).length = (w.vma a).length) :
    vmasz w' p = vmasz w p := by
  unfold vmasz
  congr 1
  apply List.map_congr_left
  intro i hi
  rw [hslot]
  cases ha : (w.procTable p).vma i with
  | none => rfl
  | some a => exact hlen i a ⟨List.mem_range.mp hi, ha⟩

/-- `sys_mmap` has no file, or takes an entry of `vma`; where the process has a slot the mapping
goes there. -/
theorem sysMmap_cases (hused : ∀ i a, w.Live p i a → (w.vma a).f ≠ none)
    {length prot flags fd r : Int} (hrun : sysMmap p length prot flags fd w = .ok r w') :
    (w.NoFile p fd ∧ r = -1 ∧ w' = w) ∨
    ∃ f a addr, ¬ w.NoFile p fd ∧ a < NVMA ∧ (w.vma a).f = none ∧
      addr = pgrounddown (toUint64 (maxva - pgsize * 5 - vmasz w p - length)) ∧ r = addr ∧
      w'.vma = Function.update w.vma a ⟨addr, length, prot, flags, some f⟩ ∧
      (w'.fileTable f).position = 0 ∧
      ((∃ i < NOMMAPFILE, (w.procTable p).vma i = none ∧
          ∀ q, (w'.procTable q).vma = if q = p then
            Function.update (w.procTable p).vma i (some a) else (w.procTable q).vma) ∨
        ∀ i < NOMMAPFILE, (w.procTable p).vma i ≠ none) := by
  obtain ⟨x, hget, hx⟩ := argfd_run w p fd
  unfold sysMmap at hrun
  rw [bind_ok hget] at hrun
  cases x with
  | none =>
    cases hrun
    exact .inl ⟨hx.mp rfl, rfl, rfl⟩
  | some f =>
    obtain ⟨a, v, halloc, hrest⟩ := bind_eq_ok.mp hrun
    obtain ⟨rfl, ha⟩ := allocVma_eq halloc
    obtain ⟨g, y, hdup, hrest⟩ := bind_eq_ok.mp hrest
    obtain ⟨heq, _, rfl⟩ := vfsdup_eq hdup
    cases heq
    simp only [setFile, modify_bind] at hrest
    cases a with
    | none => cases hrest
    | some a =>
      obtain ⟨halt, hfree⟩ := ha a rfl
      simp only [setVma, modify_bind, read_bind] at hrest
      have hsum : ∀ u : Files, u.procTable = v.procTable →
          u.vma = (v.withVma a fun m => { m with f := some f, length := length }).vma →
          vmasz u p = vmasz v p := by
        intro u hproc hvma
        refine vmasz_congr (by rw [hproc]) fun i b hb => ?_
        have hne : b ≠ a := by
          rintro rfl
          exact hused i b hb hfree
        rw [hvma, withVma_apply, if_neg hne]
      generalize hm : vmasz _ p = m at hrest
      rw [hm.symm.trans (hsum _ rfl rfl)] at hrest
      refine .inr ⟨f, a, _, fun h => absurd (hx.mpr h) (by simp), halt, hfree, rfl, ?_⟩
      have hvma : ∀ addr, ((v.withVma a fun m => { m with f := some f, length := length }).withVma a
          fun m => { m with addr := addr, prot := prot, flag := flags }).vma =
          Function.update v.vma a ⟨addr, length, prot, flags, some f⟩ := by
        intro addr
        simp [Files.withVma]
      generalize hslot : List.find? _ (List.range NOMMAPFILE) = slot at hrest
      cases slot with
      | none =>
        have hall : ∀ i < NOMMAPFILE, (v.procTable p).vma i ≠ none := by
          intro i hi hnone
          exact List.find?_eq_none.mp hslot i (List.mem_range.mpr hi) (decide_eq_true hnone)
        cases hrest
        exact ⟨rfl, hvma _, by simp [Files.withVma, Files.withFile], .inr hall⟩
      | some i =>
        have hi : i < NOMMAPFILE := List.mem_range.mp (List.mem_of_find?_eq_some hslot)
        have hsome := List.find?_some hslot
        have hnone : (v.procTable p).vma i = none := of_decide_eq_true hsome
        cases hrest
        refine ⟨rfl, hvma _, by simp [Files.withVma, Files.withFile, Files.withProc],
          .inl ⟨i, hi, hnone, fun q => ?_⟩⟩
        rw [withProc_apply]
        split
        · rfl
        · rfl

theorem vfsrewind_frame {x : Option Nat} (hrun : vfsrewind x w = .ok () w') :
    w'.vma = w.vma ∧ w'.procTable = w.procTable := by
  cases x with
  | none => cases hrun
  | some i =>
    simp only [vfsrewind, read_bind] at hrun
    split at hrun
    · cases hrun
    · cases hrun
      exact ⟨rfl, rfl⟩

theorem vfswrite_frame {x : Option Nat} {r : Int} (hrun : vfswrite x r w = .ok () w') :
    w'.vma = w.vma ∧ w'.procTable = w.procTable := by
  cases x with
  | none =>
    cases hrun
    exact ⟨rfl, rfl⟩
  | some i =>
    simp only [vfswrite, read_bind] at hrun
    split at hrun
    · cases htype : (w.fileTable i).type with
      | none =>
        rw [htype] at hrun
        cases hrun
      | entry | pipe | device =>
        rw [htype] at hrun
        cases hrun
        exact ⟨rfl, rfl⟩
    · cases hrun
      exact ⟨rfl, rfl⟩

/-- What is written back touches no mapping. -/
theorem unmapVma_frame {a : Nat} {r : Int} {unmapped : Bool}
    (hrun : unmapVma a r unmapped w = .ok () w') :
    w'.vma = w.vma ∧ w'.procTable = w.procTable := by
  have hunmap : ∀ {u : Files}, (if unmapped then pure () else Comp.panic "vmunmap") u =
      (Res.ok () w' : Res Files Unit) → w' = u := by
    intro u h
    cases unmapped with
    | true =>
      cases h
      rfl
    | false => cases h
  unfold unmapVma at hrun
  rw [read_bind] at hrun
  split at hrun
  · obtain ⟨_, u, hrw, hrest⟩ := bind_eq_ok.mp hrun
    obtain ⟨_, v, hwr, hrest⟩ := bind_eq_ok.mp hrest
    obtain ⟨huv, hup⟩ := vfsrewind_frame hrw
    obtain ⟨hvv, hvp⟩ := vfswrite_frame hwr
    rw [hunmap hrest]
    exact ⟨hvv.trans huv, hvp.trans hup⟩
  · rw [hunmap hrun]
    exact ⟨rfl, rfl⟩

/-- `sys_munmap` finds no mapping, or changes the length of the one it finds, or frees it. -/
theorem sysMunmap_cases {addr : Nat} {sz r r' : Int} {unmapped : Bool}
    (hrun : sysMunmap p addr sz r unmapped w = .ok r' w') :
    w' = w ∨ ∃ i a, findVma w p addr = some (i, a) ∧
      ((w'.vma = Function.update w.vma a { w.vma a with
          length := Int.bmod ((w.vma a).length - sz) (2 ^ 32) } ∧
        ∀ q, (w'.procTable q).vma = (w.procTable q).vma) ∨
      (w'.vma = Function.update w.vma a Mapping.zero ∧
        ∀ q, (w'.procTable q).vma = if q = p then
          Function.update (w.procTable p).vma i none else (w.procTable q).vma)) := by
  simp only [sysMunmap, read_bind] at hrun
  cases hfind : findVma w p addr with
  | none =>
    rw [hfind] at hrun
    cases hrun
    exact .inl rfl
  | some x =>
    obtain ⟨i, a⟩ := x
    rw [hfind] at hrun
    obtain ⟨_, u, hunmap, hrest⟩ := bind_eq_ok.mp hrun
    obtain ⟨hvma, hproc⟩ := unmapVma_frame hunmap
    simp only [setVma, modify_bind, read_bind] at hrest
    refine .inr ⟨i, a, rfl, ?_⟩
    split at hrest
    · cases hrest
      refine .inr ⟨?_, fun q => ?_⟩
      · simp [Files.withVma, Files.withProc, hvma]
      · rw [withProc_apply]
        split
        · simp [Files.withVma, hproc]
        · simp [Files.withVma, hproc]
    · cases hrest
      refine .inl ⟨?_, fun q => ?_⟩
      · simp [Files.withVma, hvma]
      · simp [Files.withVma, hproc]

theorem findVma_live {addr i a : Nat} (h : findVma w p addr = some (i, a)) :
    w.Live p i a ∧ (w.vma a).addr ≤ addr ∧
      addr < toUint64 ((w.vma a).addr + (w.vma a).length) := by
  obtain ⟨j, hj, hfound⟩ := List.exists_of_findSome?_eq_some h
  have hlt : j < NOMMAPFILE := List.mem_range.mp hj
  cases hslot : (w.procTable p).vma j with
  | none =>
    rw [hslot] at hfound
    cases hfound
  | some b =>
    rw [hslot] at hfound
    dsimp only at hfound
    split at hfound
    case isTrue hin =>
      cases hfound
      exact ⟨⟨hlt, hslot⟩, hin⟩
    case isFalse => cases hfound

end Calls

/-! ## The invariant -/

/-- An entry of `vma` is in one slot of one process. The addresses are so high that the lengths do
not reach the ends of the address space. -/
structure MapInv (sz : Nat → Nat) (w : Files) : Prop where
  separated : w.Separated sz
  used : ∀ p i a, w.Live p i a → a < NVMA ∧ (w.vma a).f ≠ none
  once : ∀ p q i j a, w.Live p i a → w.Live q j a → p = q ∧ i = j
  high : ∀ p i a, w.Live p i a → 2 ^ 37 ≤ (w.vma a).addr
  int : ∀ p i a, w.Live p i a → -2 ^ 31 ≤ (w.vma a).length ∧ (w.vma a).length < 2 ^ 31

section Invariant
variable {sz : Nat → Nat} {w w' : Files} {p : Nat}

theorem mapInv_start (h : MapStart w) : MapInv sz w := by
  have hnone : ∀ p i a, ¬ w.Live p i a := fun p i a ha => h.unused p i ⟨a, ha⟩
  exact ⟨⟨fun p i a ha => absurd ha (hnone p i a), fun p i j a b ha => absurd ha (hnone p i a)⟩,
    fun p i a ha => absurd ha (hnone p i a), fun p q i j a ha => absurd ha (hnone p i a),
    fun p i a ha => absurd ha (hnone p i a), fun p i a ha => absurd ha (hnone p i a)⟩

/-- One mapping is new or changed, in a slot of `p`, or taken out of it. -/
theorem MapInv.put (hI : MapInv sz w) {i a : Nat}
    (hlive : ∀ q j b, w'.Live q j b → (q = p ∧ j = i ∧ b = a) ∨
      w.Live q j b ∧ b ≠ a ∧ w'.vma b = w.vma b)
    (hnew : w'.Live p i a → (a < NVMA ∧ (w'.vma a).f ≠ none) ∧ (w'.vma a).Placed (sz p) ∧
      2 ^ 37 ≤ (w'.vma a).addr ∧ (-2 ^ 31 ≤ (w'.vma a).length ∧ (w'.vma a).length < 2 ^ 31) ∧
      ∀ j b, w.Live p j b → b ≠ a → ∀ k, (w.vma b).Page k → ¬ (w'.vma a).Page k) :
    MapInv sz w' := by
  refine ⟨⟨fun q j b hb => ?_, fun q j l b c hb hc hne k hk hk' => ?_⟩, fun q j b hb => ?_,
    fun q r j l b hb hc => ?_, fun q j b hb => ?_, fun q j b hb => ?_⟩
  · obtain ⟨rfl, rfl, rfl⟩ | ⟨hb', -, heq⟩ := hlive q j b hb
    · exact (hnew hb).2.1
    · rw [heq]
      exact hI.separated.placed q j b hb'
  · obtain ⟨rfl, rfl, rfl⟩ | ⟨hb', hba, hbeq⟩ := hlive q j b hb
    · obtain ⟨-, rfl, -⟩ | ⟨hc', hcb, hceq⟩ := hlive q l c hc
      · exact hne rfl
      · rw [hceq] at hk'
        exact (hnew hb).2.2.2.2 l c hc' hcb k hk' hk
    · obtain ⟨rfl, rfl, rfl⟩ | ⟨hc', -, hceq⟩ := hlive q l c hc
      · rw [hbeq] at hk
        exact (hnew hc).2.2.2.2 j b hb' hba k hk hk'
      · rw [hbeq] at hk
        rw [hceq] at hk'
        exact hI.separated.disjoint q j l b c hb' hc' hne k hk hk'
  · obtain ⟨rfl, rfl, rfl⟩ | ⟨hb', -, heq⟩ := hlive q j b hb
    · exact (hnew hb).1
    · rw [heq]
      exact hI.used q j b hb'
  · obtain ⟨rfl, rfl, rfl⟩ | ⟨hb', hba, -⟩ := hlive q j b hb
    · obtain ⟨rfl, rfl, -⟩ | ⟨-, hcb, -⟩ := hlive r l b hc
      · exact ⟨rfl, rfl⟩
      · exact absurd rfl hcb
    · obtain ⟨-, -, rfl⟩ | ⟨hc', -, -⟩ := hlive r l b hc
      · exact absurd rfl hba
      · exact hI.once q r j l b hb' hc'
  · obtain ⟨rfl, rfl, rfl⟩ | ⟨hb', -, heq⟩ := hlive q j b hb
    · exact (hnew hb).2.2.1
    · rw [heq]
      exact hI.high q j b hb'
  · obtain ⟨rfl, rfl, rfl⟩ | ⟨hb', -, heq⟩ := hlive q j b hb
    · exact (hnew hb).2.2.2.1
    · rw [heq]
      exact hI.int q j b hb'

/-- A process has more slots than there are mappings. -/
theorem MapInv.slot_left (hI : MapInv sz w) (p : Nat) :
    ∃ i < NOMMAPFILE, (w.procTable p).vma i = none := by
  by_contra hall
  push Not at hall
  have hsome : ∀ i : Nat, i < NOMMAPFILE → ∃ a, (w.procTable p).vma i = some a :=
    fun i hi => Option.ne_none_iff_exists'.mp (hall i hi)
  choose! g hg using hsome
  have hmaps : ∀ i ∈ Finset.range NOMMAPFILE, g i ∈ Finset.range NVMA := by
    intro i hi
    have hlt := Finset.mem_range.mp hi
    exact Finset.mem_range.mpr (hI.used p i (g i) ⟨hlt, hg i hlt⟩).1
  have hinj : Set.InjOn g (Finset.range NOMMAPFILE) := by
    intro i hi j hj heq
    have hi' : i < NOMMAPFILE := by simpa using hi
    have hj' : j < NOMMAPFILE := by simpa using hj
    exact (hI.once p p i j (g i) ⟨hi', hg i hi'⟩ ⟨hj', by rw [heq]; exact hg j hj'⟩).2
  have hcard := Finset.card_le_card_of_injOn g hmaps hinj
  simp [NOMMAPFILE, NVMA] at hcard

/-- The address that `sys_mmap` computes, rounded down to a page. -/
theorem nextAddr_eq {n length : Int} (hn : -2 ^ 31 ≤ n ∧ n < 2 ^ 31)
    (hl : 1 ≤ length ∧ length < 2 ^ 31) :
    (pgrounddown (toUint64 (maxva - pgsize * 5 - n - length)) : Int) =
      mapTop - pageBytes (n + length) := by
  have htop : (maxva : Int) - pgsize * 5 = 2 ^ 38 - 20480 := by decide
  have hval : toUint64 (maxva - pgsize * 5 - n - length) =
      (2 ^ 38 - 20480 - n - length).toNat := by
    rw [htop, toUint64, Int.emod_eq_of_lt (by omega) (by omega)]
  rw [hval, pgrounddown_eq (by omega), mapTop, pageBytes, htop]
  omega

theorem mapTop_eq : mapTop = 2 ^ 38 - 20480 := by decide

theorem MapInv.mmap (hI : MapInv sz w) {length prot flags fd r : Int}
    (hl : 1 ≤ length ∧ length < 2 ^ 31) (hsafe : w.NoFile p fd ∨ w.Fits (sz p) p length)
    (hrun : sysMmap p length prot flags fd w = .ok r w') : MapInv sz w' := by
  obtain ⟨-, -, rfl⟩ | ⟨f, a, addr, hfile, ha, hfree, haddr, -, hvma, -, hslot⟩ :=
    sysMmap_cases (fun i a h => (hI.used p i a h).2) hrun
  · exact hI
  have hfits := hsafe.resolve_left hfile
  obtain ⟨i, hi, hnone, hproc⟩ | hfull := hslot
  swap
  · obtain ⟨i, hi, hnone⟩ := hI.slot_left p
    exact absurd hnone (hfull i hi)
  have hnext : (addr : Int) = mapTop - pageBytes (vmasz w p + length) := by
    rw [haddr]
    exact nextAddr_eq hfits.int hl
  have hself : w'.vma a = ⟨addr, length, prot, flags, some f⟩ := by
    rw [hvma, Function.update_self]
  have hbytes := hfits.int
  have htop := mapTop_eq
  refine hI.put (p := p) (i := i) (a := a) (fun q j b hb => ?_) fun _ => ?_
  · -- the entry that is taken was in no slot
    have hother : w.Live q j b → b ≠ a := by
      rintro hb' rfl
      exact (hI.used q j b hb').2 hfree
    obtain ⟨hj, hb⟩ := hb
    rw [hproc] at hb
    by_cases hq : q = p
    · subst hq
      rw [if_pos rfl] at hb
      by_cases hji : j = i
      · subst hji
        rw [Function.update_self] at hb
        cases hb
        exact .inl ⟨rfl, rfl, rfl⟩
      · rw [Function.update_of_ne hji] at hb
        have hba := hother ⟨hj, hb⟩
        exact .inr ⟨⟨hj, hb⟩, hba, by rw [hvma, Function.update_of_ne hba]⟩
    · rw [if_neg hq] at hb
      have hba := hother ⟨hj, hb⟩
      exact .inr ⟨⟨hj, hb⟩, hba, by rw [hvma, Function.update_of_ne hba]⟩
  · rw [hself]
    have habove := hfits.above
    have hbelow := hfits.below
    rw [← hnext] at habove hbelow
    have haligned : addr % pgsize = 0 := by
      have hmod : (addr : Int) % 4096 = 0 := by
        rw [hnext, pageBytes, htop]
        omega
      show addr % 4096 = 0
      omega
    have hhigh : 2 ^ 37 ≤ addr := by
      rw [pageBytes, htop] at hnext
      omega
    refine ⟨⟨ha, by simp⟩, ⟨haligned, by exact_mod_cast habove, hbelow⟩, hhigh,
      ⟨by show -2 ^ 31 ≤ length; omega, hl.2⟩, fun j b hb _ k hk hk' => hfits.clear j b hb k hk ?_⟩
    rw [← hnext]
    exact hk'

/-- A live mapping that `sys_munmap` finds is not empty. -/
theorem MapInv.found (hI : MapInv sz w) {addr i a : Nat} (h : findVma w p addr = some (i, a)) :
    w.Live p i a ∧ 0 < (w.vma a).length := by
  obtain ⟨hlive, hle, hlt⟩ := findVma_live h
  have hhigh := hI.high p i a hlive
  have hint := hI.int p i a hlive
  have hbelow := (hI.separated.placed p i a hlive).below
  have htrap : (trapframe : Int) < 2 ^ 38 := by decide
  have hend : toUint64 ((w.vma a).addr + (w.vma a).length) =
      ((w.vma a).addr + (w.vma a).length : Int).toNat := by
    rw [toUint64, Int.emod_eq_of_lt (by omega) (by omega)]
  rw [hend] at hlt
  exact ⟨hlive, by omega⟩

theorem MapInv.munmap (hI : MapInv sz w) {addr : Nat} {n r r' : Int} {unmapped : Bool}
    (hn : -2 ^ 31 ≤ n ∧ n < 2 ^ 31) (hsafe : w.ShrinksAt p addr n)
    (hrun : sysMunmap p addr n r unmapped w = .ok r' w') : MapInv sz w' := by
  obtain rfl | ⟨i, a, hfind, hcases⟩ := sysMunmap_cases hrun
  · exact hI
  obtain ⟨hlive, hpos⟩ := hI.found hfind
  have hplaced := hI.separated.placed p i a hlive
  have hhigh := hI.high p i a hlive
  have hint := hI.int p i a hlive
  obtain ⟨hvma, hproc⟩ | ⟨hvma, hproc⟩ := hcases
  · have hself : w'.vma a = { w.vma a with
        length := Int.bmod ((w.vma a).length - n) (2 ^ 32) } := by
      rw [hvma, Function.update_self]
    have hrange : -2 ^ 31 ≤ Int.bmod ((w.vma a).length - n) (2 ^ 32) ∧
        Int.bmod ((w.vma a).length - n) (2 ^ 32) < 2 ^ 31 := by
      have hlow := Int.le_bmod (x := (w.vma a).length - n) (m := 2 ^ 32) (by decide)
      have hup := Int.bmod_lt (x := (w.vma a).length - n) (m := 2 ^ 32) (by decide)
      omega
    refine hI.put (p := p) (i := i) (a := a) (fun q j b hb => ?_) fun _ => ?_
    · obtain ⟨hj, hb⟩ := hb
      rw [hproc] at hb
      by_cases hba : b = a
      · subst hba
        obtain ⟨rfl, rfl⟩ := hI.once q p j i b ⟨hj, hb⟩ hlive
        exact .inl ⟨rfl, rfl, rfl⟩
      · exact .inr ⟨⟨hj, hb⟩, hba, by rw [hvma, Function.update_of_ne hba]⟩
    · rw [hself]
      obtain ⟨ha, hf⟩ := hI.used p i a hlive
      -- a slot that is another has another mapping
      have hslot : ∀ j b, w.Live p j b → b ≠ a → j ≠ i := by
        rintro j b hb hba rfl
        exact hba (Option.some.inj (hb.2.symm.trans hlive.2))
      obtain hshort | hgrow := hsafe
      · have hlen : Int.bmod ((w.vma a).length - n) (2 ^ 32) = (w.vma a).length - n :=
          Int.bmod_eq_of_le (by omega) (by omega)
        have hbelow : (w.vma a).addr + ((w.vma a).length - n) ≤ trapframe := by
          have := hplaced.below
          omega
        have hshorter : -2 ^ 31 ≤ (w.vma a).length - n ∧ (w.vma a).length - n < 2 ^ 31 := by
          omega
        rw [hlen]
        refine ⟨⟨ha, hf⟩, ⟨hplaced.aligned, hplaced.above, hbelow⟩, hhigh, hshorter,
          fun j b hb hba k hk hk' => ?_⟩
        refine hI.separated.disjoint p i j a b hlive hb (hslot j b hb hba).symm k ⟨hk'.1, ?_⟩ hk
        have hlt : k * pgsize < (w.vma a).addr + ((w.vma a).length - n) := hk'.2
        omega
      · obtain ⟨hbelow, hclear⟩ := hgrow i a hfind
        exact ⟨⟨ha, hf⟩, ⟨hplaced.aligned, hplaced.above, hbelow⟩, hhigh, hrange,
          fun j b hb hba k hk hk' => hclear j b hb (hslot j b hb hba) k hk hk'⟩
  · refine hI.put (p := p) (i := i) (a := a) (fun q j b hb => ?_) fun hb => ?_
    · obtain ⟨hj, hb⟩ := hb
      rw [hproc] at hb
      have hold : w.Live q j b ∧ ¬ (q = p ∧ j = i) := by
        by_cases hq : q = p
        · subst hq
          rw [if_pos rfl] at hb
          have hji : j ≠ i := by
            rintro rfl
            rw [Function.update_self] at hb
            cases hb
          rw [Function.update_of_ne hji] at hb
          exact ⟨⟨hj, hb⟩, fun h => hji h.2⟩
        · rw [if_neg hq] at hb
          exact ⟨⟨hj, hb⟩, fun h => hq h.1⟩
      have hba : b ≠ a := by
        rintro rfl
        exact hold.2 (hI.once q p j i b hold.1 hlive)
      exact .inr ⟨hold.1, hba, by rw [hvma, Function.update_of_ne hba]⟩
    · have hslot := hb.2
      rw [hproc, if_pos rfl, Function.update_self] at hslot
      cases hslot

theorem MapInv.step (hI : MapInv sz w) {a : MapAction} (hsafe : MapSafe sz w a)
    (hstep : mapStep w a = some w') : MapInv sz w' := by
  unfold mapStep at hstep
  split at hstep
  case isFalse => cases hstep
  case isTrue hvalid =>
    split at hstep
    case h_2 => cases hstep
    case h_1 r u hrun =>
      cases hstep
      cases a with
      | mmap p length prot flags fd =>
        exact hI.mmap ⟨hvalid, by have := length.toInt_lt; omega⟩ hsafe hrun
      | munmap p addr n r unmapped =>
        exact hI.munmap ⟨by have := n.le_toInt; omega, by have := n.toInt_lt; omega⟩ hsafe hrun

/-- Without a slot `sys_mmap` returns `-1` with no other effect only where it finds no file. -/
theorem MapInv.mmap_noSlot (hI : MapInv sz w) (hslot : w.NoSlot p) (length prot flags fd : Int) :
    sysMmap p length prot flags fd w = .ok (-1) w ↔ w.NoFile p fd := by
  constructor
  · intro hrun
    obtain ⟨hfile, -⟩ | ⟨f, a, addr, -, ha, hfree, -⟩ :=
      sysMmap_cases (fun i a h => (hI.used p i a h).2) hrun
    · exact hfile
    · obtain hfull | hfull := hslot
      · exact absurd hfree (hfull a ha)
      · obtain ⟨i, hi, hnone⟩ := hI.slot_left p
        exact absurd hnone (hfull i hi)
  · intro hfile
    obtain ⟨x, hget, hx⟩ := argfd_run w p fd
    unfold sysMmap
    rw [bind_ok hget, hx.mpr hfile]
    rfl

end Invariant

/-- As long as each new mapping fits and `sys_munmap` lets none grow into another, the mappings of
each process are apart and in their place; with no slot left `sys_mmap` returns `-1` and changes
nothing exactly where the descriptor is for no open file. -/
theorem mappings_separated {sz : Nat → Nat} {w : Files} (h : Run.Reach MapStart
    (fun w a w' => mapStep w a = some w') (MapSafe sz) w) :
    w.Separated sz ∧ ∀ p length prot flags fd, w.NoSlot p →
      (sysMmap p length prot flags fd w = .ok (-1) w ↔ w.NoFile p fd) := by
  have hI : MapInv sz w := h.invariant (fun _ => mapInv_start)
    fun _ _ _ hI hsafe hstep => hI.step hsafe hstep
  exact ⟨hI.separated, fun p length prot flags fd hslot => hI.mmap_noSlot hslot length prot flags fd⟩

/-- As long as the lengths are whole pages and the mappings fill the addresses from `mapTop` down,
the next one goes below them. -/
theorem clear_of_stacked {w : Files} {p : Nat} {length : Int}
    (hpages : (vmasz w p + length) % 4096 = 0)
    (hstacked : ∀ i a, w.Live p i a → mapTop - vmasz w p ≤ (w.vma a).addr) :
    ∀ i a, w.Live p i a → ∀ k, (w.vma a).Page k →
      ¬ (mapTop - pageBytes (vmasz w p + length) ≤ k * pgsize ∧
        k * pgsize < mapTop - pageBytes (vmasz w p + length) + length) := by
  rintro i a ha k hk ⟨-, hlt⟩
  have hbytes : pageBytes (vmasz w p + length) = vmasz w p + length := by
    rw [pageBytes]
    omega
  have hle := hstacked i a ha
  have hpage := hk.1
  rw [hbytes] at hlt
  omega

/-- A process with one open file and no mapping. -/
def oneOpenFile : Files where
  fileTable i := if i = 0 then { File.zero with ref := 1, type := .entry } else File.zero
  vma _ := Mapping.zero
  procTable _ := ⟨.running, [], fun fd => if fd = 0 then some 0 else none, fun _ => none⟩

theorem oneOpenFile_start : MapStart oneOpenFile :=
  ⟨fun _ _ => rfl, fun _ _ ⟨_, _, h⟩ => by cases h⟩

/-- Two mappings of one byte are at the same address. -/
theorem mappings_overlap : ∃ w, Run.Reach MapStart (fun w a w' => mapStep w a = some w')
    Run.anyStep w ∧ ¬ w.Separated fun _ => 0 := by
  have hrun := Run.Reach.runSome [.mmap 0 1 0 0 0, .mmap 0 1 0 0 0]
    (.start oneOpenFile_start) (f := mapStep) rfl
  refine ⟨_, hrun, fun h => ?_⟩
  exact h.disjoint 0 0 1 0 1 ⟨by decide, rfl⟩ ⟨by decide, rfl⟩ (by decide) (2 ^ 26 - 6)
    ⟨by decide, by decide⟩ ⟨by decide, by decide⟩

theorem mappings_separated_page : ∃ w : Files, w.Live 0 0 0 ∧ w.Separated fun _ => 0 := by
  have hfits : oneOpenFile.Fits 0 0 4096 := by
    refine ⟨⟨0, by decide, rfl⟩, by decide, by decide, by decide, clear_of_stacked (by decide) ?_⟩
    rintro i a ⟨-, h⟩
    cases h
  have hsafe : MapSafe (fun _ => 0) oneOpenFile (.mmap 0 4096 0 0 0) := Or.inr hfits
  have hstep : mapStep oneOpenFile (.mmap 0 4096 0 0 0) = some _ := rfl
  refine ⟨_, ?_, (mappings_separated (.next (.start oneOpenFile_start) hsafe hstep)).1⟩
  exact ⟨by decide, rfl⟩

end PageFaultOS
