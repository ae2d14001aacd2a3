import Mathlib.Tactic
import PageFaultOS.Lib.PostOrder
import PageFaultOS.Mm.Freewalk
import PageFaultOS.Mm.Uvmcopy

/-! `freewalk` of `mm/vm.cpp` on a whole tree of tables. A recursion over a table gives back
the tables below one entry, clears that entry and goes on in the same table, so it reads no page
that it has given back as long as each table is there once. -/

namespace PageFaultOS
open Exec Exec.Comp ByteMem

/-- The tables of the tree of depth `n` at page `pn`, in the order in which a recursion leaves
them. -/
def tablePages (m : Mem) (n pn : Nat) : List Nat :=
  Radix.pages child (slots m) (List.finRange 512) n pn

/-- The tables below the first `k` entries of a table. -/
def tablesBefore (m : Mem) (n pn k : Nat) : List Nat :=
  ((List.finRange 512).take k).flatMap (Radix.branch child (slots m) (tablePages m n) pn)

/-- The pages `ps` have been given to `kfree`, one after the other, and nothing else has
changed. -/
structure Torn (σ : MemState) (l ps : List Nat) (σ' : MemState) : Prop where
  free : FreeList σ' ((ps.map (· * 4096)).reverse ++ l)
  kernelEnd : σ'.kernelEnd = σ.kernelEnd
  outside : ∀ b, b / 4096 ∉ ps → σ'.mem b = σ.mem b

/-- What becomes of an entry whose table is given back. -/
def clearedEntry (entry : Nat) : Nat := if entry &&& pteV ≠ 0 then 0 else entry

/-- The same in the middle of the table `pn`, after its first `k` entries. -/
structure Midway (σ : MemState) (l : List Nat) (pn k : Nat) (ps : List Nat) (s : MemState) :
    Prop where
  free : FreeList s ((ps.map (· * 4096)).reverse ++ l)
  kernelEnd : s.kernelEnd = σ.kernelEnd
  cleared : ∀ i : Fin 512, i.val < k → slots s.mem pn i = clearedEntry (slots σ.mem pn i)
  outside : ∀ b, b / 4096 ∉ ps → (b / 4096 = pn → pn * 4096 + 8 * k ≤ b) → s.mem b = σ.mem b

/-- A tree of tables that are pages of the caller, each there once. -/
structure OwnTables (Q : Nat → Nat → Prop) (σ : MemState) (l : List Nat) (n pn : Nat) : Prop where
  entries : Radix.Entries child Q (slots σ.mem) n pn
  once : (tablePages σ.mem n pn).Nodup
  taken : ∀ p ∈ tablePages σ.mem n pn, TakenPage σ l (p * 4096)

/-- The trees below the first `K` entries of a table, and the table itself. -/
structure OwnBelow (Q : Nat → Nat → Prop) (σ : MemState) (l : List Nat) (n pn K : Nat) :
    Prop where
  entries : ∀ i : Fin 512, i.val < K → ∀ q, child (slots σ.mem pn i) = some q →
    Radix.Entries child Q (slots σ.mem) n q
  once : (tablesBefore σ.mem n pn K).Nodup
  apart : pn ∉ tablesBefore σ.mem n pn K
  taken : ∀ p ∈ tablesBefore σ.mem n pn K, TakenPage σ l (p * 4096)
  table : TakenPage σ l (pn * 4096)

/-- The recursion `free` gives back such a tree. -/
def TearsDown (Q : Nat → Nat → Prop) (n : Nat) (free : Nat → MemComp Unit) : Prop :=
  ∀ pn σ l, FreeList σ l → OwnTables Q σ l n pn →
    ∃ σ', free (pn * 4096) σ = .ok () σ' ∧ Torn σ l (tablePages σ.mem n pn) σ'

variable {Q : Nat → Nat → Prop} {σ s : MemState} {l ps : List Nat} {n pn k : Nat}

theorem tablePages_succ (m : Mem) (n pn : Nat) :
    tablePages m (n + 1) pn = tablesBefore m n pn 512 ++ [pn] := by
  have htake : (List.finRange 512).take 512 = List.finRange 512 :=
    List.take_of_length_le (by rw [List.length_finRange])
  rw [tablesBefore, htake]
  rfl

theorem tablesBefore_succ (m : Mem) (n pn : Nat) (k : Fin 512) :
    tablesBefore m n pn (k + 1) =
      tablesBefore m n pn k ++ Radix.branch child (slots m) (tablePages m n) pn k := by
  have hk : k.val < (List.finRange 512).length := by
    rw [List.length_finRange]
    exact k.isLt
  have hget : (List.finRange 512)[k.val] = k := by
    rw [List.getElem_finRange]
    rfl
  rw [tablesBefore, List.take_succ_eq_append_getElem hk, hget, List.flatMap_append,
    List.flatMap_singleton]
  rfl

theorem tablesBefore_le (m : Mem) (n pn : Nat) {K : Nat} (hk : k ≤ K) :
    tablesBefore m n pn k <+: tablesBefore m n pn K := by
  have htake : (List.finRange 512).take k = ((List.finRange 512).take K).take k := by
    rw [List.take_take, Nat.min_eq_left hk]
  obtain ⟨rest, hrest⟩ := List.take_prefix k ((List.finRange 512).take K)
  rw [← htake] at hrest
  unfold tablesBefore
  rw [← hrest, List.flatMap_append]
  exact List.prefix_append _ _

/-- The pages that are still there have their entries. -/
theorem slots_of_outside {m m' : Mem} {p : Nat} (h : ∀ b, b / 4096 = p → m' b = m b)
    (i : Fin 512) : slots m' p i = slots m p i := by
  have hi := i.isLt
  exact readWord_congr fun b _ _ => h b (by omega)

theorem OwnTables.below (h : OwnTables Q σ l (n + 1) pn) : OwnBelow Q σ l n pn 512 := by
  have honce := h.once
  rw [tablePages_succ] at honce
  obtain ⟨hnodup, -, happart⟩ := List.nodup_append.mp honce
  refine ⟨fun i _ q hq => h.entries.below hq, hnodup, fun hin => ?_, fun p hp => h.taken p ?_,
    h.taken pn Radix.mem_pages_self⟩
  · exact happart pn hin pn (List.mem_singleton.mpr rfl) rfl
  · rw [tablePages_succ]
    exact List.mem_append_left _ hp

/-- Before the first entry. -/
theorem midway_zero (h : FreeList σ l) (pn : Nat) : Midway σ l pn 0 [] σ :=
  ⟨h, rfl, fun _ hi => absurd hi (Nat.not_lt_zero _), fun _ _ _ => rfl⟩

theorem TakenPage.later {p : Nat} (hp : TakenPage σ l (p * 4096))
    (hend : s.kernelEnd = σ.kernelEnd) (hps : p ∉ ps) :
    TakenPage s ((ps.map (· * 4096)).reverse ++ l) (p * 4096) := by
  refine ⟨?_, hp.ne_zero, fun hmem => ?_⟩
  · rw [hend]
    exact hp.managed
  · rcases List.mem_append.mp hmem with hin | hin
    · obtain ⟨q, hq, heq⟩ := List.mem_map.mp (List.mem_reverse.mp hin)
      have hqp : q = p := Nat.eq_of_mul_eq_mul_right (by decide : 0 < 4096) heq
      exact hps (hqp ▸ hq)
    · exact hp.notFree hin

section
variable (h : Midway σ l pn k ps s)
include h

/-- A page that has not been given back is still the caller's. -/
theorem Midway.taken {p : Nat} (hp : TakenPage σ l (p * 4096)) (hps : p ∉ ps) :
    TakenPage s ((ps.map (· * 4096)).reverse ++ l) (p * 4096) := hp.later h.kernelEnd hps

theorem Midway.slots_other {p : Nat} (hps : p ∉ ps) (hp : p ≠ pn) (i : Fin 512) :
    slots s.mem p i = slots σ.mem p i :=
  slots_of_outside (fun b hb => h.outside b (hb ▸ hps) fun hb' => absurd (hb.symm.trans hb') hp) i

theorem Midway.slots_rest (hps : pn ∉ ps) (i : Fin 512) (hi : k ≤ i.val) :
    slots s.mem pn i = slots σ.mem pn i := by
  have hlt := i.isLt
  refine readWord_congr fun b hb hb' => h.outside b ?_ fun _ => by omega
  have hpage : b / 4096 = pn := by omega
  rwa [hpage]

/-- The table itself goes last. -/
theorem Midway.kfree (hpn : TakenPage σ l (pn * 4096)) (hps : pn ∉ ps) :
    ∃ σ', kfree (pn * 4096) s = .ok () σ' ∧ Torn σ l (ps ++ [pn]) σ' := by
  obtain ⟨hrun, hfree⟩ := (h.taken hpn hps).kfree h.free
  refine ⟨_, hrun, ?_, h.kernelEnd, fun b hb => ?_⟩
  · rw [List.map_append, List.reverse_append]
    exact hfree
  · rw [List.mem_append, List.mem_singleton, not_or] at hb
    rw [freed_mem_outside _ _ _ (by omega)]
    exact h.outside b hb.1 fun hb' => absurd hb' hb.2

end

/-! ## One table -/

/-- What `freewalk`, `Kfreewalk` and `KvmfreeUser` do at an entry that is no leaf. -/
def clearEntry (free : Nat → MemComp Unit) (pagetable i : Nat) : MemComp Unit := do
  let σ ← read
  match child (readWord σ.mem (pagetable + 8 * i)) with
  | none => pure ()
  | some q => do
    free (q * 4096)
    setWord (pagetable + 8 * i) 0

theorem clearEntry_none (free : Nat → MemComp Unit) {i : Fin 512}
    (h : child (slots s.mem pn i) = none) : clearEntry free (pn * 4096) i s = .ok () s := by
  have hword : child (readWord s.mem (pn * 4096 + 8 * i.val)) = none := h
  unfold clearEntry
  rw [read_bind, hword]
  rfl

theorem clearEntry_some (free : Nat → MemComp Unit) {i : Fin 512} {q : Nat}
    (h : child (slots s.mem pn i) = some q) : clearEntry free (pn * 4096) i s =
      (free (q * 4096) >>= fun _ => setWord (pn * 4096 + 8 * i.val) 0) s := by
  have hword : child (readWord s.mem (pn * 4096 + 8 * i.val)) = some q := h
  unfold clearEntry
  rw [read_bind, hword]

theorem child_valid {entry q : Nat} (h : child entry = some q) :
    entry &&& pteV ≠ 0 ∧ pte2page entry = q * 4096 := by
  by_cases hvalid : entry &&& pteV ≠ 0
  · rw [child, if_pos hvalid] at h
    rw [← Option.some.inj h]
    exact ⟨hvalid, (page_mul (pte2page_aligned entry)).symm⟩
  · rw [child, if_neg hvalid] at h
    cases h

theorem clearedEntry_none {entry : Nat} (h : child entry = none) :
    clearedEntry entry = entry := by
  refine if_neg fun hvalid => ?_
  rw [child, if_pos hvalid] at h
  cases h

section
variable {K : Nat} (hown : OwnBelow Q σ l n pn K)
include hown

/-- The pages below one entry are apart from those that are gone. -/
theorem OwnBelow.entry {i : Fin 512} (hi : i.val < K) {q : Nat}
    (hq : child (slots σ.mem pn i) = some q) :
    pn ∉ tablesBefore σ.mem n pn (i + 1) ∧ (tablePages σ.mem n q).Nodup ∧
      ∀ p ∈ tablePages σ.mem n q, p ∉ tablesBefore σ.mem n pn i ∧ p ≠ pn ∧
        TakenPage σ l (p * 4096) := by
  obtain ⟨rest, hrest⟩ := tablesBefore_le σ.mem n pn (Nat.succ_le_of_lt hi)
  have hsucc := tablesBefore_succ σ.mem n pn i
  rw [Radix.branch_some hq] at hsucc
  have hin : ∀ p ∈ tablesBefore σ.mem n pn (i + 1), p ∈ tablesBefore σ.mem n pn K := by
    intro p hp
    rw [← hrest]
    exact List.mem_append_left _ hp
  have hbelow : ∀ p ∈ tablePages σ.mem n q, p ∈ tablesBefore σ.mem n pn K := by
    intro p hp
    refine hin p ?_
    rw [hsucc]
    exact List.mem_append_right _ hp
  have honce := hown.once
  rw [← hrest, Nat.succ_eq_add_one, hsucc] at honce
  obtain ⟨-, hq', happart⟩ := List.nodup_append.mp (List.nodup_append.mp honce).1
  refine ⟨fun hpn => hown.apart (hin pn hpn), hq', fun p hp =>
    ⟨fun hb => happart p hb p hp rfl, fun heq => ?_, hown.taken p (hbelow p hp)⟩⟩
  subst heq
  exact hown.apart (hbelow p hp)

/-- One entry: what is below it is given back, and it is cleared. -/
theorem Midway.step {free : Nat → MemComp Unit} (htears : TearsDown Q n free) {i : Fin 512}
    (hi : i.val < K) (h : Midway σ l pn i (tablesBefore σ.mem n pn i) s) :
    ∃ s', clearEntry free (pn * 4096) i s = .ok () s' ∧
      Midway σ l pn (i + 1) (tablesBefore σ.mem n pn (i + 1)) s' := by
  have hlt := i.isLt
  have hsucc := tablesBefore_succ σ.mem n pn i
  have hpn : pn ∉ tablesBefore σ.mem n pn i := fun hin =>
    hown.apart ((tablesBefore_le σ.mem n pn (Nat.le_of_lt hi)).subset hin)
  have hslot := h.slots_rest hpn i (Nat.le_refl i.val)
  have hold : ∀ {j : Fin 512}, j.val < i.val + 1 → j ≠ i → j.val < i.val := fun {j} hj hne =>
    Nat.lt_of_le_of_ne (Nat.le_of_lt_succ hj) fun heq => hne (Fin.ext heq)
  have hlater : ∀ b, (b / 4096 = pn → pn * 4096 + 8 * (i.val + 1) ≤ b) → b / 4096 = pn →
      pn * 4096 + 8 * i.val ≤ b := fun b hb heq =>
    Nat.le_trans (Nat.add_le_add_left (Nat.mul_le_mul_left 8 (Nat.le_succ _)) _) (hb heq)
  cases hq : child (slots σ.mem pn i) with
  | none =>
    rw [Radix.branch_none hq, List.append_nil] at hsucc
    refine ⟨s, clearEntry_none free (hslot ▸ hq), ?_⟩
    rw [hsucc]
    refine ⟨h.free, h.kernelEnd, fun j hj => ?_, fun b hb hb' => h.outside b hb (hlater b hb')⟩
    by_cases hji : j = i
    · rw [hji, hslot, clearedEntry_none hq]
    · exact h.cleared j (hold hj hji)
  | some q =>
    rw [Radix.branch_some hq] at hsucc
    obtain ⟨hpn', honce, hbelow⟩ := hown.entry hi hq
    have hsame : ∀ p ∈ tablePages σ.mem n q, ∀ j, slots s.mem p j = slots σ.mem p j :=
      fun p hp => h.slots_other (hbelow p hp).1 (hbelow p hp).2.1
    have hpages : tablePages s.mem n q = tablePages σ.mem n q := Radix.pages_congr hsame
    have hchild : OwnTables Q s (((tablesBefore σ.mem n pn i).map (· * 4096)).reverse ++ l) n
        q := by
      refine ⟨(hown.entries i hi q hq).congr (fun j => List.mem_finRange j) hsame, ?_, ?_⟩
      · rwa [hpages]
      · rw [hpages]
        exact fun p hp => h.taken (hbelow p hp).2.2 (hbelow p hp).1
    obtain ⟨s1, hrun, htorn⟩ := htears q s _ h.free hchild
    rw [hpages] at htorn
    -- between the two: the pages below are gone, the entry is not cleared
    have hfree : FreeList s1
        (((tablesBefore σ.mem n pn (i + 1)).map (· * 4096)).reverse ++ l) := by
      have hlist := htorn.free
      rwa [← List.append_assoc, ← List.reverse_append, ← List.map_append, ← hsucc] at hlist
    have hmem : ∀ b, b / 4096 ∉ tablesBefore σ.mem n pn (i + 1) →
        (b / 4096 = pn → pn * 4096 + 8 * i.val ≤ b) → s1.mem b = σ.mem b := by
      intro b hb hb'
      rw [hsucc, List.mem_append, not_or] at hb
      rw [htorn.outside b hb.2, h.outside b hb.1 hb']
    have htable := hown.table.later (htorn.kernelEnd.trans h.kernelEnd) hpn'
    refine ⟨{ s1 with mem := writeWord s1.mem (pn * 4096 + 8 * i.val) 0 }, ?_, ?_,
      htorn.kernelEnd.trans h.kernelEnd, fun j hj => ?_, fun b hb hb' => ?_⟩
    · rw [clearEntry_some free (hslot ▸ hq), bind_ok hrun]
      rfl
    · refine htable.write hfree _ fun b hb => writeWord_apply_of_outside _ _ _ _ ?_
      by_contra hnot
      omega
    · have hwrite := slots_writeWord s1.mem pn 0 i
      simp only
      rw [hwrite]
      by_cases hji : j = i
      · rw [hji, Radix.set_self, clearedEntry, if_pos (child_valid hq).1]
        rfl
      · rw [Radix.set_other fun _ => hji, ← h.cleared j (hold hj hji)]
        refine slots_of_outside (fun b hb => htorn.outside b ?_) j
        rw [hb]
        exact fun hin => (hbelow pn hin).2.1 rfl
    · rw [← hmem b hb (hlater b hb')]
      refine writeWord_apply_of_outside _ _ _ _ ?_
      by_cases heq : b / 4096 = pn
      · refine Or.inr (Nat.le_trans (Nat.le_of_eq ?_) (hb' heq))
        rw [Nat.mul_add 8 i.val 1, Nat.add_assoc]
      · by_contra hnot
        omega

end

/-- The entries of a table, one after the other. -/
theorem OwnBelow.walk {K : Nat} (hown : OwnBelow Q σ l n pn K) (hfree : FreeList σ l)
    {free : Nat → MemComp Unit} (htears : TearsDown Q n free) {step : Nat → MemComp Unit}
    (hstep : ∀ i : Fin 512, i.val < K → ∀ s, slots s.mem pn i = slots σ.mem pn i →
      step i s = clearEntry free (pn * 4096) i s) (hK : K ≤ 512) (hk : k ≤ K) :
    ∃ s, forEach (List.range k) step σ = .ok () s ∧
      Midway σ l pn k (tablesBefore σ.mem n pn k) s := by
  induction k with
  | zero => exact ⟨σ, rfl, midway_zero hfree pn⟩
  | succ k ih =>
    obtain ⟨s, hrun, hmid⟩ := ih (by omega)
    let i : Fin 512 := ⟨k, by omega⟩
    have hi : i.val < K := Nat.lt_of_succ_le hk
    have hpn : pn ∉ tablesBefore σ.mem n pn k := fun hin =>
      hown.apart ((tablesBefore_le σ.mem n pn (Nat.le_of_lt hi)).subset hin)
    obtain ⟨s', hclear, hmid'⟩ := Midway.step hown htears hi hmid
    refine ⟨s', ?_, hmid'⟩
    rw [List.range_succ, forEach_append, bind_ok hrun, forEach_single]
    exact (hstep i hi s (hmid.slots_rest hpn i (Nat.le_refl k))).trans hclear

/-! ## `freewalk` -/

/-- An entry that `freewalk` accepts, in a table with `level` levels below it. -/
def bareEntry (level entry : Nat) : Prop :=
  entry &&& pteV ≠ 0 → 0 < level ∧ entry &&& (pteR ||| pteW ||| pteX) = 0

theorem freewalkEntry_bare (free : Nat → MemComp Unit) (i : Fin 512) {level : Nat}
    (h : bareEntry level (slots s.mem pn i)) :
    freewalkEntry free (pn * 4096) i s = clearEntry free (pn * 4096) i s := by
  have hword : readWord s.mem (pn * 4096 + 8 * i.val) = slots s.mem pn i := rfl
  cases hq : child (slots s.mem pn i) with
  | none =>
    have hinvalid : ¬ slots s.mem pn i &&& pteV ≠ 0 := fun hvalid => by
      rw [child, if_pos hvalid] at hq
      cases hq
    rw [clearEntry_none free hq]
    unfold freewalkEntry
    rw [read_bind]
    simp only [hword]
    rw [if_neg fun hand => hinvalid hand.1, if_neg hinvalid]
    rfl
  | some q =>
    obtain ⟨hvalid, hpage⟩ := child_valid hq
    rw [clearEntry_some free hq]
    unfold freewalkEntry
    rw [read_bind]
    simp only [hword]
    rw [if_pos ⟨hvalid, (h hvalid).2⟩, hpage]

theorem freewalk_tearsDown {depth : Nat} (hdepth : n < depth) :
    TearsDown bareEntry n (freewalk depth) := by
  induction n generalizing depth with
  | zero =>
    intro pn σ l hfree hown
    obtain ⟨d, rfl⟩ : ∃ d, depth = d + 1 := ⟨depth - 1, by omega⟩
    have hskip : forEach (List.range 512) (freewalkEntry (freewalk d) (pn * 4096)) σ =
        .ok () σ := by
      refine forEach_skip fun i hi => ?_
      have hentry := hown.entries.top ⟨i, List.mem_range.mp hi⟩
      have hnone : child (slots σ.mem pn ⟨i, List.mem_range.mp hi⟩) = none :=
        if_neg fun hvalid => absurd (hentry hvalid).1 (Nat.lt_irrefl 0)
      exact (freewalkEntry_bare _ ⟨i, List.mem_range.mp hi⟩ hentry).trans
        (clearEntry_none _ hnone)
    obtain ⟨σ', hrun, htorn⟩ := (midway_zero hfree pn).kfree
      (hown.taken pn Radix.mem_pages_self) List.not_mem_nil
    refine ⟨σ', ?_, htorn⟩
    unfold freewalk
    rw [bind_ok hskip]
    exact hrun
  | succ n ih =>
    intro pn σ l hfree hown
    obtain ⟨d, rfl⟩ : ∃ d, depth = d + 1 := ⟨depth - 1, by omega⟩
    have hbelow := hown.below
    have hbare : ∀ (i : Fin 512) (s : MemState), slots s.mem pn i = slots σ.mem pn i →
        bareEntry (n + 1) (slots s.mem pn i) := by
      intro i s hs
      rw [hs]
      exact hown.entries.top i
    obtain ⟨s, hloop, hmid⟩ := hbelow.walk hfree (ih (by omega : n < d))
      (fun i _ s hs => freewalkEntry_bare (freewalk d) i (hbare i s hs)) (le_refl 512)
      (le_refl 512)
    obtain ⟨σ', hrun, htorn⟩ := hmid.kfree hbelow.table hbelow.apart
    refine ⟨σ', ?_, ?_⟩
    · unfold freewalk
      rw [bind_ok hloop]
      exact hrun
    · rw [tablePages_succ]
      exact htorn

/-- A tree of tables of depth at most three without leaf entries. Each table is there once, and
is a page that the caller has. -/
structure TableTree (σ : MemState) (l : List Nat) (root : Nat) : Prop where
  aligned : root % 4096 = 0
  once : Radix.Tree child (slots σ.mem) (root / 4096) 2
  noLeaf : ∀ is pn i, is.length ≤ 2 →
    Radix.reach child (slots σ.mem) (root / 4096) is = some pn → slots σ.mem pn i &&& pteV ≠ 0 →
    is.length < 2 ∧ slots σ.mem pn i &&& (pteR ||| pteW ||| pteX) = 0
  taken : ∀ is pn, is.length ≤ 2 →
    Radix.reach child (slots σ.mem) (root / 4096) is = some pn → TakenPage σ l (pn * 4096)

theorem mem_tablePages {m : Mem} {p : Nat} : p ∈ tablePages m n pn ↔
    ∃ is : List (Fin 512), is.length ≤ n ∧ Radix.reach child (slots m) pn is = some p :=
  Radix.mem_pages fun i => List.mem_finRange i

theorem TableTree.ownTables {root : Nat} (h : TableTree σ l root) :
    OwnTables bareEntry σ l 2 (root / 4096) := by
  refine ⟨fun is pn i his hr hvalid => ?_,
    Radix.pages_nodup (fun i => List.mem_finRange i) (List.nodup_finRange 512) h.once,
    fun p hp => ?_⟩
  · obtain ⟨hlen, htable⟩ := h.noLeaf is pn i his hr hvalid
    exact ⟨by omega, htable⟩
  · obtain ⟨is, his, hr⟩ := mem_tablePages.mp hp
    exact h.taken is p his hr

/-- `freewalk` gives back each table of such a tree once, and nothing else. -/
theorem freewalk_frees {root depth : Nat} (hfree : FreeList σ l) (h : TableTree σ l root)
    (hdepth : 3 ≤ depth) :
    ∃ σ' freed, freewalk depth root σ = .ok () σ' ∧ FreeList σ' (freed ++ l) ∧ freed.Nodup ∧
      (∀ page, page ∈ freed ↔ page % 4096 = 0 ∧ ¬ NotInTable σ.mem root page) ∧
      ∀ b, NotInTable σ.mem root b → σ'.mem b = σ.mem b := by
  obtain ⟨σ', hrun, htorn⟩ :=
    freewalk_tearsDown (by omega : 2 < depth) (root / 4096) σ l hfree h.ownTables
  rw [page_mul h.aligned] at hrun
  have hin : ∀ page, page / 4096 ∈ tablePages σ.mem 2 (root / 4096) ↔
      ¬ NotInTable σ.mem root page := by
    intro page
    rw [mem_tablePages]
    unfold NotInTable Radix.Fresh
    push Not
    rfl
  refine ⟨σ', _, hrun, htorn.free, (List.nodup_append.mp htorn.free.nodup).1, fun page => ?_,
    fun b hb => htorn.outside b fun hmem => (hin b).mp hmem hb⟩
  rw [List.mem_reverse, List.mem_map, ← hin]
  constructor
  · rintro ⟨p, hp, rfl⟩
    rw [Nat.mul_div_cancel p (by decide)]
    exact ⟨Nat.mul_mod_left p 4096, hp⟩
  · rintro ⟨hal, hp⟩
    exact ⟨page / 4096, hp, page_mul hal⟩

/-! ## The tables of a process whose page is gone -/

/-- `forkMachine` after the one page of the process has been unmapped. -/
def unmappedMachine : MemState :=
  { forkMachine with mem := writeWord forkMachine.mem 0x80302000 0 }

theorem unmappedMachine_free :
    FreeList unmappedMachine [0x80500000, 0x80501000, 0x80502000] := by
  refine forkMachine_free.congr _ fun q hq => ?_
  simp only [List.mem_cons, List.not_mem_nil, or_false] at hq
  exact readWord_writeWord_of_disjoint _ _ _ _ (by omega)

theorem unmappedMachine_path : OnePath unmappedMachine.mem 0x80300 0x80301 0x80302 0 0 :=
  forkMachine_path.congr fun b hb => writeWord_apply_of_outside _ _ _ _ (by omega)

theorem unmappedMachine_last (i : Fin 512) : slots unmappedMachine.mem 0x80302 i = 0 := by
  have hi := i.isLt
  by_cases h : i = 0
  · rw [h]
    exact readWord_writeWord _ _ _
  · have hpos : 0 < i.val := Nat.pos_of_ne_zero fun h0 => h (Fin.ext h0)
    rw [← smallMachine_zero i (by decide : 0x80302 < 0x80500)]
    simp only [slots, unmappedMachine, forkMachine]
    rw [readWord_writeWord_of_disjoint _ _ _ _ (by omega),
      readWord_writeWord_of_disjoint _ _ _ _ (by omega),
      readWord_writeWord_of_disjoint _ _ _ _ (by omega),
      readWord_writeWord_of_disjoint _ _ _ _ (by omega)]

theorem unmappedMachine_tree :
    TableTree unmappedMachine [0x80500000, 0x80501000, 0x80502000] 0x80300000 := by
  refine ⟨by decide, unmappedMachine_path.pageTable.tree, fun is pn i his hr hvalid => ?_,
    fun is pn his hr => ?_⟩
  · rcases (unmappedMachine_path.reach_iff his pn).mp hr with ⟨rfl, -⟩ | ⟨rfl, -⟩ | ⟨rfl, rfl⟩
    · exact ⟨by decide, unmappedMachine_path.pageTable.nonLeaf [] pn i (by decide) hr hvalid⟩
    · exact ⟨by decide, unmappedMachine_path.pageTable.nonLeaf [0] pn i (by decide) hr hvalid⟩
    · rw [unmappedMachine_last] at hvalid
      exact absurd rfl hvalid
  · have hpn : pn = 0x80300 ∨ pn = 0x80301 ∨ pn = 0x80302 := by
      rcases (unmappedMachine_path.reach_iff his pn).mp hr with ⟨-, h⟩ | ⟨-, h⟩ | ⟨-, h⟩
      · exact Or.inl h
      · exact Or.inr (Or.inl h)
      · exact Or.inr (Or.inr h)
    rcases hpn with rfl | rfl | rfl <;>
      exact ⟨⟨by decide, by decide, by decide⟩, by decide, by decide⟩

theorem freewalk_frees_unmapped :
    ∃ σ' freed, freewalk 3 0x80300000 unmappedMachine = .ok () σ' ∧
      FreeList σ' (freed ++ [0x80500000, 0x80501000, 0x80502000]) ∧ freed.Nodup ∧
      (∀ page, page ∈ freed ↔
        page % 4096 = 0 ∧ ¬ NotInTable unmappedMachine.mem 0x80300000 page) ∧
      ∀ b, NotInTable unmappedMachine.mem 0x80300000 b → σ'.mem b = unmappedMachine.mem b :=
  freewalk_frees unmappedMachine_free unmappedMachine_tree (le_refl 3)

end PageFaultOS
