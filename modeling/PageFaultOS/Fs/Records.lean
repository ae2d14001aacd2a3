import Mathlib.Tactic
import PageFaultOS.Lib.Emit
import PageFaultOS.Fs.Copies
import PageFaultOS.Fs.Scans

/-! The records of `Fat32FileSystem::ls`: what each round finds, which bytes it copies out and
where, and where it goes on. -/

namespace PageFaultOS
open Exec Exec.Comp ByteMem Emit

/-! ## What a round does -/

/-- Where the text of an entry goes in the record. -/
def lfnPlace (e : FatFileEntry) : Nat := 6 + 13 * clearFlag e.sequenceNumber 0x40

/-- The entries of a long name from entry `k`, `n` at most. -/
def lfnRest (entry : Nat → FatFileEntry) : Nat → Nat → List FatFileEntry
  | 0, _ => []
  | n + 1, k =>
    if k < lastEntry ∧ (entry k).attributes = tfAttrLongName then
      entry k :: lfnRest entry n (k + 1)
    else
      []

/-- The length that `ls` counts for a long name. -/
def nameLength (parts : List FatFileEntry) : Nat := (parts.map fun e => (lfnText e).length).sum

/-- What a round of `ls` comes to: the end, an entry that it skips, a file with an 8.3 name, or the
entries of a long name, and the entry of the file if that is there. -/
inductive Found where
  | stop
  | other
  | short (e : FatFileEntry)
  | long (parts : List FatFileEntry) (file : Option FatFileEntry)

def found (entry : Nat → FatFileEntry) (len k readn : Nat) : Found :=
  let e := entry k
  if k = lastEntry ∨ entryByte e 0 = 0 ∨ len ≤ readn + 8 then
    .stop
  else if e.attributes ≠ tfAttrLongName then
    .short e
  else if e.sequenceNumber &&& 0xc0 = 0x40 then
    let m := clearFlag e.sequenceNumber 0x40
    if len ≤ m * 26 + readn then
      .stop
    else
      let rest := lfnRest entry (m - 1) (k + 1)
      .long (e :: rest) (if rest.length = m - 1 ∧ k + 1 + rest.length < lastEntry then
        some (entry (k + 1 + rest.length)) else none)
  else
    .other

/-- The texts of the entries of a long name, each at its place. -/
def partCopies (contents : Nat) (parts : List FatFileEntry) : List (Nat × List UInt8) :=
  parts.map fun e => (contents + lfnPlace e, lfnText e)

def Found.copies (contents : Nat) : Found → List (Nat × List UInt8)
  | .stop => []
  | .other => []
  | .short e => [(contents + 19, sfnName e)] ++ [(contents, direntBytes e contents (sfnName e).length)]
  | .long parts none => partCopies contents parts
  | .long parts (some e) =>
    partCopies contents parts ++ [(contents, direntBytes e contents (nameLength parts))]

def Found.next (k readn : Nat) : Found → (Nat × Nat) ⊕ Int
  | .stop => .inr readn
  | .other => .inl (k + 1, readn)
  | .short e => .inl (k + 1, readn + (19 + (sfnName e).length))
  | .long _ none => .inr (-1)
  | .long parts (some _) => .inl (k + 1 + parts.length, readn + (19 + nameLength parts))

/-- One round of `ls` at entry `k`, with `readn` bytes behind `base` so far. -/
def lsStep (entry : Nat → FatFileEntry) (len base : Nat) (p : Nat × Nat) :
    List (Nat × List UInt8) × ((Nat × Nat) ⊕ Int) :=
  ((found entry len p.1 p.2).copies (base + p.2), (found entry len p.1 p.2).next p.1 p.2)

variable {entry : Nat → FatFileEntry} {len base k readn m n : Nat} {e : FatFileEntry}
  {parts : List FatFileEntry} {file : Option FatFileEntry} {p q : Nat × Nat}

/-! ## Bounds -/

theorem direntBytes_length (e : FatFileEntry) (contents n : Nat) :
    (direntBytes e contents n).length = 19 := by
  simp [direntBytes, leBytes]

theorem lfnRest_length_le (entry : Nat → FatFileEntry) (n k : Nat) :
    (lfnRest entry n k).length ≤ n := by
  induction n generalizing k with
  | zero => exact Nat.le_refl 0
  | succ n ih =>
    rw [lfnRest]
    split
    · exact Nat.succ_le_succ (ih (k + 1))
    · exact Nat.zero_le _

theorem nameLength_le (parts : List FatFileEntry) : nameLength parts ≤ 13 * parts.length := by
  induction parts with
  | nil => exact Nat.le_refl 0
  | cons e parts ih =>
    have he := lfnText_length_le e
    rw [nameLength, List.map_cons, List.sum_cons, List.length_cons]
    rw [nameLength] at ih
    omega

theorem lfnPlace_le (e : FatFileEntry) : lfnPlace e ≤ 2489 := by
  have h : clearFlag e.sequenceNumber 0x40 ≤ 191 := Nat.and_le_right
  rw [lfnPlace]
  omega

/-- The number of entries that the first entry of a long name announces. -/
theorem announced_lt {x : Nat} (hx : x < 256) (h : x &&& 0xc0 = 0x40) : clearFlag x 0x40 < 64 := by
  have hall : ∀ x < 256, x &&& 0xc0 = 0x40 → clearFlag x 0x40 < 64 := by decide +kernel
  exact hall x hx h

theorem FatFileEntry.sequenceNumber_lt (e : FatFileEntry) : e.sequenceNumber < 256 :=
  UInt8.toNat_lt _

theorem found_stop (h : k = lastEntry ∨ entryByte (entry k) 0 = 0 ∨ len ≤ readn + 8) :
    found entry len k readn = .stop := by
  unfold found
  exact if_pos h

/-- What is known of an entry of a file with an 8.3 name. -/
theorem found_short (hk : k ≤ lastEntry) (h : found entry len k readn = .short e) :
    readn + 8 < len ∧ k < lastEntry ∧ e = entry k := by
  simp only [found] at h
  split at h
  · cases h
  · rename_i hgo
    rw [not_or, not_or] at hgo
    split at h
    · cases h
      exact ⟨by omega, by omega, rfl⟩
    · split at h
      · split at h <;> cases h
      · cases h

/-- What is known of the first entry of a long name. -/
theorem found_long (hk : k ≤ lastEntry) (h : found entry len k readn = .long parts file) :
    readn + 8 < len ∧ parts.length < 64 ∧ k < lastEntry ∧
      ∀ e, file = some e → k + parts.length < lastEntry := by
  simp only [found] at h
  split at h
  · cases h
  · rename_i hgo
    rw [not_or, not_or] at hgo
    split at h
    · cases h
    · split at h
      · rename_i hfirst
        have hm := announced_lt (entry k).sequenceNumber_lt hfirst
        have hrest := lfnRest_length_le entry (clearFlag (entry k).sequenceNumber 0x40 - 1) (k + 1)
        split at h
        · cases h
        · cases h
          rw [List.length_cons]
          refine ⟨by omega, by omega, by omega, fun e he => ?_⟩
          split at he
          · omega
          · cases he
      · cases h

theorem found_other (hk : k ≤ lastEntry) (h : found entry len k readn = .other) :
    readn + 8 < len ∧ k < lastEntry := by
  simp only [found] at h
  split at h
  · cases h
  · rename_i hgo
    rw [not_or, not_or] at hgo
    exact ⟨by omega, by omega⟩

/-- The positions between the rounds. -/
def Between (len : Nat) (p : Nat × Nat) : Prop := p.1 ≤ lastEntry ∧ p.2 ≤ len + 838

theorem Between.next (h : Between len p) (hnext : (lsStep entry len base p).2 = .inl q) :
    Between len q ∧ p.1 < q.1 ∧ p.2 ≤ q.2 := by
  obtain ⟨k, readn⟩ := p
  obtain ⟨hk, hreadn⟩ := h
  simp only [lsStep] at hnext hk hreadn ⊢
  cases hfound : found entry len k readn with
  | stop =>
    rw [hfound] at hnext
    cases hnext
  | other =>
    obtain ⟨_, hlt⟩ := found_other hk hfound
    rw [hfound] at hnext
    cases hnext
    exact ⟨⟨hlt, hreadn⟩, Nat.lt_succ_self k, Nat.le_refl _⟩
  | short e =>
    obtain ⟨hroom, hlt, _⟩ := found_short hk hfound
    have hlen := sfnName_length_le e
    rw [hfound] at hnext
    cases hnext
    refine ⟨⟨hlt, ?_⟩, Nat.lt_succ_self k, Nat.le_add_right _ _⟩
    simp only
    omega
  | long parts file =>
    obtain ⟨hroom, hparts, _, hfile⟩ := found_long hk hfound
    have hlen := nameLength_le parts
    rw [hfound] at hnext
    cases file with
    | none => cases hnext
    | some e =>
      have hbelow := hfile e rfl
      cases hnext
      refine ⟨⟨?_, ?_⟩, ?_, Nat.le_add_right _ _⟩
      all_goals simp only
      all_goals omega

/-! ## The rounds of the code -/

/-- From `s` to `t` the strings have been copied out. -/
structure Wrote (user : Bool) (lo hi : Nat) (s t : Fat32) (l : List (Nat × List UInt8)) : Prop where
  pagetable : t.pagetable = s.pagetable
  copied : CopiedOut user s.pagetable lo hi s.mm.mem t.mm.mem l

variable {user : Bool} {lo hi fp : Nat} {s t u : Fat32} {l l' : List (Nat × List UInt8)} {r : Int}

theorem Wrote.trans (h : Wrote user lo hi s t l) (h' : Wrote user lo hi t u l') :
    Wrote user lo hi s u (l ++ l') :=
  ⟨h'.pagetable.trans h.pagetable, h.copied.trans (h.pagetable ▸ h'.copied)⟩

theorem Wrote.writable (h : Wrote user lo hi s t l) : Writable user t.pagetable t.mm.mem lo hi :=
  h.pagetable ▸ h.copied.writable

/-- The memory is not changed. -/
theorem Wrote.of_same (hw : Writable user s.pagetable s.mm.mem lo hi) (hmm : t.mm = s.mm)
    (hpagetable : t.pagetable = s.pagetable) : Wrote user lo hi s t [] := by
  refine ⟨hpagetable, ?_⟩
  rw [hmm]
  exact CopiedOut.refl hw

/-- Copying out does not move the handle. -/
theorem ReadsAt.withMemory {shape : TFShape} {v : Mem} {c j : Nat}
    (h : ReadsAt s fp shape v c k j) (mm : MemState) :
    ReadsAt { s with mm := mm } fp shape v c k j :=
  ⟨h.valid, h.sectors, h.coherent, h.sameShape, h.reached, h.volume, h.directory, h.start, h.size,
    h.pos, h.byte, h.index, h.cluster⟩

/-- The handle is at entry `k` of a directory with these entries, and the buffer is writable. -/
structure ListsAt (user : Bool) (lo hi : Nat) (s : Fat32) (fp : Nat) (entry : Nat → FatFileEntry)
    (k : Nat) : Prop where
  reads : ∃ shape v c, entry = grownEntry shape v c ∧
    ReadsAt s fp shape v c k (entryCluster shape k)
  writable : Writable user s.pagetable s.mm.mem lo hi

/-- The next entry is read. -/
theorem ListsAt.fread (h : ListsAt user lo hi s fp entry k) (hk : k < lastEntry) :
    ∃ t, tfFread 32 fp s = .ok (entry k) t ∧ (entry k).length = 32 ∧ Wrote user lo hi s t [] ∧
      ListsAt user lo hi t fp entry (k + 1) := by
  obtain ⟨⟨shape, v, c, rfl, hat⟩, hw⟩ := h
  obtain ⟨t, hread, hat'⟩ := hat.fread hk fun t hat => hat.seek_next hk
  have hkeeps := (blind_memory fp).tfFread 32 s _ t hread
  have hwrote := Wrote.of_same hw (congrArg Prod.fst hkeeps) (congrArg Prod.snd hkeeps)
  exact ⟨t, hread, entryIn_length _ _ _, hwrote, ⟨shape, v, c, rfl, hat'⟩, hwrote.writable⟩

/-- The last entry is not read to its end. -/
theorem ListsAt.fread_last (h : ListsAt user lo hi s fp entry lastEntry) :
    ∃ e t, tfFread 32 fp s = .ok e t ∧ e.length ≠ 32 ∧ Wrote user lo hi s t [] := by
  obtain ⟨⟨shape, v, c, rfl, hat⟩, hw⟩ := h
  obtain ⟨t, hread, _⟩ := hat.fread_last
  have hkeeps := (blind_memory fp).tfFread 32 s _ t hread
  refine ⟨_, t, hread, ?_, Wrote.of_same hw (congrArg Prod.fst hkeeps)
    (congrArg Prod.snd hkeeps)⟩
  rw [entryIn_take_length]
  decide

/-- A copy leaves the handle where it is. -/
theorem ListsAt.copies {α : Type} {x : FsComp α} {a : α} (h : ListsAt user lo hi s fp entry k)
    (hx : Copies user lo hi x s a l) :
    ∃ t, x s = .ok a t ∧ Wrote user lo hi s t l ∧ ListsAt user lo hi t fp entry k := by
  obtain ⟨⟨shape, v, c, hentry, hat⟩, hw⟩ := h
  obtain ⟨mm, hrun, hcopied⟩ := hx
  exact ⟨_, hrun, ⟨rfl, hcopied⟩, ⟨shape, v, c, hentry, hat.withMemory mm⟩, hcopied.writable⟩

/-- The text of one entry. -/
theorem ListsAt.copyLfn (h : ListsAt user lo hi s fp entry k) {contents : Nat}
    (hbelow : contents + 2502 < 2 ^ 64) (hin : Inside lo hi [(contents + lfnPlace e, lfnText e)]) :
    ∃ t, copyLfn e (contents + direntBaseLen : Nat) user s = .ok (lfnText e).length t ∧
      Wrote user lo hi s t [(contents + lfnPlace e, lfnText e)] ∧
      ListsAt user lo hi t fp entry k := by
  have hplace := lfnPlace_le e
  refine h.copies (copyLfn_copies e ?_ (by omega) h.writable hin)
  rw [lfnPlace, direntBaseLen]
  omega

/-- The first bytes of a record. -/
theorem ListsAt.header (h : ListsAt user lo hi s fp entry k) {contents : Nat}
    (hbelow : contents < 2 ^ 64) (hin : Inside lo hi [(contents, direntBytes e contents n)]) :
    ∃ t, eitherCopyout user contents (direntBytes e contents n) s = .ok 0 t ∧
      Wrote user lo hi s t [(contents, direntBytes e contents n)] ∧
      ListsAt user lo hi t fp entry k :=
  h.copies (eitherCopyout_copies rfl hbelow (by rw [direntBytes_length]; decide) h.writable hin)

theorem partCopies_cons (contents : Nat) (e : FatFileEntry) (parts : List FatFileEntry) :
    partCopies contents (e :: parts) =
      [(contents + lfnPlace e, lfnText e)] ++ partCopies contents parts := rfl

theorem nameLength_cons (e : FatFileEntry) (parts : List FatFileEntry) :
    nameLength (e :: parts) = (lfnText e).length + nameLength parts := rfl

/-- The entries of a long name behind the first one: all that are announced, or those in front of
one that is not there. -/
theorem ListsAt.rest (fuel : Nat) (h : ListsAt user lo hi s fp entry k) (hk : k ≤ lastEntry)
    {contents i : Nat} (hbelow : contents + 2502 < 2 ^ 64) (hm : n - i = m) (hfuel : m < fuel)
    (hin : Inside lo hi (partCopies contents (lfnRest entry m k))) (x : Nat) :
    ∃ t, loop (lsLfnRound fp n contents user) fuel (i, x) s =
        .ok (if (lfnRest entry m k).length = m then some (x + nameLength (lfnRest entry m k))
          else none) t ∧
      Wrote user lo hi s t (partCopies contents (lfnRest entry m k)) ∧
      ((lfnRest entry m k).length = m → ListsAt user lo hi t fp entry (k + m) ∧
        k + m ≤ lastEntry) := by
  induction m generalizing s k i x fuel with
  | zero =>
    obtain ⟨fuel, rfl⟩ := Nat.exists_eq_succ_of_ne_zero (Nat.ne_of_gt hfuel)
    have hround : lsLfnRound fp n contents user (i, x) s = .ok (.inr (some x)) s := by
      unfold lsLfnRound
      simp only
      rw [if_pos (by omega)]
      rfl
    exact ⟨s, loop_done hround fuel, Wrote.of_same h.writable rfl rfl, fun _ => ⟨h, hk⟩⟩
  | succ m ih =>
    obtain ⟨fuel, rfl⟩ := Nat.exists_eq_succ_of_ne_zero (Nat.ne_zero_of_lt hfuel)
    have hi' : ¬ ¬ i < n := by omega
    rcases Nat.lt_or_eq_of_le hk with hlt | rfl
    · obtain ⟨t, hread, hlen, hwrote, hat⟩ := h.fread hlt
      by_cases hlfn : (entry k).attributes = tfAttrLongName
      · have hrest : PageFaultOS.lfnRest entry (m + 1) k =
            entry k :: PageFaultOS.lfnRest entry m (k + 1) := if_pos ⟨hlt, hlfn⟩
        rw [hrest, partCopies_cons] at hin ⊢
        obtain ⟨hin1, hin2⟩ := inside_append.mp hin
        obtain ⟨u, hcopy, hwrote', hat'⟩ := hat.copyLfn hbelow hin1
        have hround : lsLfnRound fp n contents user (i, x) s =
            .ok (.inl (i + 1, x + (lfnText (entry k)).length)) u := by
          unfold lsLfnRound
          simp only
          rw [if_neg hi', bind_ok hread, if_neg (by rw [hlen, hlfn]; decide), bind_ok hcopy]
          rfl
        obtain ⟨w, hloop, hwrote'', hnext⟩ := ih fuel hat' hlt (i := i + 1) (by omega) (by omega) hin2
          (x + (lfnText (entry k)).length)
        refine ⟨w, (loop_again hround fuel).trans ?_, (hwrote.trans hwrote').trans hwrote'', ?_⟩
        · rw [hloop, List.length_cons, nameLength_cons, Nat.add_assoc]
          simp only [Nat.add_right_cancel_iff]
        · intro hlength
          rw [List.length_cons] at hlength
          rw [Nat.add_comm m 1, ← Nat.add_assoc]
          exact hnext (Nat.succ_injective hlength)
      · have hrest : PageFaultOS.lfnRest entry (m + 1) k = [] := if_neg fun hgo => hlfn hgo.2
        have hround : lsLfnRound fp n contents user (i, x) s = .ok (.inr none) t := by
          unfold lsLfnRound
          simp only
          rw [if_neg hi', bind_ok hread, if_pos (Or.inr hlfn)]
          rfl
        rw [hrest]
        exact ⟨t, loop_done hround fuel, hwrote,
          fun hlength => absurd hlength (Nat.succ_ne_zero m).symm⟩
    · obtain ⟨e, t, hread, hlen, hwrote⟩ := h.fread_last
      have hrest : PageFaultOS.lfnRest entry (m + 1) lastEntry = [] :=
        if_neg fun hgo => Nat.lt_irrefl _ hgo.1
      have hround : lsLfnRound fp n contents user (i, x) s = .ok (.inr none) t := by
        unfold lsLfnRound
        simp only
        rw [if_neg hi', bind_ok hread, if_pos (Or.inl hlen)]
        rfl
      rw [hrest]
      exact ⟨t, loop_done hround fuel, hwrote,
        fun hlength => absurd hlength (Nat.succ_ne_zero m).symm⟩

/-- A long name, and the entry of its file. -/
theorem ListsAt.lsLfn (h : ListsAt user lo hi s fp entry (k + 1)) (hk : k + 1 ≤ lastEntry)
    {contents : Nat} (hbelow : contents + 2502 < 2 ^ 64)
    (hm : clearFlag e.sequenceNumber 0x40 = m) (hm64 : m < 64)
    (hin : Inside lo hi (partCopies contents (e :: lfnRest entry (m - 1) (k + 1)))) :
    ∃ t, lsLfn fp contents user e s =
        .ok (if (lfnRest entry (m - 1) (k + 1)).length = m - 1 ∧
            k + 1 + (lfnRest entry (m - 1) (k + 1)).length < lastEntry then
          some (entry (k + 1 + (lfnRest entry (m - 1) (k + 1)).length),
            nameLength (e :: lfnRest entry (m - 1) (k + 1))) else none) t ∧
      Wrote user lo hi s t (partCopies contents (e :: lfnRest entry (m - 1) (k + 1))) ∧
      ((lfnRest entry (m - 1) (k + 1)).length = m - 1 ∧
          k + 1 + (lfnRest entry (m - 1) (k + 1)).length < lastEntry →
        ListsAt user lo hi t fp entry (k + 1 + (lfnRest entry (m - 1) (k + 1)).length + 1)) := by
  rw [partCopies_cons] at hin ⊢
  obtain ⟨hin1, hin2⟩ := inside_append.mp hin
  obtain ⟨t, hcopy, hwrote, hat⟩ := h.copyLfn hbelow hin1
  obtain ⟨u, hloop, hwrote', hnext⟩ := hat.rest fileRounds hk (n := m) (i := 1) hbelow rfl
    (Nat.lt_of_lt_of_le (show m - 1 < 64 by omega) (by decide)) hin2 (lfnText e).length
  generalize PageFaultOS.lfnRest entry (m - 1) (k + 1) = rest at hloop hwrote' hnext ⊢
  have hwrote2 := hwrote.trans hwrote'
  unfold PageFaultOS.lsLfn
  rw [hm, bind_ok hcopy, bind_ok hloop, nameLength_cons]
  by_cases hall : rest.length = m - 1
  · rw [if_pos hall]
    obtain ⟨hat', hle⟩ := hnext hall
    rw [← hall] at hat' hle
    rcases Nat.lt_or_eq_of_le hle with hlt | hlast
    · obtain ⟨w, hread, hlength, hwrote'', hat''⟩ := hat'.fread hlt
      refine ⟨w, ?_, ?_, fun _ => hat''⟩
      · simp only
        rw [bind_ok hread, if_neg (not_not_intro hlength), if_pos ⟨hall, hlt⟩]
        rfl
      · have hwrote3 := hwrote2.trans hwrote''
        rwa [List.append_nil] at hwrote3
    · rw [hlast] at hat'
      obtain ⟨e', w, hread, hlength, hwrote''⟩ := hat'.fread_last
      refine ⟨w, ?_, ?_, fun hgo => absurd hgo.2 (by omega)⟩
      · simp only
        rw [bind_ok hread, if_pos hlength, if_neg fun hgo => absurd hgo.2 (by omega)]
        rfl
      · have hwrote3 := hwrote2.trans hwrote''
        rwa [List.append_nil] at hwrote3
  · rw [if_neg hall]
    refine ⟨u, ?_, hwrote2, fun hgo => absurd hgo.1 hall⟩
    rw [if_neg fun hgo => hall hgo.1]
    rfl

/-- The first entry of a long name, for which there seems to be room. -/
theorem found_first (hgo : ¬ (k = lastEntry ∨ entryByte (entry k) 0 = 0 ∨ len ≤ readn + 8))
    (hlfn : ¬ (entry k).attributes ≠ tfAttrLongName)
    (hfirst : (entry k).sequenceNumber &&& 0xc0 = 0x40)
    (hroom : ¬ len ≤ clearFlag (entry k).sequenceNumber 0x40 * 26 + readn) :
    found entry len k readn = .long
      (entry k :: lfnRest entry (clearFlag (entry k).sequenceNumber 0x40 - 1) (k + 1))
      (if (lfnRest entry (clearFlag (entry k).sequenceNumber 0x40 - 1) (k + 1)).length =
          clearFlag (entry k).sequenceNumber 0x40 - 1 ∧
          k + 1 + (lfnRest entry (clearFlag (entry k).sequenceNumber 0x40 - 1) (k + 1)).length <
            lastEntry then
        some (entry (k + 1 +
          (lfnRest entry (clearFlag (entry k).sequenceNumber 0x40 - 1) (k + 1)).length))
      else none) := by
  simp only [found]
  rw [if_neg hgo, if_neg hlfn, if_pos hfirst, if_neg hroom]

theorem reclen_small (hn : n < 1000) : reclen n = 19 + n := Nat.mod_eq_of_lt (by
  simp only [direntBaseLen]
  omega)

theorem u64_small (hn : n < 2 ^ 64) : u64 n = n := Nat.mod_eq_of_lt hn

/-- The records of the code are those of `lsStep`. -/
theorem ListsAt.round (h : ListsAt user lo hi s fp entry k) (hp : Between len (k, readn))
    (hlen : len < 2 ^ 31) (hbase : base + len + 4096 ≤ 2 ^ 64)
    (hin : Inside lo hi (lsStep entry len base (k, readn)).1) :
    ∃ t, lsRound fp len user (base + readn, readn) s =
        .ok ((lsStep entry len base (k, readn)).2.map (fun q => (base + q.2, q.2)) id) t ∧
      Wrote user lo hi s t (lsStep entry len base (k, readn)).1 ∧
      ∀ q, (lsStep entry len base (k, readn)).2 = .inl q → ListsAt user lo hi t fp entry q.1 := by
  obtain ⟨hk, hreadn⟩ := hp
  simp only at hk hreadn
  have haddr : addr64 len = len := by
    rw [addr64]
    omega
  simp only [lsStep] at hin ⊢
  rcases Nat.lt_or_eq_of_le hk with hlt | rfl
  · obtain ⟨t, hread, hlength, hwrote, hat⟩ := h.fread hlt
    have hsmall := (entry k).sequenceNumber_lt
    unfold lsRound
    simp only
    rw [bind_ok hread, if_neg (not_not_intro hlength), haddr]
    by_cases hstop : entryByte (entry k) 0 = 0 ∨ len ≤ readn + 8
    · rw [if_pos hstop, found_stop (Or.inr hstop)]
      exact ⟨t, rfl, hwrote, fun q hq => by cases hq⟩
    rw [if_neg hstop]
    have hgo : ¬ (k = lastEntry ∨ entryByte (entry k) 0 = 0 ∨ len ≤ readn + 8) := by
      rintro (hlast | hstop')
      · exact absurd hlt (by omega)
      · exact hstop hstop'
    rw [not_or, Nat.not_le] at hstop
    by_cases hsfn : (entry k).attributes ≠ tfAttrLongName
    · have hfound : found entry len k readn = .short (entry k) := by
        simp only [found]
        rw [if_neg hgo, if_pos hsfn]
      have hn := sfnName_length_le (entry k)
      rw [hfound] at hin ⊢
      rw [if_pos hsfn]
      obtain ⟨hin1, hin2⟩ := inside_append.mp hin
      obtain ⟨u, hcopy, hwrote1, hat1⟩ := hat.copies
        (copySfn_copies (entry k) (p := base + readn + direntBaseLen)
          (by simp only [direntBaseLen]; omega) hat.writable hin1)
      obtain ⟨w, hheader, hwrote2, hat2⟩ := hat1.header (by omega) hin2
      rw [bind_ok hcopy, bind_ok hheader, reclen_small (by omega)]
      refine ⟨w, ?_, (hwrote.trans hwrote1).trans hwrote2, fun q hq => ?_⟩
      · rw [u64_small (by omega), Nat.add_assoc base]
        rfl
      · cases hq
        exact hat2
    rw [if_neg hsfn]
    by_cases hfirst : (entry k).sequenceNumber &&& 0xc0 = 0x40
    · rw [if_pos hfirst]
      have hm := announced_lt hsmall hfirst
      by_cases hfull : len ≤ clearFlag (entry k).sequenceNumber 0x40 * 26 + readn
      · have hfound : found entry len k readn = .stop := by
          simp only [found]
          rw [if_neg hgo, if_neg hsfn, if_pos hfirst, if_pos hfull]
        rw [hfound, if_pos (Int.ofNat_le.mpr hfull)]
        exact ⟨t, rfl, hwrote, fun q hq => by cases hq⟩
      rw [if_neg fun hge => hfull (Int.ofNat_le.mp hge)]
      have hfound := found_first hgo hsfn hfirst hfull
      rw [hfound] at hin ⊢
      have hn := nameLength_le (entry k ::
        lfnRest entry (clearFlag (entry k).sequenceNumber 0x40 - 1) (k + 1))
      have hrest := lfnRest_length_le entry (clearFlag (entry k).sequenceNumber 0x40 - 1) (k + 1)
      rw [List.length_cons] at hn
      have hbelow : base + readn + 2502 < 2 ^ 64 := by omega
      have hparts := hat.lsLfn (e := entry k) hlt hbelow rfl hm
      generalize PageFaultOS.lfnRest entry
        (clearFlag (entry k).sequenceNumber 0x40 - 1) (k + 1) = rest at hin hn hrest hparts ⊢
      by_cases hall : rest.length = clearFlag (entry k).sequenceNumber 0x40 - 1 ∧
          k + 1 + rest.length < lastEntry
      · rw [if_pos hall] at hin hparts ⊢
        obtain ⟨hin1, hin2⟩ := inside_append.mp hin
        obtain ⟨u, hrun, hwrote1, hat1⟩ := hparts hin1
        obtain ⟨w, hheader, hwrote2, hat2⟩ := (hat1 hall).header (by omega) hin2
        rw [bind_ok hrun]
        simp only
        rw [bind_ok hheader, reclen_small (by omega)]
        refine ⟨w, ?_, (hwrote.trans hwrote1).trans hwrote2, fun q hq => ?_⟩
        · rw [u64_small (by omega), Nat.add_assoc base]
          rfl
        · cases hq
          simp only [List.length_cons]
          exact hat2
      · rw [if_neg hall] at hin hparts ⊢
        obtain ⟨u, hrun, hwrote1, _⟩ := hparts hin
        rw [bind_ok hrun]
        exact ⟨u, rfl, hwrote.trans hwrote1, fun q hq => by cases hq⟩
    · have hfound : found entry len k readn = .other := by
        simp only [found]
        rw [if_neg hgo, if_neg hsfn, if_neg hfirst]
      rw [hfound, if_neg hfirst]
      refine ⟨t, rfl, hwrote, fun q hq => ?_⟩
      cases hq
      exact hat
  · obtain ⟨e, t, hread, hlength, hwrote⟩ := h.fread_last
    rw [found_stop (Or.inl rfl)]
    refine ⟨t, ?_, hwrote, fun q hq => by cases hq⟩
    unfold lsRound
    simp only
    rw [bind_ok hread, if_pos hlength]
    rfl

/-- The whole loop. -/
theorem ListsAt.listing (hemits : Emits (lsStep entry len base) p l r) (fuel : Nat)
    (h : ListsAt user lo hi s fp entry p.1) (hp : Between len p) (hlen : len < 2 ^ 31)
    (hbase : base + len + 4096 ≤ 2 ^ 64) (hfuel : lastEntry < p.1 + fuel) (hin : Inside lo hi l) :
    ∃ t, loop (lsRound fp len user) fuel (base + p.2, p.2) s = .ok r t ∧ Wrote user lo hi s t l := by
  induction hemits generalizing s fuel with
  | @stop p l r hstop =>
    obtain ⟨fuel, rfl⟩ : ∃ n, fuel = n + 1 :=
      Nat.exists_eq_succ_of_ne_zero fun hzero => absurd hp.1 (by omega)
    obtain ⟨t, hround, hwrote, _⟩ := h.round hp hlen hbase (by rwa [hstop])
    rw [hstop] at hround hwrote
    exact ⟨t, loop_done hround fuel, hwrote⟩
  | @next p q l l' r hnext _ ih =>
    obtain ⟨fuel, rfl⟩ : ∃ n, fuel = n + 1 :=
      Nat.exists_eq_succ_of_ne_zero fun hzero => absurd hp.1 (by omega)
    obtain ⟨hin1, hin2⟩ := inside_append.mp hin
    obtain ⟨t, hround, hwrote, hat⟩ := h.round hp hlen hbase (by rwa [hnext])
    have hto : (lsStep entry len base p).2 = .inl q := by rw [hnext]
    obtain ⟨hq, hlt, _⟩ := hp.next hto
    rw [hnext] at hround hwrote hat
    obtain ⟨u, hloop, hwrote'⟩ := ih fuel (hat q rfl) hq (by omega) hin2
    exact ⟨u, (loop_again hround fuel).trans hloop, hwrote.trans hwrote'⟩

/-- The rounds come to an end. -/
theorem lsStep_emits (entry : Nat → FatFileEntry) (base : Nat) (hp : Between len p) :
    ∃ l r, Emits (lsStep entry len base) p l r :=
  emits_of_measure (I := Between len) (fun p => lastEntry - p.1) (fun p q hp hnext => by
    obtain ⟨hq, hlt, _⟩ := hp.next hnext
    have := hq.1
    exact ⟨hq, by omega⟩) hp

end PageFaultOS
