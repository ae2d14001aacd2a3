import Mathlib.Tactic
import PageFaultOS.Fs.Items

/-! Looking for a name in a directory of all kinds of entries. `tf_find_file` goes on behind each
entry that it does not take for the name, and ends at a long-name entry which is not the first one
of a long name, also where that is a deleted entry. -/

namespace PageFaultOS
open Exec Exec.Comp ByteMem

/-! ## The scan -/

/-- What is at entry `k` is taken for the name, and what is found is entry `j`. -/
def AcceptedAt (entry : Nat → FatFileEntry) (name : CStr) (k j : Nat) : Prop :=
  (ShortMatch (entry k) name ∧ j = k) ∨
    ∃ n, LongNameAt entry k n ∧ TakenFor entry k n name ∧ j = k + n

/-- The end of a directory, and the long-name entries that are not the first ones of a name. -/
def EndsScan (e : FatFileEntry) : Prop :=
  entryByte e 0 = 0 ∨ e.attributes = tfAttrLongName ∧ e.sequenceNumber &&& 0xc0 ≠ 0x40

/-- The scan comes to an entry: it goes on behind an 8.3 entry and behind a long name, as long as
it is not taken for the name. -/
inductive ScansTo (entry : Nat → FatFileEntry) (name : CStr) : Nat → Prop
  | first : ScansTo entry name 0
  | short {k : Nat} (h : ScansTo entry name k) (hused : entryByte (entry k) 0 ≠ 0)
      (hshort : (entry k).attributes ≠ tfAttrLongName)
      (hdiff : tfCompareFilenameSegment (entry k) name = false) : ScansTo entry name (k + 1)
  | long {k n : Nat} (h : ScansTo entry name k) (hlong : LongNameAt entry k n)
      (hdiff : ¬ TakenFor entry k n name) : ScansTo entry name (k + max n 1)

/-- All that the scan looks at is on the chain. -/
structure StaysIn (shape : TFShape) (cs : List Nat) (entry : Nat → FatFileEntry) (name : CStr) :
    Prop where
  scanned : ∀ k, ScansTo entry name k → HasRoom shape cs (k + 1)
  accepted : ∀ k j, ScansTo entry name k → AcceptedAt entry name k j → HasRoom shape cs (j + 1)

/-- Entry `k` is the first one of a long name of single-byte characters, or an 8.3 entry without
a space inside its name, of a live file. -/
def PlainAt (items : List DirItem) (k : Nat) : Prop :=
  ∃ a chain e, BeginsAt items a (.file chain e) ∧
    (k = a ∧ chain ≠ [] ∧ (∃ s, ByteName chain s) ∨ k = a + chain.length ∧ NoGap e)

/-- Nothing else that the scan comes to is taken for the name, unless it leads to a file with the
name. -/
def NoneMistaken (entry : Nat → FatFileEntry) (items : List DirItem) (name : CStr) : Prop :=
  ∀ k j, ScansTo entry name k → ¬ PlainAt items k → AcceptedAt entry name k j →
    CarriedAt items name j

/-- Where there is a file with the name, no entry that the scan comes to ends it. -/
def NotEnded (entry : Nat → FatFileEntry) (items : List DirItem) (name : CStr) : Prop :=
  (∃ j, CarriedAt items name j) → ∀ k, ScansTo entry name k → ¬ EndsScan (entry k)

/-- Items that do not disturb the search: files whose names are of single-byte characters and
have no space inside the 8.3 name, and deleted 8.3 entries that are not taken for the name. -/
def DirItem.Plain (name : CStr) : DirItem → Prop
  | .file chain e => NoGap e ∧ ∃ s, ByteName chain s
  | .deleted e => e.attributes ≠ tfAttrLongName ∧ tfCompareFilenameSegment e name = false
  | .orphan _ => False

/-- The items are plain as far as the first file with the name. -/
def PlainUpTo (name : CStr) : List DirItem → Prop
  | [] => True
  | x :: items => x.Plain name ∧ (x.Carries name ∨ PlainUpTo name items)

variable {s : Fat32} {fp k j n : Nat} {f : TFFile} {cs : List Nat} {shape : TFShape}
  {entry : Nat → FatFileEntry} {name : CStr} {chain : List FatFileEntry} {e : FatFileEntry}
  {items : List DirItem}

/-! ## Where the scan comes to -/

theorem AcceptedAt.compareAt (h : AcceptedAt entry name k j) :
    compareAt entry name k = .found j := by
  rcases h with ⟨hshort, rfl⟩ | ⟨n, hlong, htaken, rfl⟩
  · exact compareAt_short hshort
  · rw [compareAt_long hlong, if_pos htaken]

theorem EndsScan.compareAt (h : EndsScan (entry k)) : compareAt entry name k = .stop := by
  unfold PageFaultOS.compareAt
  simp only
  by_cases hend : entryByte (entry k) 0 = 0
  · rw [if_pos hend]
  · obtain ⟨hlong, hseq⟩ := h.resolve_left hend
    rw [if_neg hend, if_neg (not_not_intro hlong), if_neg hseq]

/-- What the scan makes of an entry. -/
theorem compareAt_kinds (entry : Nat → FatFileEntry) (name : CStr) (k : Nat) :
    (EndsScan (entry k) ∧ compareAt entry name k = .stop) ∨
    (∃ j, AcceptedAt entry name k j ∧ compareAt entry name k = .found j) ∨
    (∃ j, compareAt entry name k = .next j ∧ (ScansTo entry name k → ScansTo entry name j)) := by
  by_cases hend : EndsScan (entry k)
  · exact Or.inl ⟨hend, hend.compareAt⟩
  obtain ⟨hused, hinner⟩ := not_or.mp hend
  by_cases hshort : (entry k).attributes ≠ tfAttrLongName
  · cases hseg : tfCompareFilenameSegment (entry k) name with
    | true =>
      have haccepted : AcceptedAt entry name k k := Or.inl ⟨⟨hused, hshort, hseg⟩, rfl⟩
      exact Or.inr (Or.inl ⟨k, haccepted, haccepted.compareAt⟩)
    | false =>
      have hnext : compareAt entry name k = .next (k + 1) := by
        unfold compareAt
        simp only
        rw [if_neg hused, if_pos hshort, hseg]
        rfl
      exact Or.inr (Or.inr ⟨k + 1, hnext, fun h => h.short hused hshort hseg⟩)
  · have hlong := not_not.mp hshort
    have hseq : (entry k).sequenceNumber &&& 0xc0 = 0x40 := by
      by_contra hseq
      exact hinner ⟨hlong, hseq⟩
    have hn : LongNameAt entry k (clearFlag (entry k).sequenceNumber 0x40) :=
      ⟨hused, hlong, hseq, rfl⟩
    by_cases htaken : TakenFor entry k (clearFlag (entry k).sequenceNumber 0x40) name
    · have haccepted : AcceptedAt entry name k _ := Or.inr ⟨_, hn, htaken, rfl⟩
      exact Or.inr (Or.inl ⟨_, haccepted, haccepted.compareAt⟩)
    · refine Or.inr (Or.inr ⟨_, ?_, fun h => h.long hn htaken⟩)
      rw [compareAt_long hn, if_neg htaken]

/-- The scan goes on from entry `i` to entry `j`. -/
def GoesOn (entry : Nat → FatFileEntry) (name : CStr) (i j : Nat) : Prop :=
  compareAt entry name i = .next j

theorem ScansTo.reaches (h : ScansTo entry name k) :
    Relation.ReflTransGen (GoesOn entry name) 0 k := by
  induction h with
  | first => exact .refl
  | short _ hused hshort hdiff ih =>
    refine ih.tail ?_
    unfold GoesOn compareAt
    simp only
    rw [if_neg hused, if_pos hshort, hdiff]
    rfl
  | long _ hlong hdiff ih =>
    refine ih.tail ?_
    unfold GoesOn
    rw [compareAt_long hlong, if_neg hdiff]

theorem goesOn_unique : Relator.RightUnique (GoesOn entry name) := by
  intro i j j' h h'
  cases h.symm.trans h'
  rfl

/-- The scan comes to at most one entry from which it does not go on. -/
theorem ScansTo.unique (hk : ScansTo entry name k) (hj : ScansTo entry name j)
    (hstay : ∀ i, compareAt entry name k ≠ .next i)
    (hstay' : ∀ i, compareAt entry name j ≠ .next i) : k = j := by
  rcases hk.reaches.total_of_right_unique goesOn_unique hj.reaches with h | h
  · rcases h.cases_head with heq | ⟨i, hi, _⟩
    · exact heq
    · exact absurd hi (hstay i)
  · rcases h.cases_head with heq | ⟨i, hi, _⟩
    · exact heq.symm
    · exact absurd hi (hstay' i)

/-- The search ends at an entry that the scan comes to. -/
theorem search_scansTo (hstays : StaysIn shape cs entry name) (hk : ScansTo entry name k)
    (hfuel : 2 ^ 27 ≤ k + n) :
    ∃ i, ScansTo entry name i ∧
      ((EndsScan (entry i) ∧ search shape cs entry name n k = .missing) ∨
        ∃ j, AcceptedAt entry name i j ∧ search shape cs entry name n k = .found j) := by
  induction n generalizing k with
  | zero =>
    have hroom := hstays.scanned k hk
    unfold HasRoom at hroom
    omega
  | succ n ih =>
    have hroom := hstays.scanned k hk
    unfold search
    rw [if_neg (not_not_intro hroom)]
    rcases compareAt_kinds entry name k with ⟨hend, hc⟩ | ⟨j, haccepted, hc⟩ | ⟨j, hc, hgo⟩
    · exact ⟨k, hk, Or.inl ⟨hend, by rw [hc]⟩⟩
    · refine ⟨k, hk, Or.inr ⟨j, haccepted, ?_⟩⟩
      simp only [hc]
      rw [if_pos (hstays.accepted k j hk haccepted)]
    · have hj := hgo hk
      have hlt := compareAt_next hc
      simp only [hc]
      rw [if_pos ((hstays.scanned j hj).le (Nat.le_succ j))]
      exact ih hj (by omega)

/-- No search leaves a directory whose long names do not go on behind its end. -/
theorem EndsAt.staysIn {m : Nat} (h : EndsAt shape cs entry m) (name : CStr) :
    StaysIn shape cs entry name := by
  have hle : ∀ k, ScansTo entry name k → k ≤ m := by
    intro k hk
    induction hk with
    | first => exact Nat.zero_le m
    | @short k _ hused _ _ ih =>
      have hne : k ≠ m := fun heq => hused (heq ▸ h.mark)
      omega
    | @long k n _ hlong _ ih =>
      have hne : k ≠ m := fun heq => hlong.used (heq ▸ h.mark)
      have hbound := h.names k (by omega) n hlong
      omega
  refine ⟨fun k hk => h.room.le (Nat.add_le_add_right (hle k hk) 1), fun k j hk haccepted => ?_⟩
  have hin := hle k hk
  rcases haccepted with ⟨_, rfl⟩ | ⟨n, hlong, _, rfl⟩
  · exact h.room.le (Nat.add_le_add_right hin 1)
  · have hne : k ≠ m := fun heq => hlong.used (heq ▸ h.mark)
    have hbound := h.names k (by omega) n hlong
    exact h.room.le (Nat.add_le_add_right hbound 1)

/-- The scan comes to something that is taken for the name. -/
def FindsName (entry : Nat → FatFileEntry) (name : CStr) : Prop :=
  ∃ k j, ScansTo entry name k ∧ AcceptedAt entry name k j

/-- The search finds something just where the scan does. -/
theorem search_cases_of_stays (hstays : StaysIn shape cs entry name) :
    (FindsName entry name ∧ ∃ j, search shape cs entry name (2 ^ 27) 0 = .found j) ∨
      (¬ FindsName entry name ∧ search shape cs entry name (2 ^ 27) 0 = .missing) := by
  obtain ⟨i, hi, ⟨hend, hmissing⟩ | ⟨j, haccepted, hfound⟩⟩ :=
    search_scansTo (n := 2 ^ 27) hstays .first (Nat.le_add_left _ _)
  · refine Or.inr ⟨?_, hmissing⟩
    rintro ⟨k, j, hk, haccepted⟩
    have hc := haccepted.compareAt
    have hc' : compareAt entry name i = .stop := hend.compareAt
    have heq := hk.unique hi (fun _ h => by cases hc.symm.trans h) fun _ h => by
      cases hc'.symm.trans h
    subst heq
    cases hc.symm.trans hc'
  · exact Or.inl ⟨⟨i, j, hi, haccepted⟩, j, hfound⟩

/-- A plain entry is taken for the name of its file only. -/
theorem PlainAt.carriedAt (hvalid : ∀ x ∈ items, x.Valid) (hname : IsComponent name)
    (hentries : EntriesAt entry 0 (dirEntries items)) (hplain : PlainAt items k)
    (h : AcceptedAt entry name k j) : CarriedAt items name j := by
  obtain ⟨a, chain, e, hbegins, hk⟩ := hplain
  obtain ⟨hchain, hlive⟩ := hvalid _ hbegins.mem
  obtain ⟨hstored, hentry⟩ := entriesAt_append.mp (hbegins.entriesAt hentries)
  rw [entriesAt_singleton] at hentry
  have hcompare := h.compareAt
  rcases hk with ⟨rfl, hne, b, hb⟩ | ⟨rfl, hgap⟩
  · rw [hchain.compareAt hb hstored hne hname] at hcompare
    split at hcompare
    · rename_i hsame
      cases hcompare
      exact ⟨k, chain, e, hbegins, Or.inl ⟨b, hb, hsame⟩, rfl⟩
    · cases hcompare
  · rw [hlive.compareAt hgap hentry hname] at hcompare
    split at hcompare
    · rename_i hsame
      cases hcompare
      exact ⟨a, chain, e, hbegins, Or.inr hsame, rfl⟩
    · cases hcompare

/-! ## Plain directories -/

theorem search_step_found (hroom : HasRoom shape cs (k + 1)) (h : compareAt entry name k = .found j)
    (hj : HasRoom shape cs (j + 1)) : search shape cs entry name (n + 1) k = .found j := by
  unfold search
  rw [if_neg (not_not_intro hroom)]
  simp only [h]
  rw [if_pos hj]

theorem search_step_next (hroom : HasRoom shape cs (k + 1)) (h : compareAt entry name k = .next j)
    (hj : HasRoom shape cs j) :
    search shape cs entry name (n + 1) k = search shape cs entry name n j := by
  rw [search, if_neg (not_not_intro hroom)]
  simp only [h]
  rw [if_pos hj]

theorem search_step_stop (hroom : HasRoom shape cs (k + 1)) (h : compareAt entry name k = .stop) :
    search shape cs entry name (n + 1) k = .missing := by
  unfold search
  rw [if_neg (not_not_intro hroom)]
  simp only [h]

/-- A file is found by its names, and left behind by all others. -/
theorem search_file (hchain : LiveChain chain e) (hlive : LiveEntry e) (hgap : NoGap e) {b : CStr}
    (hb : ByteName chain b) (hname : IsComponent name) (hentries : EntriesAt entry k (chain ++ [e]))
    (hroom : HasRoom shape cs (k + chain.length + 1)) (hfuel : chain.length + 1 < n) :
    ((DirItem.file chain e).Carries name →
      search shape cs entry name n k = .found (k + chain.length)) ∧
    (¬ (DirItem.file chain e).Carries name → ∃ m, n ≤ m + (chain.length + 1) ∧
      search shape cs entry name n k = search shape cs entry name m (k + chain.length + 1)) := by
  obtain ⟨hstored, hentry⟩ := entriesAt_append.mp hentries
  rw [entriesAt_singleton] at hentry
  have hcompare := hlive.compareAt hgap hentry hname
  have hcarries : (DirItem.file chain e).Carries name ↔
      SameFolded name b ∨ SameFolded name (trimmedName e) := by
    have hunique : ∀ c, ByteName chain c → c = b := by
      intro c hc
      refine List.map_injective_iff.mpr (fun x y h => UInt8.toNat_inj.mp h) ?_
      exact hc.symm.trans hb
    constructor
    · rintro (⟨c, hc, hsame⟩ | hsame)
      · exact Or.inl (hunique c hc ▸ hsame)
      · exact Or.inr hsame
    · rintro (hsame | hsame)
      · exact Or.inl ⟨b, hb, hsame⟩
      · exact Or.inr hsame
  -- the 8.3 entry, which the scan comes to unless the long name is taken
  have hshort : ∀ m, 0 < m →
      (SameFolded name (trimmedName e) → search shape cs entry name m (k + chain.length) =
        .found (k + chain.length)) ∧
      (¬ SameFolded name (trimmedName e) → ∃ m', m = m' + 1 ∧
        search shape cs entry name m (k + chain.length) =
          search shape cs entry name m' (k + chain.length + 1)) := by
    intro m hm
    obtain ⟨m, rfl⟩ := Nat.exists_eq_succ_of_ne_zero (Nat.ne_of_gt hm)
    refine ⟨fun hsame => ?_, fun hsame => ⟨m, rfl, ?_⟩⟩
    · rw [if_pos hsame] at hcompare
      exact search_step_found hroom hcompare hroom
    · rw [if_neg hsame] at hcompare
      exact search_step_next hroom hcompare hroom
  by_cases hne : chain = []
  · subst hne
    have hlong : ¬ SameFolded name b := by
      have hnil : b = [] := List.map_eq_nil_iff.mp hb.symm
      rw [hnil]
      intro hsame
      exact hname.nonempty (List.map_eq_nil_iff.mp hsame)
    rw [hcarries, or_iff_right hlong]
    refine ⟨(hshort n (by omega)).1, fun hsame => ?_⟩
    obtain ⟨m, rfl, hrest⟩ := (hshort n (by omega)).2 hsame
    exact ⟨m, Nat.le_refl _, hrest⟩
  · have hpos := List.length_pos_of_ne_nil hne
    obtain ⟨n, rfl⟩ := Nat.exists_eq_succ_of_ne_zero (Nat.ne_zero_of_lt hfuel)
    have hhead := hchain.compareAt hb hstored hne hname
    have hroom' : HasRoom shape cs (k + 1) := hroom.le (by omega)
    rw [hcarries]
    by_cases hlong : SameFolded name b
    · rw [if_pos hlong] at hhead
      refine ⟨fun _ => search_step_found hroom' hhead hroom, fun hnot => ?_⟩
      exact absurd (Or.inl hlong) hnot
    · rw [if_neg hlong] at hhead
      rw [or_iff_right hlong, search_step_next hroom' hhead (hroom.le (Nat.le_succ _))]
      refine ⟨(hshort n (by omega)).1, fun hsame => ?_⟩
      obtain ⟨m, rfl, hrest⟩ := (hshort n (by omega)).2 hsame
      exact ⟨m, by omega, hrest⟩

/-- Where all is plain up to the first file with the name the search finds this one. -/
theorem search_plain (hname : IsComponent name) (hvalid : ∀ x ∈ items, x.Valid)
    (hplain : PlainUpTo name items) (hentries : EntriesAt entry k (dirEntries items))
    (hends : entryByte (entry (k + (dirEntries items).length)) 0 = 0)
    (hroom : HasRoom shape cs (k + (dirEntries items).length + 1))
    (hfuel : (dirEntries items).length < n) :
    (∃ j, CarriedAt items name j ∧ search shape cs entry name n k = .found (k + j)) ∨
      ((∀ j, ¬ CarriedAt items name j) ∧ search shape cs entry name n k = .missing) := by
  induction items generalizing k n with
  | nil =>
    obtain ⟨n, rfl⟩ := Nat.exists_eq_succ_of_ne_zero (Nat.ne_zero_of_lt hfuel)
    have hnone : ∀ j, ¬ CarriedAt [] name j := by
      rintro j ⟨i, chain, e, ⟨front, back, hsplit, _⟩, _⟩
      simp at hsplit
    exact Or.inr ⟨hnone, search_step_stop hroom (EndsScan.compareAt (Or.inl hends))⟩
  | cons x items ih =>
    obtain ⟨hx, hrest⟩ := hplain
    have hlen : (dirEntries (x :: items)).length = x.entries.length + (dirEntries items).length := by
      simp [dirEntries]
    have hsplit : dirEntries (x :: items) = x.entries ++ dirEntries items := rfl
    rw [hsplit, entriesAt_append] at hentries
    rw [hlen] at hends hroom hfuel
    -- where the search goes on behind the item
    have hbehind : ∀ m, n ≤ m + x.entries.length → ¬ x.Carries name →
        search shape cs entry name n k =
          search shape cs entry name m (k + x.entries.length) →
        (∃ j, CarriedAt (x :: items) name j ∧ search shape cs entry name n k = .found (k + j)) ∨
          ((∀ j, ¬ CarriedAt (x :: items) name j) ∧
            search shape cs entry name n k = .missing) := by
      intro m hm hnot hsearch
      rw [hsearch]
      rcases ih (fun y hy => hvalid y (List.mem_cons_of_mem _ hy)) (hrest.resolve_left hnot)
        hentries.2 (by rw [Nat.add_assoc]; exact hends) (by rw [Nat.add_assoc k]; exact hroom)
        (n := m) (by omega) with ⟨j, hj, hfound⟩ | ⟨hnone, hmissing⟩
      · refine Or.inl ⟨x.entries.length + j, carriedAt_cons.mpr (Or.inr ⟨j, hj, rfl⟩), ?_⟩
        rw [hfound, Nat.add_assoc]
      · refine Or.inr ⟨fun j hj => ?_, hmissing⟩
        rcases carriedAt_cons.mp hj with ⟨hc, _⟩ | ⟨i, hi, _⟩
        · exact hnot hc
        · exact hnone i hi
    cases x with
    | file chain e =>
      obtain ⟨hgap, b, hb⟩ := hx
      obtain ⟨hchain, hlive⟩ := hvalid _ List.mem_cons_self
      have hcount : (DirItem.file chain e).entries.length = chain.length + 1 := by
        simp [DirItem.entries]
      rw [hcount] at hroom hfuel hbehind
      obtain ⟨hfound, hnext⟩ := search_file (n := n) hchain hlive hgap hb hname hentries.1
        (hroom.le (by omega)) (by omega)
      by_cases hcarries : (DirItem.file chain e).Carries name
      · refine Or.inl ⟨chain.length, carriedAt_cons.mpr (Or.inl ⟨hcarries, hcount.symm⟩), ?_⟩
        exact hfound hcarries
      · obtain ⟨m, hm, hsearch⟩ := hnext hcarries
        exact hbehind m hm hcarries hsearch
    | deleted e =>
      obtain ⟨hshort, hdiff⟩ := hx
      have hmark : entryByte e 0 = 0xe5 := hvalid _ List.mem_cons_self
      obtain ⟨n, rfl⟩ := Nat.exists_eq_succ_of_ne_zero (Nat.ne_zero_of_lt hfuel)
      have hentry : entry k = e := entriesAt_singleton.mp hentries.1
      have hcompare : compareAt entry name k = .next (k + 1) := by
        unfold compareAt
        simp only
        rw [hentry, hmark, if_neg (by decide), if_pos hshort, hdiff]
        rfl
      have hcount : (DirItem.deleted e).entries.length = 1 := rfl
      rw [hcount] at hroom hfuel hbehind
      refine hbehind n (Nat.le_refl _) (fun h => h) ?_
      exact search_step_next (hroom.le (by omega)) hcompare (hroom.le (by omega))
    | orphan e => exact absurd hx id

/-! ## Finding -/

/-- `tf_find_file` returns `0` and leaves the handle at the 8.3 entry of a file with the name, or
returns `-1` where there is none. -/
def LookupRight (s : Fat32) (fp : Nat) (cs : List Nat) (f : TFFile) (items : List DirItem)
    (name : CStr) : Prop :=
  ∃ rc t, tfFindFile fp name s = .ok rc t ∧
    ((rc = 0 ∧ ∃ j, CarriedAt items name j ∧
      t.handles fp = moveTo s.info.shape cs (32 * j) f) ∨
    (rc = -1 ∧ ∀ j, ¬ CarriedAt items name j))

theorem lookupRight_iff (hname : name ≠ []) (h : InDir s fp cs f k) {r : Searched}
    (hn : n + 1 ≤ fileRounds)
    (hr : search s.info.shape cs (dirEntry s.info.shape s.volume cs) name (n + 1) 0 = r)
    (hlost : r ≠ .lost) :
    LookupRight s fp cs f items name ↔
      (∃ j, CarriedAt items name j ∧ r = .found j) ∨
        ((∀ j, ¬ CarriedAt items name j) ∧ r = .missing) := by
  obtain ⟨t, i, hfind, hmoved, hi⟩ := tfFindFile_run hname h hn hr hlost
  constructor
  · rintro ⟨rc, u, hrun, hright⟩
    rw [hfind] at hrun
    cases hrun
    cases r with
    | lost => exact absurd rfl hlost
    | missing =>
      rcases hright with ⟨hrc, _⟩ | ⟨_, hnone⟩
      · cases hrc
      · exact Or.inr ⟨hnone, rfl⟩
    | found i' =>
      rcases hright with ⟨_, j, hj, hfile⟩ | ⟨hrc, _⟩
      · rw [hmoved.file, (hi i' rfl).1] at hfile
        have hpos : 32 * i' = 32 * j := congrArg TFFile.pos hfile
        have heq : i' = j := by omega
        exact Or.inl ⟨j, hj, heq ▸ rfl⟩
      · cases hrc
  · rintro (⟨j, hj, rfl⟩ | ⟨hnone, rfl⟩)
    · refine ⟨_, t, hfind, Or.inl ⟨rfl, j, hj, ?_⟩⟩
      rw [hmoved.file, (hi j rfl).1]
    · exact ⟨_, t, hfind, Or.inr ⟨rfl, hnone⟩⟩

/-- In terms of the entries that the scan comes to. -/
theorem search_right_iff (hvalid : ∀ x ∈ items, x.Valid) (hname : IsComponent name)
    (hentries : EntriesAt entry 0 (dirEntries items)) (hstays : StaysIn shape cs entry name) :
    ((∃ j, CarriedAt items name j ∧ search shape cs entry name (2 ^ 27) 0 = .found j) ∨
      ((∀ j, ¬ CarriedAt items name j) ∧ search shape cs entry name (2 ^ 27) 0 = .missing)) ↔
      NoneMistaken entry items name ∧ NotEnded entry items name := by
  obtain ⟨i, hi, hlast⟩ := search_scansTo (n := 2 ^ 27) hstays .first (Nat.le_add_left _ _)
  constructor
  · intro hright
    refine ⟨fun k j hk _ haccepted => ?_, fun hcarried k hk hend => ?_⟩
    · -- the scan ends where it accepts
      have hc := haccepted.compareAt
      rcases hlast with ⟨hend, _⟩ | ⟨j', haccepted', hfound⟩
      · have heq := hk.unique hi (fun _ h => by cases hc.symm.trans h) fun _ h => by
          cases hend.compareAt.symm.trans h
        subst heq
        cases hc.symm.trans hend.compareAt
      · have hc' := haccepted'.compareAt
        have heq := hk.unique hi (fun _ h => by cases hc.symm.trans h) fun _ h => by
          cases hc'.symm.trans h
        subst heq
        cases hc.symm.trans hc'
        rcases hright with ⟨m, hm, hfound'⟩ | ⟨_, hmissing⟩
        · cases hfound.symm.trans hfound'
          exact hm
        · cases hfound.symm.trans hmissing
    · obtain ⟨j, hj⟩ := hcarried
      have hc : compareAt entry name k = .stop := hend.compareAt
      rcases hlast with ⟨_, hmissing⟩ | ⟨j', haccepted, hfound⟩
      · rcases hright with ⟨_, _, hfound⟩ | ⟨hnone, _⟩
        · cases hmissing.symm.trans hfound
        · exact hnone j hj
      · have hc' := haccepted.compareAt
        have heq := hk.unique hi (fun _ h => by cases hc.symm.trans h) fun _ h => by
          cases hc'.symm.trans h
        subst heq
        cases hc.symm.trans hc'
  · rintro ⟨hmistaken, hended⟩
    rcases hlast with ⟨hend, hmissing⟩ | ⟨j, haccepted, hfound⟩
    · exact Or.inr ⟨fun j hj => hended ⟨j, hj⟩ i hi hend, hmissing⟩
    · refine Or.inl ⟨j, ?_, hfound⟩
      by_cases hplain : PlainAt items i
      · exact hplain.carriedAt hvalid hname hentries haccepted
      · exact hmistaken i j hi hplain haccepted

/-- `tf_find_file` finds the files of a directory by their names and nothing else if and only if
nothing that the scan comes to is mistaken for the name, and no deleted or orphaned long-name entry
ends the scan where there is a file with the name. All is right where the items up to that file are
plain. -/
theorem tfFindFile_complete_iff (hvalid : ∀ x ∈ items, x.Valid) (hname : IsComponent name)
    (h : InDir s fp cs f k) (hholds : HoldsItems s.info.shape s.volume cs items) :
    (StaysIn s.info.shape cs (dirEntry s.info.shape s.volume cs) name →
      (LookupRight s fp cs f items name ↔
        NoneMistaken (dirEntry s.info.shape s.volume cs) items name ∧
        NotEnded (dirEntry s.info.shape s.volume cs) items name)) ∧
    (PlainUpTo name items → LookupRight s fp cs f items name) := by
  have hrounds : (2 ^ 27 - 1) + 1 ≤ fileRounds := by decide
  refine ⟨fun hstays => ?_, fun hplain => ?_⟩
  · have hlost : search s.info.shape cs (dirEntry s.info.shape s.volume cs) name (2 ^ 27) 0 ≠
        .lost := by
      obtain ⟨i, _, ⟨_, hr⟩ | ⟨j, _, hr⟩⟩ := search_scansTo (n := 2 ^ 27) hstays .first
        (Nat.le_add_left _ _)
      · rw [hr]
        simp
      · rw [hr]
        simp
    rw [lookupRight_iff hname.nonempty h hrounds rfl hlost]
    exact search_right_iff hvalid hname hholds.entries hstays
  · have hroom : HasRoom s.info.shape cs (0 + (dirEntries items).length + 1) := by
      rw [Nat.zero_add]
      exact hholds.room
    have hbound : (dirEntries items).length < 2 ^ 27 := by
      have hin := hholds.room
      unfold HasRoom at hin
      omega
    have hsearch := search_plain hname hvalid hplain hholds.entries
      (by rw [Nat.zero_add]; exact hholds.ends) hroom hbound
    rw [lookupRight_iff hname.nonempty h hrounds rfl]
    · simp only [Nat.zero_add] at hsearch
      exact hsearch
    · rcases hsearch with ⟨j, _, hr⟩ | ⟨_, hr⟩
      · exact fun hl => by cases hr.symm.trans hl
      · exact fun hl => by cases hr.symm.trans hl

/-! ## Two directories -/

/-- A file with the long name `ab`, behind a deleted one. -/
def plainItems : List DirItem :=
  [.deleted deletedA, .file [lfnEntry [0x61, 0x62] 0x41 (tfLfnChecksum (entryA.take 11)) 0] entryA]

theorem plainItems_valid : ∀ x ∈ plainItems, x.Valid := by
  intro x hx
  rcases List.mem_pair.mp hx with rfl | rfl
  · exact (by decide : entryByte deletedA 0 = 0xe5)
  · exact ⟨⟨by decide, by decide, by decide, by decide,
      by decide⟩, liveEntry_entryA⟩

theorem rootVolume_holds_plain : HoldsItems (rootVolume (dirEntries plainItems)).info.shape
    (rootVolume (dirEntries plainItems)).volume [2] plainItems :=
  ⟨by decide, by decide, by decide⟩

theorem tfFindFile_complete_plain :
    LookupRight (rootVolume (dirEntries plainItems)) 0 [2] notesFile plainItems [0x41, 0x42] :=
  (tfFindFile_complete_iff plainItems_valid ⟨by decide, by decide, by decide⟩
    (rootVolume_inDir _) rootVolume_holds_plain).2
      ⟨⟨by decide, by decide⟩, Or.inr ⟨⟨by decide, [0x61, 0x62], by decide +kernel⟩,
        Or.inl (Or.inl ⟨[0x61, 0x62], by decide +kernel, by decide⟩)⟩⟩

/-- The file `A`, behind the long-name entry of a deleted file. -/
def hiddenItems : List DirItem := [.deleted deletedLong, .file [] entryA]

/-- The deleted entry ends the search. -/
theorem tfFindFile_deleted_long : ¬ ∀ (s : Fat32) (fp : Nat) (cs : List Nat) (f : TFFile) (k : Nat)
    (items : List DirItem) (name : CStr), (∀ x ∈ items, x.Valid) → IsComponent name →
    InDir s fp cs f k → HoldsItems s.info.shape s.volume cs items →
    LookupRight s fp cs f items name := by
  intro hall
  have hvalid : ∀ x ∈ hiddenItems, x.Valid := by
    intro x hx
    rcases List.mem_pair.mp hx with rfl | rfl
    · exact (by decide : entryByte deletedLong 0 = 0xe5)
    · exact ⟨⟨by decide, by decide, by decide, by decide, by decide⟩, liveEntry_entryA⟩
  have hholds : HoldsItems (rootVolume (dirEntries hiddenItems)).info.shape
      (rootVolume (dirEntries hiddenItems)).volume [2] hiddenItems :=
    ⟨by decide +kernel, by decide +kernel, by decide +kernel⟩
  have hright := hall _ 0 [2] _ 0 hiddenItems [0x41] hvalid ⟨by decide, by decide, by decide⟩
    (rootVolume_inDir _) hholds
  have hmissing : search (rootVolume (dirEntries hiddenItems)).info.shape [2]
      (dirEntry (rootVolume (dirEntries hiddenItems)).info.shape
        (rootVolume (dirEntries hiddenItems)).volume [2]) [0x41] (0 + 1) 0 = .missing := by
    decide +kernel
  rw [lookupRight_iff (by decide) (rootVolume_inDir _) (by decide) hmissing (by decide)] at hright
  rcases hright with ⟨_, _, hfound⟩ | ⟨hnone, _⟩
  · cases hfound
  · exact hnone 1 ⟨1, [], entryA, ⟨[.deleted deletedLong], [], rfl, rfl⟩,
      Or.inr (by decide), rfl⟩

end PageFaultOS

