import Mathlib.Tactic
import PageFaultOS.Fs.Creating
import PageFaultOS.Fs.Records

/-! When the records of `Fat32FileSystem::ls` stay in the buffer. The room that is tested for is
not the room that is needed: 8 bytes for an 8.3 name, whose record has 19 and the name, and 26
bytes for each entry of a long name, whose texts go where the numbers of the entries say. -/

namespace PageFaultOS
open Exec Exec.Comp ByteMem Emit

/-- The record that a round writes ends in the buffer, of which `readn` bytes are used. -/
def Found.Fits (len readn : Nat) : Found → Prop
  | .stop => True
  | .other => True
  | .short e => readn + 19 + (sfnName e).length ≤ len
  | .long parts file =>
    (∀ e ∈ parts, lfnText e ≠ [] → readn + lfnPlace e + (lfnText e).length ≤ len) ∧
      (file ≠ none → readn + 19 + nameLength parts ≤ len)

/-- `ls` comes from one entry, with the bytes used so far, to another. -/
def Lists (entry : Nat → FatFileEntry) (len : Nat) : Nat × Nat → Nat × Nat → Prop :=
  Relation.ReflTransGen fun p q => (found entry len p.1 p.2).next p.1 p.2 = .inl q

/-- Each record that `ls` writes for a directory with these entries ends in the buffer. -/
def LsFits (entry : Nat → FatFileEntry) (len : Nat) : Prop :=
  ∀ k readn, Lists entry len (0, 0) (k, readn) → (found entry len k readn).Fits len readn

variable {entry : Nat → FatFileEntry} {len base k readn : Nat} {p q : Nat × Nat}
  {l : List (Nat × List UInt8)} {r : Int} {parts : List FatFileEntry} {file : Option FatFileEntry}

/-! ## Records in the buffer -/

theorem inside_partCopies {lo hi contents : Nat} : Inside lo hi (partCopies contents parts) ↔
    ∀ e ∈ parts, lfnText e ≠ [] → lo ≤ contents + lfnPlace e ∧
      contents + lfnPlace e + (lfnText e).length ≤ hi := by
  induction parts with
  | nil =>
    constructor
    · intro _ e he
      cases he
    · rintro _ b ⟨c, hc, _⟩
      cases hc
  | cons e parts ih =>
    rw [partCopies_cons, inside_append, inside_single, ih, List.forall_mem_cons]

/-- The 26 bytes for each of the entries are enough for two entries or more that are numbered up
to the number of the first one. -/
theorem found_fits_of_numbered (h : found entry len k readn = .long parts file)
    (hroom : clearFlag (entry k).sequenceNumber 0x40 * 26 + readn < len)
    (htwo : 2 ≤ clearFlag (entry k).sequenceNumber 0x40)
    (hlength : parts.length ≤ clearFlag (entry k).sequenceNumber 0x40)
    (hnumbers : ∀ e ∈ parts, clearFlag e.sequenceNumber 0x40 ≤
      clearFlag (entry k).sequenceNumber 0x40) :
    (found entry len k readn).Fits len readn := by
  have hname := nameLength_le parts
  rw [h]
  refine ⟨fun e he _ => ?_, fun _ => by omega⟩
  have hnumber := hnumbers e he
  have htext := lfnText_length_le e
  rw [lfnPlace]
  omega

/-- A record fits where all that is copied out goes to the buffer, and the next record begins in
it or at its end. -/
theorem fits_iff (base : Nat) (hp : Between len p) : (found entry len p.1 p.2).Fits len p.2 ↔
    Inside base (base + len) (lsStep entry len base p).1 ∧
      ∀ q, (lsStep entry len base p).2 = .inl q → q.2 ≤ len := by
  obtain ⟨k, readn⟩ := p
  obtain ⟨hk, _⟩ := hp
  simp only [lsStep] at hk ⊢
  have hnil : Inside base (base + len) [] := by
    rintro b ⟨c, hc, _⟩
    cases hc
  cases hfound : found entry len k readn with
  | stop => exact iff_of_true trivial ⟨hnil, fun q hq => by cases hq⟩
  | other =>
    obtain ⟨hroom, _⟩ := found_other hk hfound
    refine iff_of_true trivial ⟨hnil, fun q hq => ?_⟩
    cases hq
    exact Nat.le_of_lt (by simp only; omega)
  | short e =>
    simp only [Found.Fits, Found.copies, Found.next]
    rw [inside_append, inside_single, inside_single, direntBytes_length]
    constructor
    · intro hfits
      refine ⟨⟨fun _ => by omega, fun _ => by omega⟩, fun q hq => ?_⟩
      cases hq
      simp only
      omega
    · rintro ⟨_, hnext⟩
      have := hnext _ rfl
      simp only at this
      omega
  | long parts file =>
    cases file with
    | none =>
      simp only [Found.Fits, Found.copies, Found.next]
      rw [inside_partCopies]
      constructor
      · rintro ⟨hparts, _⟩
        refine ⟨fun e he hne => ?_, fun q hq => by cases hq⟩
        have := hparts e he hne
        omega
      · rintro ⟨hparts, _⟩
        refine ⟨fun e he hne => ?_, fun hnone => absurd rfl hnone⟩
        have := hparts e he hne
        omega
    | some e =>
      simp only [Found.Fits, Found.copies, Found.next]
      rw [inside_append, inside_partCopies, inside_single, direntBytes_length]
      constructor
      · rintro ⟨hparts, hrecord⟩
        have hrecord' := hrecord (fun hnone => by cases hnone)
        refine ⟨⟨fun e he hne => ?_, fun _ => by omega⟩, fun q hq => ?_⟩
        · have := hparts e he hne
          omega
        · cases hq
          simp only
          omega
      · rintro ⟨⟨hparts, _⟩, hnext⟩
        have hrecord := hnext _ rfl
        simp only at hrecord
        refine ⟨fun e he hne => ?_, fun _ => by omega⟩
        have := hparts e he hne
        omega

/-- All that is copied out goes to the buffer or behind it, but not far. -/
theorem lsStep_inside (hp : Between len p) :
    Inside base (base + len + 4096) (lsStep entry len base p).1 := by
  obtain ⟨k, readn⟩ := p
  obtain ⟨hk, _⟩ := hp
  simp only [lsStep] at hk ⊢
  have hnil : Inside base (base + len + 4096) [] := by
    rintro b ⟨c, hc, _⟩
    cases hc
  have hplaces : readn + 8 < len → ∀ parts,
      Inside base (base + len + 4096) (partCopies (base + readn) parts) := by
    intro hroom parts
    rw [inside_partCopies]
    intro e _ _
    have hplace := lfnPlace_le e
    have htext := lfnText_length_le e
    omega
  cases hfound : found entry len k readn with
  | stop => exact hnil
  | other => exact hnil
  | short e =>
    obtain ⟨hroom, _, _⟩ := found_short hk hfound
    have hname := sfnName_length_le e
    simp only [Found.copies]
    rw [inside_append, inside_single, inside_single, direntBytes_length]
    exact ⟨fun _ => by omega, fun _ => by omega⟩
  | long parts file =>
    obtain ⟨hroom, _⟩ := found_long hk hfound
    cases file with
    | none => exact hplaces hroom parts
    | some e =>
      simp only [Found.copies]
      rw [inside_append, inside_single, direntBytes_length]
      exact ⟨hplaces hroom parts, fun _ => by omega⟩

/-- The records of a whole run. -/
theorem listing_inside_iff (hemits : Emits (lsStep entry len base) (0, 0) l r) :
    LsFits entry len ↔ Inside base (base + len) l ∧ (r = -1 ∨ 0 ≤ r ∧ r ≤ len) := by
  have hzero : Between len (0, 0) := ⟨Nat.zero_le _, Nat.zero_le _⟩
  have hbetween : ∀ q, Comes (lsStep entry len base) (0, 0) q → Between len q := fun q hq =>
    hq.invariant (fun _ _ hp hnext => (hp.next hnext).1) hzero
  constructor
  · intro hfits
    constructor
    · rintro b ⟨c, hc, hin⟩
      obtain ⟨q, hcomes, hq⟩ := hemits.mem_iff.mp hc
      exact ((fits_iff base (hbetween q hcomes)).mp (hfits q.1 q.2 hcomes)).1 b ⟨c, hq, hin⟩
    · obtain ⟨q, hcomes, hend⟩ := hemits.ends
      have hle : q.2 ≤ len := by
        rcases hcomes.cases_tail with rfl | ⟨p, hcomes', hto⟩
        · exact Nat.zero_le _
        · exact ((fits_iff base (hbetween p hcomes')).mp
            (hfits p.1 p.2 hcomes')).2 q hto
      simp only [lsStep] at hend
      cases hfound : found entry len q.1 q.2 with
      | stop =>
        rw [hfound] at hend
        cases hend
        exact Or.inr ⟨Int.natCast_nonneg _, Int.ofNat_le.mpr hle⟩
      | other =>
        rw [hfound] at hend
        cases hend
      | short e =>
        rw [hfound] at hend
        cases hend
      | long parts file =>
        rw [hfound] at hend
        cases file with
        | none =>
          cases hend
          exact Or.inl rfl
        | some e => cases hend
  · rintro ⟨hinside, hr⟩ k readn hcomes
    have hp := hbetween _ hcomes
    refine (fits_iff base hp).mpr ⟨?_, fun q hnext => ?_⟩
    · rintro b ⟨c, hc, hin⟩
      exact hinside b ⟨c, hemits.mem_iff.mpr ⟨_, hcomes, hc⟩, hin⟩
    · -- behind the end of the buffer the next round stops
      by_contra hover
      obtain ⟨l', hrest⟩ := hemits.rest (q := q) (hcomes.tail hnext)
      have hstop : lsStep entry len base q = ([], .inr q.2) := by
        simp only [lsStep]
        rw [found_stop (Or.inr (Or.inr (by omega)))]
        rfl
      cases hrest with
      | stop h =>
        rw [hstop] at h
        cases h
        omega
      | next h _ =>
        rw [hstop] at h
        cases h

/-! ## Opening -/

/-- A file that has just been opened. -/
structure Fresh (f : TFFile) : Prop extends Begun f where
  index : f.currentClusterIdx = 0
  cluster : f.currentCluster = f.startCluster

theorem fresh_enter (e : FatFileEntry) (f : TFFile) : Fresh (enter e f) :=
  ⟨begun_enter e f, rfl, rfl⟩

/-- Being fresh has nothing to do with the name. -/
theorem fresh_anon {f : TFFile} : Fresh f.anon ↔ Fresh f :=
  ⟨fun h => ⟨⟨h.pos, h.byte, h.size⟩, h.index, h.cluster⟩,
    fun h => ⟨⟨h.pos, h.byte, h.size⟩, h.index, h.cluster⟩⟩

variable {s t u : Fat32} {path : CStr} {fp : Nat} {ptr : FilePtr} {user : Bool}

/-- Opening for reading from `s` to `t`. -/
structure Opens (s t : Fat32) (p : FilePtr) : Prop where
  coherent : t.Coherent
  shape : t.info.shape = s.info.shape
  memory : (t.mm, t.pagetable) = (s.mm, s.pagetable)
  fresh : ∀ fp, p = .handle fp → Fresh (t.handles fp)

theorem Opens.after (h : Opens s t .null) (h' : Opens t u ptr) : Opens s u ptr :=
  ⟨h'.coherent, h'.shape.trans h.shape, h'.memory.trans h.memory, h'.fresh⟩

theorem tfFnopen_opens (hco : s.Coherent)
    (hrun : tfFnopen path .r path.length s = .ok ptr t) : Opens s t ptr := by
  have hinvalid : tfFnopen path .r path.length s = .ok .invalid { s with refused := true } →
      Opens s t ptr := by
    intro h
    rw [h] at hrun
    cases hrun
    exact ⟨hco, rfl, rfl, fun fp hfp => by cases hfp⟩
  by_cases hn : path.length < 256
  · have hkeeps := tfFnopen_keeps (V := s.view) hn ⟨hco, rfl, rfl⟩ hrun
    rcases tfFnopen_start path .r hn s with h | ⟨fp, f, hroot, hstart⟩
    · exact hinvalid h
    rw [hstart] at hrun
    obtain ⟨found, u, hloop, hafter⟩ := bind_eq_ok.mp hrun
    have hmemory := keeps_loop (fun temp => (blind_memory fp).walkRound temp) _ _ _ _ _ hloop
    obtain ⟨g, hafter', hg⟩ := afterWalk_run (path.take path.length) fp found u
    rw [hafter'] at hafter
    cases hafter
    refine ⟨hkeeps.1.1, hkeeps.1.2.1, hmemory, fun fp' hfp' => ?_⟩
    cases found with
    | false => cases hfp'
    | true =>
      cases hfp'
      have hroot' : Fresh f := by
        rw [← fresh_anon, hroot]
        exact ⟨⟨rfl, rfl, fun _ => rfl⟩, rfl, rfl⟩
      have hentered := walk_loop_entered fresh_enter (by rw [s.setFile_self]; exact hroot') hloop
      rw [u.setFile_self, ← fresh_anon, hg rfl, fresh_anon]
      exact hentered
  · rcases tfFnopen_long path .r (Nat.le_of_not_lt hn) s with h | ⟨fp, f, h⟩
    · exact hinvalid h
    · rw [h] at hrun
      cases hrun

theorem tfFopen_opens (hco : s.Coherent) (hrun : tfFopen path .r s = .ok ptr t) :
    Opens s t ptr := by
  have hnull : Opens s s .null := ⟨hco, rfl, rfl, fun fp hfp => by cases hfp⟩
  unfold tfFopen at hrun
  split at hrun
  · cases hrun
    exact hnull
  · obtain ⟨p, u, hopen, hrun⟩ := bind_eq_ok.mp hrun
    have h := tfFnopen_opens hco hopen
    split at hrun
    · rename_i hp
      obtain ⟨_, w, hpure, hagain⟩ := bind_eq_ok.mp hrun
      cases hpure
      exact (hp ▸ h).after (tfFnopen_opens h.coherent hagain)
    · cases hrun
      exact h

theorem commutes_tfFopen (mm : MemState) (path : CStr) :
    Commutes (Fat32.withMemory mm) (tfFopen path .r) := by
  refine commutes_ite (commutes_pure _ _) (commutes_bind (commutes_tfFnopen mm _ _) fun p => ?_)
  exact commutes_ite (commutes_bind (commutes_pure _ _) fun _ => commutes_tfFnopen mm _ _)
    (commutes_pure _ _)

/-- The path is that of a directory with these entries. -/
def OpensDirectory (path : CStr) (s : Fat32) (entry : Nat → FatFileEntry) : Prop :=
  ∃ fp t, tfFopen path .r s = .ok (.handle fp) t ∧
    (t.handles fp).attributes &&& tfAttrDirectory ≠ 0 ∧
    entry = grownEntry s.info.shape t.volume (t.handles fp).startCluster

/-- `ls` returns -1 or what it has written, no more than the buffer holds, and changes nothing but
the buffer. -/
def LsWithin (path : CStr) (base len : Nat) (user : Bool) (s : Fat32) : Prop :=
  ∃ r t, Fat32.ls path base len user s = .ok r t ∧ (r = -1 ∨ 0 ≤ r ∧ r ≤ len) ∧
    ∀ x, t.mm.mem x ≠ s.mm.mem x →
      ∃ a, base ≤ a ∧ a < base + len ∧ physical user s.pagetable s.mm.mem a = x

/-! ## The listing -/

/-- The run of `ls` on a directory. -/
theorem ls_run {lo hi : Nat} (hco : s.Coherent) (hvalid : s.info.shape.Valid)
    (hsectors : s.info.shape.totalSectors < 2 ^ 32)
    (hopen : tfFopen path .r s = .ok (.handle fp) t)
    (hdir : (t.handles fp).attributes &&& tfAttrDirectory ≠ 0) (hlen : len < 2 ^ 31)
    (hbase : base + len + 4096 ≤ 2 ^ 64) (hw : Writable user s.pagetable s.mm.mem lo hi)
    (hemits : Emits (lsStep (grownEntry s.info.shape t.volume (t.handles fp).startCluster) len
      base) (0, 0) l r) (hin : Inside lo hi l) :
    ∃ u, Fat32.ls path base len user s = .ok r u ∧
      CopiedOut user s.pagetable lo hi s.mm.mem u.mm.mem l := by
  have hopens := tfFopen_opens hco hopen
  obtain ⟨⟨hpos, hbyte, hsize⟩, hindex, hcluster⟩ := hopens.fresh fp rfl
  have hmm : t.mm = s.mm := congrArg Prod.fst hopens.memory
  have hpagetable : t.pagetable = s.pagetable := congrArg Prod.snd hopens.memory
  have hzero : entryCluster s.info.shape 0 = 0 := Nat.zero_div _
  have hat : ListsAt user lo hi t fp
      (grownEntry s.info.shape t.volume (t.handles fp).startCluster) 0 := by
    refine ⟨⟨_, _, _, rfl, hvalid, hsectors, hopens.coherent, hopens.shape, Nat.le_refl _, ?_, hdir,
      rfl, hsize hdir, hpos, ?_, ?_, ?_⟩, ?_⟩
    · rw [hzero]
      rfl
    · rw [hbyte, Nat.mul_zero, Nat.zero_mod]
      rfl
    · rw [hindex, hzero]
    · rw [hcluster, hzero]
      rfl
    · rw [hmm, hpagetable]
      exact hw
  obtain ⟨u, hloop, hwrote⟩ := ListsAt.listing hemits fileRounds hat
    ⟨Nat.zero_le _, Nat.zero_le _⟩ hlen hbase (by decide) hin
  refine ⟨u, ?_, ?_⟩
  · have hderef : (FilePtr.handle fp).deref t = .ok fp t := rfl
    unfold Fat32.ls
    rw [bind_ok hopen, if_neg (fun h => by cases h), bind_ok hderef, bind_ok (getFile_run t fp),
      if_neg hdir]
    exact hloop
  · have hcopied := hwrote.copied
    rwa [hmm, hpagetable] at hcopied

/-- A path that does not exist, or not as a directory. -/
theorem ls_other (hco : s.Coherent) (hopen : tfFopen path .r s = .ok ptr t) (hptr : ptr ≠ .invalid)
    (hother : ∀ fp, ptr = .handle fp → (t.handles fp).attributes &&& tfAttrDirectory = 0) :
    LsWithin path base len user s := by
  have hmm : t.mm = s.mm := congrArg Prod.fst (tfFopen_opens hco hopen).memory
  refine ⟨-1, t, ?_, Or.inl rfl, fun x hx => absurd (by rw [hmm]) hx⟩
  unfold Fat32.ls
  rw [bind_ok hopen]
  cases ptr with
  | null => rfl
  | invalid => exact absurd rfl hptr
  | handle fp =>
    have hderef : (FilePtr.handle fp).deref t = .ok fp t := rfl
    rw [if_neg (fun h => by cases h), bind_ok hderef, bind_ok (getFile_run t fp),
      if_pos (hother fp rfl)]
    rfl

/-- What is copied out is behind the addresses that are covered. -/
theorem CopiedOut.changed {pagetable lo hi : Nat} {m m' : Mem}
    (h : CopiedOut user pagetable lo hi m m' l) {x : Nat} (hx : m' x ≠ m x) :
    ∃ a, Covers l a ∧ PageFaultOS.physical user pagetable m a = x := by
  by_contra hnone
  exact hx (h.outside x fun a ha heq => hnone ⟨a, ha, heq⟩)

section
variable (hco : s.Coherent) (hvalid : s.info.shape.Valid)
  (hsectors : s.info.shape.totalSectors < 2 ^ 32) (hlen : len < 2 ^ 31)
  (hbase : base + len + 4096 ≤ 2 ^ 64)
include hco hvalid hsectors hlen hbase

/-- Records that fit stay in the buffer. -/
theorem lsWithin_of_fits (hopen : tfFopen path .r s = .ok ptr t) (hptr : ptr ≠ .invalid)
    (hw : Writable user s.pagetable s.mm.mem base (base + len))
    (hfits : ∀ entry, OpensDirectory path s entry → LsFits entry len) :
    LsWithin path base len user s := by
  by_cases hdir : ∃ fp, ptr = .handle fp ∧ (t.handles fp).attributes &&& tfAttrDirectory ≠ 0
  · obtain ⟨fp, rfl, hdir⟩ := hdir
    have hfits' := hfits _ ⟨fp, t, hopen, hdir, rfl⟩
    obtain ⟨l, r, hemits⟩ := lsStep_emits (p := (0, 0))
      (grownEntry s.info.shape t.volume (t.handles fp).startCluster) base
      ⟨Nat.zero_le _, Nat.zero_le _⟩
    obtain ⟨hinside, hr⟩ := (listing_inside_iff hemits).mp hfits'
    obtain ⟨u, hrun, hcopied⟩ := ls_run hco hvalid hsectors hopen hdir hlen hbase hw hemits hinside
    refine ⟨r, u, hrun, hr, fun x hx => ?_⟩
    obtain ⟨a, hcovers, ha⟩ := hcopied.changed hx
    exact ⟨a, (hinside a hcovers).1, (hinside a hcovers).2, ha⟩
  · refine ls_other hco hopen hptr fun fp hfp => ?_
    by_contra hnot
    exact hdir ⟨fp, hfp, hnot⟩

/-- Records that do not fit change a byte behind the buffer, if that is not what they put there. -/
theorem fits_of_lsWithin (hw : Writable user s.pagetable s.mm.mem base (base + len + 4096))
    (hwithin : ∀ m : Mem, (∀ x, (∀ a, base ≤ a → a < base + len + 4096 →
      physical user s.pagetable s.mm.mem a ≠ x) → m x = s.mm.mem x) →
        LsWithin path base len user (s.withMemory { s.mm with mem := m }))
    {entry : Nat → FatFileEntry} (hopens : OpensDirectory path s entry) : LsFits entry len := by
  obtain ⟨fp, t, hopen, hdir, rfl⟩ := hopens
  have hzero : Between len (0, 0) := ⟨Nat.zero_le _, Nat.zero_le _⟩
  obtain ⟨l, r, hemits⟩ := lsStep_emits
    (grownEntry s.info.shape t.volume (t.handles fp).startCluster) base hzero
  -- all that is copied out is behind the buffer at most
  have hbounded : Inside base (base + len + 4096) l := by
    rintro b ⟨c, hc, hin⟩
    obtain ⟨q, hcomes, hq⟩ := hemits.mem_iff.mp hc
    exact lsStep_inside (hcomes.invariant (fun _ _ hp hnext => (hp.next hnext).1) hzero) b
      ⟨c, hq, hin⟩
  have hruns : ∀ m : Mem, (∀ x, (∀ a, base ≤ a → a < base + len + 4096 →
      physical user s.pagetable s.mm.mem a ≠ x) → m x = s.mm.mem x) →
      (∀ a, physical user s.pagetable m a = physical user s.pagetable s.mm.mem a) ∧
      (r = -1 ∨ 0 ≤ r ∧ r ≤ len) ∧ ∃ u : Fat32,
        CopiedOut user s.pagetable base (base + len + 4096) m u.mm.mem l ∧
        ∀ x, u.mm.mem x ≠ m x →
          ∃ a, base ≤ a ∧ a < base + len ∧ physical user s.pagetable m a = x := by
    intro m hm
    obtain ⟨hw', hphysical⟩ := hw.same fun huser => hw.tableSame huser hm
    have hopen' := commutes_tfFopen { s.mm with mem := m } path s _ t hopen
    obtain ⟨u, hrun, hcopied⟩ := ls_run (s := s.withMemory { s.mm with mem := m }) hco hvalid
      hsectors hopen' hdir hlen hbase hw' hemits hbounded
    obtain ⟨r', u', hrun', hr, hchanged⟩ := hwithin m hm
    rw [hrun] at hrun'
    cases hrun'
    exact ⟨hphysical, hr, u, hcopied, hchanged⟩
  refine (listing_inside_iff hemits).mpr ⟨?_, (hruns s.mm.mem fun _ _ => rfl).2.1⟩
  intro b hb
  by_contra hout
  have hb' := hbounded b hb
  -- another byte than the one that comes there
  let w := storeAll (fun _ => 0) l b
  obtain ⟨hphysical, _, u, hcopied, hchanged⟩ := hruns
    (Function.update s.mm.mem (physical user s.pagetable s.mm.mem b) (w + 1)) fun x hx =>
      Function.update_of_ne (fun heq => hx b hb'.1 hb'.2 heq.symm) _ _
  have hstored := hcopied.stored b hb'.1 hb'.2
  rw [storeAll_covered hb _ fun _ => 0, hphysical] at hstored
  have hne : u.mm.mem (physical user s.pagetable s.mm.mem b) ≠
      Function.update s.mm.mem (physical user s.pagetable s.mm.mem b) (w + 1)
        (physical user s.pagetable s.mm.mem b) := by
    rw [hstored, Function.update_self]
    intro heq
    have hbytes := congrArg UInt8.toNat heq
    have hlt := w.toNat_lt
    rw [UInt8.toNat_add] at hbytes
    have hone : (1 : UInt8).toNat = 1 := rfl
    have hw256 : w.toNat = (w.toNat + 1) % 256 := hone ▸ hbytes
    omega
  obtain ⟨a, ha, ha', haddr⟩ := hchanged _ hne
  rw [hphysical] at haddr
  have hab := hw.injective a b ha (by omega) hb'.1 hb'.2 haddr
  exact hout (hab ▸ ⟨ha, ha'⟩)

/-- `ls` stays in its buffer and in what it may return, whatever is behind the buffer, exactly if
each record fits; where nothing is known of what is behind the buffer, that is still enough. -/
theorem ls_within_iff (hopen : tfFopen path .r s = .ok ptr t) (hptr : ptr ≠ .invalid)
    (hw : Writable user s.pagetable s.mm.mem base (base + len)) :
    ((∀ entry, OpensDirectory path s entry → LsFits entry len) →
      LsWithin path base len user s) ∧
    (Writable user s.pagetable s.mm.mem base (base + len + 4096) →
      ((∀ m : Mem, (∀ x, (∀ a, base ≤ a → a < base + len + 4096 →
          physical user s.pagetable s.mm.mem a ≠ x) → m x = s.mm.mem x) →
        LsWithin path base len user (s.withMemory { s.mm with mem := m })) ↔
      ∀ entry, OpensDirectory path s entry → LsFits entry len)) := by
  refine ⟨lsWithin_of_fits hco hvalid hsectors hlen hbase hopen hptr hw, fun hw' => ⟨?_, ?_⟩⟩
  · exact fun hwithin entry hopens =>
      fits_of_lsWithin hco hvalid hsectors hlen hbase hw' hwithin hopens
  · intro hfits m hm
    obtain ⟨hwm, _⟩ := hw'.same fun huser => hw'.tableSame huser hm
    have hopen' := commutes_tfFopen { s.mm with mem := m } path s _ t hopen
    refine lsWithin_of_fits (s := s.withMemory { s.mm with mem := m }) hco hvalid hsectors hlen
      hbase hopen' hptr (hwm.shorter (Nat.le_add_right _ _)) ?_
    rintro entry ⟨fp, u, hopen'', hdir, rfl⟩
    rw [hopen'] at hopen''
    cases hopen''
    exact hfits _ ⟨fp, t, hopen, hdir, rfl⟩

end

/-! ## A buffer of ten bytes -/

/-- A root directory with one file, whose name is one character. -/
def oneShort : Fat32 :=
  { blankVolume with disk := fun a =>
      if a = 34 * 512 then 0x41 else if 34 * 512 < a ∧ a < 34 * 512 + 11 then 0x20 else 0 }

theorem oneShort_coherent : oneShort.Coherent := by
  apply coherent_of_first_sector
  intro a ha
  rw [if_neg (by omega), if_neg (by omega)]

theorem oneShort_opens : ∃ t, tfFopen [slash] .r oneShort = .ok (.handle 0) t := by
  have hvalue : (tfFopen [slash] .r oneShort).value = some (.handle 0) := by decide
  exact Res.eq_ok_of_value hvalue

/-- The kernel writes anywhere. -/
theorem writable_kernel {m : Mem} {lo hi : Nat} (h : hi ≤ 2 ^ 64) : Writable false 0 m lo hi :=
  ⟨h, fun huser => absurd huser (by decide), fun huser => absurd huser (by decide),
    fun _ _ _ _ _ _ heq => heq⟩

/-- The record of the file has 20 bytes, for which there is no room. -/
theorem ls_overruns : oneShort.Coherent ∧ oneShort.info.shape.Valid ∧
    (∃ t, tfFopen [slash] .r oneShort = .ok (.handle 0) t) ∧
    ¬ LsWithin [slash] 4096 10 false oneShort := by
  refine ⟨oneShort_coherent, ⟨by decide, by decide⟩, oneShort_opens, ?_⟩
  rintro ⟨r, t, hrun, hr, _⟩
  have hvalue : (Fat32.ls [slash] 4096 (10 : Nat) false oneShort).value = some 20 := by
    decide +kernel
  rw [hrun] at hvalue
  cases hvalue
  omega

theorem ls_within_oneShort :
    (∀ m : Mem, (∀ x, (∀ a, 4096 ≤ a → a < 4096 + 20 + 4096 → physical false 0
        oneShort.mm.mem a ≠ x) → m x = oneShort.mm.mem x) →
      LsWithin [slash] 4096 20 false (oneShort.withMemory { oneShort.mm with mem := m })) ↔
    ∀ entry, OpensDirectory [slash] oneShort entry → LsFits entry 20 := by
  obtain ⟨t, hopen⟩ := oneShort_opens
  exact (ls_within_iff oneShort_coherent ⟨by decide, by decide⟩ (by decide) (by decide) (by decide)
    hopen (by decide) (writable_kernel (by decide))).2 (writable_kernel (by decide))

end PageFaultOS
