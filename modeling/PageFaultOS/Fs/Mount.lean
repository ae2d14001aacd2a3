import Mathlib.Tactic
import PageFaultOS.Fs.Path

/-! The mounted file systems of `fs/vfs.cpp`, and which of them `vfsgetFs` finds for a path. -/

namespace PageFaultOS
open Exec Exec.Comp

def NFILESYSTEM : Nat := 5

/-- A `char` buffer with a string in it. The bytes behind the `NUL` are whatever they are. -/
structure CBuf where
  byte : Nat → UInt8
  length : Nat
  nul : byte length = 0
  chars : ∀ i < length, byte i ≠ 0

/-- The string in the buffer. -/
def CBuf.str (b : CBuf) : CStr := (List.range b.length).map b.byte

/-- What a `FileSystem` is mounted with; `mountPos` and `specialDev` are the strings in the
buffers. -/
structure FileSystem where
  mountPos : CStr
  specialDev : CStr
  noNul : (0 : UInt8) ∉ mountPos
  deriving DecidableEq

/-- `mountedFS`. -/
abbrev MountTable := Nat → Option FileSystem

/-! ## `vfsgetFs` -/

/-- The inner loop for slot `i`, from index `j` on: its test looks at `filepath[i]`. -/
def matchFrom (filepath : Nat → UInt8) (i j : Nat) : List UInt8 → Bool
  | [] => true
  | c :: mountPos =>
    if filepath i ≠ 0 then
      if c ≠ filepath j then false else matchFrom filepath i (j + 1) mountPos
    else true

/-- One round of the outer loop, on `bestMatch` and `bestLength`. -/
def matchSlot (mountedFS : MountTable) (filepath : Nat → UInt8) (best : Nat × Nat) (i : Nat) :
    Nat × Nat :=
  match mountedFS i with
  | none => best
  | some mp =>
    if matchFrom filepath i 0 mp.mountPos ∧ best.2 < mp.mountPos.length then
      (i, mp.mountPos.length)
    else best

def vfsgetFs (mountedFS : MountTable) (filepath : Nat → UInt8) : Option FileSystem :=
  mountedFS ((List.range NFILESYSTEM).foldl (matchSlot mountedFS filepath) (0, 0)).1

/-! ## `vfsmount`, `vfsumount` -/

/-- From where `createFileSystem` has made `fs`. -/
def vfsmount (fs : FileSystem) : Comp MountTable Int := do
  let mountedFS ← read
  match (List.range NFILESYSTEM).find? fun i => mountedFS i = none with
  | some i => do
    modify fun t => Function.update t i (some fs)
    pure 0
  | none => Comp.panic "mount file system"

/-- `strncmp` over the longer of the two strings compares them whole. -/
def vfsumount (absolutMp : CStr) : Comp MountTable Int := do
  let mountedFS ← read
  match (List.range NFILESYSTEM).find? fun i =>
      (mountedFS i).any fun fs => fs.mountPos = absolutMp with
  | some i => do
    modify fun t => Function.update t i none
    pure 0
  | none => pure (-1)

/-! ## What the loops find -/

theorem str_length (b : CBuf) : b.str.length = b.length := by
  rw [CBuf.str, List.length_map, List.length_range]

theorem str_get (b : CBuf) {j : Nat} (hj : j < b.length) : b.str[j]? = some (b.byte j) := by
  rw [CBuf.str, List.getElem?_map, List.getElem?_range hj, Option.map_some]

/-- A slot whose number is the index of a `NUL` of the path matches. -/
theorem matchFrom_nul {filepath : Nat → UInt8} {i : Nat} (h : filepath i = 0) (j : Nat)
    (mountPos : List UInt8) : matchFrom filepath i j mountPos = true := by
  cases mountPos with
  | nil => rfl
  | cons c mountPos => simp [matchFrom, h]

/-- Every other slot matches where its mount point is found in the path. -/
theorem matchFrom_chars {filepath : Nat → UInt8} {i : Nat} (h : filepath i ≠ 0) (j : Nat)
    (mountPos : List UInt8) :
    matchFrom filepath i j mountPos = true ↔
      ∀ k c, mountPos[k]? = some c → filepath (j + k) = c := by
  induction mountPos generalizing j with
  | nil => simp [matchFrom]
  | cons c mountPos ih =>
    by_cases hc : c = filepath j
    · rw [matchFrom, if_pos h, if_neg (not_not.mpr hc), ih]
      constructor
      · intro hrest k d hk
        cases k with
        | zero =>
          cases hk
          exact hc.symm
        | succ k => rw [← hrest k d hk, Nat.add_right_comm, Nat.add_assoc]
      · intro hall k d hk
        rw [← hall (k + 1) d hk, Nat.add_right_comm, Nat.add_assoc]
    · rw [matchFrom, if_pos h, if_pos hc]
      constructor
      · intro hfalse
        cases hfalse
      · intro hall
        exact absurd (hall 0 c rfl).symm hc

/-- A mount point without a `NUL` that is found in the path lies before its end. -/
theorem found_iff_prefix (b : CBuf) {mountPos : CStr} (hm : (0 : UInt8) ∉ mountPos) :
    (∀ k c, mountPos[k]? = some c → b.byte (0 + k) = c) ↔ mountPos <+: b.str := by
  rw [List.prefix_iff_getElem?]
  constructor
  · intro hfound k hk
    have hbyte := hfound k _ (List.getElem?_eq_getElem hk)
    rw [Nat.zero_add] at hbyte
    by_cases hkb : k < b.length
    · rw [str_get b hkb, hbyte]
    · -- the path's `NUL` would be a character of the mount point
      have hlen : b.length < mountPos.length := by omega
      have hnul := hfound b.length _ (List.getElem?_eq_getElem hlen)
      rw [Nat.zero_add, b.nul] at hnul
      exact absurd (hnul ▸ List.getElem_mem hlen) hm
  · intro hpre k c hk
    obtain ⟨hlt, hget⟩ := List.getElem?_eq_some_iff.mp hk
    have hstr := hpre k hlt
    obtain ⟨hks, -⟩ := List.getElem?_eq_some_iff.mp hstr
    rw [str_length] at hks
    rw [str_get b hks, hget] at hstr
    rw [Nat.zero_add]
    exact Option.some.inj hstr

/-- What the inner loop accepts: the mount points that are a prefix of the path, and in a slot
whose number is the index of a `NUL` any mount point. -/
def SlotMatches (b : CBuf) (i : Nat) (fs : FileSystem) : Prop :=
  b.byte i = 0 ∨ fs.mountPos <+: b.str

theorem matchFrom_iff (b : CBuf) (i : Nat) (fs : FileSystem) :
    matchFrom b.byte i 0 fs.mountPos = true ↔ SlotMatches b i fs := by
  by_cases h : b.byte i = 0
  · simp [matchFrom_nul h, SlotMatches, h]
  · rw [matchFrom_chars h, found_iff_prefix b fs.noNul, SlotMatches, or_iff_right h]

/-- After the slots below `n`: `best` is the first of the longest that were accepted. -/
structure BestOf (t : MountTable) (b : CBuf) (n : Nat) (best : Nat × Nat) : Prop where
  longest : ∀ i < n, ∀ fs, t i = some fs → SlotMatches b i fs → fs.mountPos.length ≤ best.2
  held : 0 < best.2 → best.1 < n ∧ ∃ fs, t best.1 = some fs ∧ SlotMatches b best.1 fs ∧
    fs.mountPos.length = best.2
  first : 0 < best.2 → ∀ i < best.1, ∀ fs, t i = some fs → SlotMatches b i fs →
    fs.mountPos.length < best.2

theorem bestOf_step {t : MountTable} {b : CBuf} {n : Nat} {best : Nat × Nat}
    (h : BestOf t b n best) : BestOf t b (n + 1) (matchSlot t b.byte best n) := by
  unfold matchSlot
  cases hn : t n with
  | none =>
    refine ⟨fun i hi fs hfs hacc => ?_, fun hpos => ?_, h.first⟩
    · rcases Nat.lt_succ_iff_lt_or_eq.mp hi with hlt | rfl
      · exact h.longest i hlt fs hfs hacc
      · rw [hn] at hfs
        cases hfs
    · obtain ⟨hlt, hheld⟩ := h.held hpos
      exact ⟨Nat.lt_succ_of_lt hlt, hheld⟩
  | some mp =>
    dsimp only
    split
    · next hbetter =>
      obtain ⟨hacc, hlen⟩ := hbetter
      refine ⟨fun i hi fs hfs hacc' => ?_,
        fun _ => ⟨Nat.lt_succ_self n, mp, hn, (matchFrom_iff b n mp).mp hacc, rfl⟩,
        fun _ i hi fs hfs hacc' => lt_of_le_of_lt (h.longest i hi fs hfs hacc') hlen⟩
      rcases Nat.lt_succ_iff_lt_or_eq.mp hi with hlt | rfl
      · exact (h.longest i hlt fs hfs hacc').trans hlen.le
      · rw [hn] at hfs
        cases hfs
        exact le_refl _
    · next hnot =>
      refine ⟨fun i hi fs hfs hacc => ?_, fun hpos => ?_, h.first⟩
      · rcases Nat.lt_succ_iff_lt_or_eq.mp hi with hlt | rfl
        · exact h.longest i hlt fs hfs hacc
        · rw [hn] at hfs
          cases hfs
          exact not_lt.mp fun hlt => hnot ⟨(matchFrom_iff b i mp).mpr hacc, hlt⟩
      · obtain ⟨hlt, hheld⟩ := h.held hpos
        exact ⟨Nat.lt_succ_of_lt hlt, hheld⟩

theorem bestOf_range (t : MountTable) (b : CBuf) (n : Nat) :
    BestOf t b n ((List.range n).foldl (matchSlot t b.byte) (0, 0)) := by
  induction n with
  | zero => exact ⟨fun i hi => by omega, fun h => by simp at h, fun h => by simp at h⟩
  | succ n ih =>
    rw [List.range_succ, List.foldl_append]
    exact bestOf_step ih

/-! ## The longest mount point -/

/-- The file system in slot `k` is mounted at the longest prefix of the path. -/
structure LongestAt (t : MountTable) (b : CBuf) (k : Nat) (fs : FileSystem) : Prop where
  slot : k < NFILESYSTEM
  mounted : t k = some fs
  isPrefix : fs.mountPos <+: b.str
  longest : ∀ i < NFILESYSTEM, ∀ fs', t i = some fs' → fs'.mountPos <+: b.str →
    fs'.mountPos.length ≤ fs.mountPos.length

/-- No two slots have the same mount point. -/
def DistinctMounts (t : MountTable) : Prop :=
  ∀ i < NFILESYSTEM, ∀ j < NFILESYSTEM, ∀ fs fs', t i = some fs → t j = some fs' →
    fs.mountPos = fs'.mountPos → i = j

def RootMounted (t : MountTable) : Prop :=
  ∃ i < NFILESYSTEM, ∃ fs, t i = some fs ∧ fs.mountPos = [slash]

/-- `u` has the file systems of `t`, in other slots. -/
def Rearranged (t u : MountTable) : Prop :=
  ∀ fs, (∃ i < NFILESYSTEM, t i = some fs) ↔ ∃ j < NFILESYSTEM, u j = some fs

/-- A slot whose number is the index of a `NUL` of the path, and whose mount point is no prefix
of the path, comes behind a prefix: it is shorter, or as long and in a later slot. -/
def Unmasked (t : MountTable) (b : CBuf) : Prop :=
  ∀ i < NFILESYSTEM, ∀ fs, t i = some fs → b.byte i = 0 → ¬ fs.mountPos <+: b.str →
    ∃ k < NFILESYSTEM, ∃ best, t k = some best ∧ best.mountPos <+: b.str ∧
      (fs.mountPos.length < best.mountPos.length ∨
        fs.mountPos.length = best.mountPos.length ∧ k < i)

/-- The path is at least as long as the table: no slot is taken for a match. -/
theorem unmasked_of_long (t : MountTable) {b : CBuf} (h : NFILESYSTEM ≤ b.length) :
    Unmasked t b := by
  intro i hi fs _ hnul
  exact absurd hnul (b.chars i (by omega))

theorem LongestAt.unique {t : MountTable} {b : CBuf} (hd : DistinctMounts t) {k k' : Nat}
    {fs fs' : FileSystem} (h : LongestAt t b k fs) (h' : LongestAt t b k' fs') : fs = fs' := by
  have hle : fs.mountPos.length ≤ fs'.mountPos.length :=
    h'.longest k h.slot fs h.mounted h.isPrefix
  have hge : fs'.mountPos.length ≤ fs.mountPos.length :=
    h.longest k' h'.slot fs' h'.mounted h'.isPrefix
  have hpos : fs.mountPos = fs'.mountPos :=
    (List.prefix_of_prefix_length_le h.isPrefix h'.isPrefix hle).eq_of_length (by omega)
  have hk : k = k' := hd k h.slot k' h'.slot fs fs' h.mounted h'.mounted hpos
  have hmounted := h.mounted
  rw [hk, h'.mounted] at hmounted
  exact (Option.some.inj hmounted).symm

/-- The root is a prefix of every absolute path. -/
theorem RootMounted.accepted {t : MountTable} (h : RootMounted t) {b : CBuf}
    (habs : b.str.head? = some slash) :
    ∃ i < NFILESYSTEM, ∃ fs, t i = some fs ∧ SlotMatches b i fs ∧ fs.mountPos.length = 1 := by
  obtain ⟨i, hi, fs, hfs, hroot⟩ := h
  refine ⟨i, hi, fs, hfs, Or.inr ?_, by rw [hroot]; rfl⟩
  obtain ⟨rest, hrest⟩ := List.head?_eq_some_iff.mp habs
  rw [hroot, hrest]
  exact ⟨rest, rfl⟩

/-- What `vfsgetFs` answers where the root is mounted: the first of the longest mount points
that were accepted. -/
theorem vfsgetFs_first {t : MountTable} (hroot : RootMounted t) {b : CBuf}
    (habs : b.str.head? = some slash) :
    ∃ k < NFILESYSTEM, ∃ fs, vfsgetFs t b.byte = some fs ∧ t k = some fs ∧ SlotMatches b k fs ∧
      (∀ i < NFILESYSTEM, ∀ fs', t i = some fs' → SlotMatches b i fs' →
        fs'.mountPos.length ≤ fs.mountPos.length) ∧
      ∀ i < k, ∀ fs', t i = some fs' → SlotMatches b i fs' →
        fs'.mountPos.length < fs.mountPos.length := by
  have hscan := bestOf_range t b NFILESYSTEM
  obtain ⟨i, hi, root, hmounted, hacc, hone⟩ := hroot.accepted habs
  have hpos := hscan.longest i hi root hmounted hacc
  rw [hone] at hpos
  obtain ⟨hlt, fs, hfs, haccfs, hlen⟩ := hscan.held hpos
  refine ⟨_, hlt, fs, hfs, hfs, haccfs, ?_, ?_⟩
  · rw [hlen]
    exact hscan.longest
  · rw [hlen]
    exact hscan.first hpos

theorem vfsgetFs_isLongest {t : MountTable} (hroot : RootMounted t) {b : CBuf}
    (habs : b.str.head? = some slash) (hun : Unmasked t b) :
    ∃ k fs, LongestAt t b k fs ∧ vfsgetFs t b.byte = some fs := by
  obtain ⟨k, hk, fs, hget, hfs, hacc, hmax, hfirst⟩ := vfsgetFs_first hroot habs
  refine ⟨k, fs, ⟨hk, hfs, ?_, fun i hi fs' hfs' hpre => hmax i hi fs' hfs' (Or.inr hpre)⟩, hget⟩
  by_contra hpre
  obtain ⟨m, hm, best, hbest, hbpre, hcase⟩ :=
    hun k hk fs hfs (hacc.resolve_right hpre) hpre
  cases hcase with
  | inl hshorter => exact absurd (hmax m hm best hbest (Or.inr hbpre)) (by omega)
  | inr hlater => exact absurd (hfirst m hlater.2 best hbest (Or.inr hbpre)) (by omega)

theorem unmasked_of_isLongest {t : MountTable} (hd : DistinctMounts t) (hroot : RootMounted t)
    {b : CBuf} (habs : b.str.head? = some slash) {k : Nat} {fs : FileSystem}
    (hlong : LongestAt t b k fs) (hget : vfsgetFs t b.byte = some fs) : Unmasked t b := by
  obtain ⟨m, hm, found, hfound, hmounted, -, hmax, hfirst⟩ := vfsgetFs_first hroot habs
  rw [hget] at hfound
  cases hfound
  have hmk : m = k := hd m hm k hlong.slot fs fs hmounted hlong.mounted rfl
  intro i hi fs' hfs' hnul hpre
  have hle := hmax i hi fs' hfs' (Or.inl hnul)
  refine ⟨k, hlong.slot, fs, hlong.mounted, hlong.isPrefix, ?_⟩
  by_cases hlt : fs'.mountPos.length < fs.mountPos.length
  · exact Or.inl hlt
  · refine Or.inr ⟨by omega, ?_⟩
    have hne : i ≠ k := by
      intro heq
      rw [heq, hlong.mounted] at hfs'
      cases hfs'
      exact hpre hlong.isPrefix
    by_contra hki
    exact absurd (hfirst i (by omega) fs' hfs' (Or.inl hnul)) hlt

theorem LongestAt.rearranged {t u : MountTable} (h : Rearranged t u) {b : CBuf} {k : Nat}
    {fs : FileSystem} (hlong : LongestAt u b k fs) : ∃ m, LongestAt t b m fs := by
  obtain ⟨m, hm, hmounted⟩ := (h fs).mpr ⟨k, hlong.slot, hlong.mounted⟩
  refine ⟨m, hm, hmounted, hlong.isPrefix, fun i hi fs' hfs' hpre => ?_⟩
  obtain ⟨j, hj, hfsj⟩ := (h fs').mp ⟨i, hi, hfs'⟩
  exact hlong.longest j hj fs' hfsj hpre

theorem RootMounted.rearranged {t u : MountTable} (h : Rearranged t u) (hroot : RootMounted t) :
    RootMounted u := by
  obtain ⟨i, hi, fs, hfs, hslash⟩ := hroot
  obtain ⟨j, hj, hfsj⟩ := (h fs).mp ⟨i, hi, hfs⟩
  exact ⟨j, hj, fs, hfsj, hslash⟩

/-- `vfsgetFs` finds the file system at the longest mount point that is a prefix of the path
exactly where no slot behind the path's end hides it, and then the slots do not matter. -/
theorem vfsgetFs_longest (t : MountTable) (b : CBuf) (hd : DistinctMounts t)
    (hroot : RootMounted t) (habs : b.str.head? = some slash) :
    ((∃ k fs, LongestAt t b k fs ∧ vfsgetFs t b.byte = some fs) ↔ Unmasked t b) ∧
      ∀ u, Rearranged t u → Unmasked t b → Unmasked u b →
        vfsgetFs u b.byte = vfsgetFs t b.byte := by
  constructor
  · constructor
    · rintro ⟨k, fs, hlong, hget⟩
      exact unmasked_of_isLongest hd hroot habs hlong hget
    · exact vfsgetFs_isLongest hroot habs
  · intro u hu ht hun
    obtain ⟨k, fs, hlong, hget⟩ := vfsgetFs_isLongest hroot habs ht
    obtain ⟨k', fs', hlong', hget'⟩ := vfsgetFs_isLongest (hroot.rearranged hu) habs hun
    obtain ⟨m, hm⟩ := hlong'.rearranged hu
    rw [hget, hget', hlong.unique hd hm]

/-! ## A table that the mounts make -/

/-- `"/dev"` and `"/mnt"`. -/
def devMount : FileSystem := ⟨[0x2f, 0x64, 0x65, 0x76], [], by decide⟩

def mntMount : FileSystem := ⟨[0x2f, 0x6d, 0x6e, 0x74], [], by decide⟩

/-- `"/"` on `"/dev/hda1"`. -/
def rootMount : FileSystem :=
  ⟨[0x2f], [0x2f, 0x64, 0x65, 0x76, 0x2f, 0x68, 0x64, 0x61, 0x31], by decide⟩

/-- `vfsinit`, and then `/dev` is taken down and mounted again behind `/mnt`. -/
def remount : Comp MountTable Int := do
  let _ ← vfsmount devMount
  let _ ← vfsmount rootMount
  let _ ← vfsumount devMount.mountPos
  let _ ← vfsmount mntMount
  vfsmount devMount

def remounted : MountTable
  | 0 => some mntMount
  | 1 => some rootMount
  | 2 => some devMount
  | _ => none

theorem remount_run :
    ∃ u, remount (fun _ => none) = .ok 0 u ∧ ∀ i < NFILESYSTEM, u i = remounted i :=
  ⟨_, rfl, by decide⟩

theorem remounted_cases {i : Nat} {fs : FileSystem} (h : remounted i = some fs) :
    (i = 0 ∧ fs = mntMount) ∨ (i = 1 ∧ fs = rootMount) ∨ (i = 2 ∧ fs = devMount) := by
  match i, h with
  | 0, h => exact Or.inl ⟨rfl, (Option.some.inj h).symm⟩
  | 1, h => exact Or.inr (Or.inl ⟨rfl, (Option.some.inj h).symm⟩)
  | 2, h => exact Or.inr (Or.inr ⟨rfl, (Option.some.inj h).symm⟩)

theorem remounted_distinct : DistinctMounts remounted := by
  intro i _ j _ fs fs' hi hj hpos
  rcases remounted_cases hi with ⟨rfl, rfl⟩ | ⟨rfl, rfl⟩ | ⟨rfl, rfl⟩ <;>
    rcases remounted_cases hj with ⟨rfl, rfl⟩ | ⟨rfl, rfl⟩ | ⟨rfl, rfl⟩ <;>
    first
    | rfl
    | exact absurd hpos (by decide)

theorem remounted_root : RootMounted remounted := ⟨1, by decide, rootMount, rfl, rfl⟩

/-- The path `"/x"` in a buffer that `memset` has cleared. -/
def shortPath : CBuf where
  byte i := if i = 0 then slash else if i = 1 then 0x78 else 0
  length := 2
  nul := rfl
  chars := by decide

/-- The path `"/dev/tty"`. -/
def ttyPath : CBuf where
  byte i := [0x2f, 0x64, 0x65, 0x76, 0x2f, 0x74, 0x74, 0x79].getD i 0
  length := 8
  nul := rfl
  chars := by decide

theorem vfsgetFs_longest_tty :
    (∃ k fs, LongestAt remounted ttyPath k fs ∧ vfsgetFs remounted ttyPath.byte = some fs) ∧
      vfsgetFs remounted ttyPath.byte = some devMount :=
  ⟨(vfsgetFs_longest remounted ttyPath remounted_distinct remounted_root rfl).1.mpr
    (unmasked_of_long remounted (by decide)), rfl⟩

/-- `/x` goes to the file system at `/dev`: its slot is behind the end of the path. -/
theorem vfsgetFs_behind_end :
    (∃ u, remount (fun _ => none) = .ok 0 u ∧ ∀ i < NFILESYSTEM, u i = remounted i) ∧
      DistinctMounts remounted ∧ RootMounted remounted ∧
      shortPath.str.head? = some slash ∧ vfsgetFs remounted shortPath.byte = some devMount ∧
      ¬ ∃ k fs, LongestAt remounted shortPath k fs ∧
        vfsgetFs remounted shortPath.byte = some fs := by
  refine ⟨remount_run, remounted_distinct, remounted_root, rfl, rfl, ?_⟩
  rintro ⟨k, fs, hlong, hget⟩
  have hdev : devMount = fs := Option.some.inj hget
  have hpre := hlong.isPrefix
  rw [← hdev] at hpre
  exact absurd hpre.length_le (by decide)

end PageFaultOS
