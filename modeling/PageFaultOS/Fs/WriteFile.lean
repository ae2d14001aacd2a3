import Mathlib.Tactic
import PageFaultOS.Fs.Covering
import PageFaultOS.Fs.Overrun
import PageFaultOS.Fs.ReadFile

/-! `Fat32FileSystem::write`. `tf_fwrite` never looks at the bytes that it is to store: each round
marks the sector in memory as dirty as it is, and moves on. A round for more than one byte does not
return, and neither does the end of a file that has become longer. So what is left to a write is to
give back what there is already. -/

namespace PageFaultOS
open Exec Exec.Comp ByteMem

variable {s t u : Fat32} {fp : Nat} {path : CStr} {c : TFFile} {cs : List Nat}

/-! ## The flag -/

/-- `copyin` of one byte. -/
theorem copyin_one {σ : MemState} {pagetable va : Nat} (hal : pagetable % 4096 = 0)
    (hva : va < 2 ^ 64) :
    (Looked σ.mem pagetable (va / 4096 * 4096) ∧
      ∃ r log, copyin pagetable va 1 σ = .ok r { σ with accessed := log }) ∨
    (¬ Looked σ.mem pagetable (va / 4096 * 4096) ∧ ∃ e, copyin pagetable va 1 σ = .fault e σ) := by
  have hpage := pgrounddown_eq hva
  have hone : min (pgsize - (va - va / 4096 * 4096)) 1 = 1 := by
    have hsmall : pgsize = 4096 := rfl
    omega
  unfold copyin
  rw [show pageRounds = (2 ^ 52 - 1) + 1 + 1 from rfl]
  rcases kGetKaddr_page (σ := σ) hal (Nat.mul_mod_left (va / 4096) 4096) with
    ⟨hlooked, hget⟩ | ⟨hnot, msg, hget⟩
  · refine Or.inl ⟨hlooked, ?_⟩
    by_cases hframe : frame σ.mem pagetable (va / 4096 * 4096) = 0
    · refine ⟨(-1, []), σ.accessed, loop_done ?_ _⟩
      simp only [copyinRound, hpage]
      rw [if_neg (by decide), bind_ok hget, if_pos hframe]
      rfl
    · have hround : copyinRound pagetable (va, 1, []) σ = .ok (.inl
          (u64 (va / 4096 * 4096 + pgsize), 1 - 1, [] ++ load σ.mem
            (frame σ.mem pagetable (va / 4096 * 4096) + (va - va / 4096 * 4096)) 1))
          { σ with accessed := va / 4096 * 4096 :: σ.accessed } := by
        simp only [copyinRound, hpage]
        rw [if_neg (by decide), bind_ok hget, if_neg hframe]
        simp only [copyinPage, hpage, hone]
        rfl
      exact ⟨_, _, (loop_again hround _).trans (loop_done rfl _)⟩
  · refine Or.inr ⟨hnot, .panic msg, loop_fault ?_ _⟩
    simp only [copyinRound, hpage]
    rw [if_neg (by decide), bind_fault hget]

/-- The byte that is taken for the flag lets the code go on. -/
def FlagPasses (m : Mem) (pagetable : Nat) (byte : UInt8) (src : Nat) : Prop :=
  byte = 0 ∨ Looked m pagetable (src / 4096 * 4096)

/-- One byte to the flag. -/
theorem copyToFlag_one (byte : UInt8) {src : Nat} (hal : s.pagetable % 4096 = 0)
    (hsrc : src < 2 ^ 64) :
    (FlagPasses s.mm.mem s.pagetable byte src ∧ ∃ log,
      copyToFlag byte src 1 s = .ok () { s with mm := { s.mm with accessed := log } }) ∨
    (¬ FlagPasses s.mm.mem s.pagetable byte src ∧ ∀ t, copyToFlag byte src 1 s ≠ .ok () t) := by
  unfold copyToFlag
  rw [read_bind]
  by_cases hbyte : byte = 0
  · refine Or.inl ⟨Or.inl hbyte, s.mm.accessed, ?_⟩
    rw [if_neg (not_not_intro hbyte)]
    rfl
  · rw [if_pos hbyte]
    rcases copyin_one (σ := s.mm) hal hsrc with ⟨hlooked, r, log, hcopy⟩ | ⟨hnot, e, hcopy⟩
    · have hrun : onMemory (copyin s.pagetable src 1) s =
          .ok r { s with mm := { s.mm with accessed := log } } := by
        unfold onMemory
        rw [hcopy]
      refine Or.inl ⟨Or.inr hlooked, log, ?_⟩
      rw [bind_ok hrun]
      rfl
    · have hrun : onMemory (copyin s.pagetable src 1) s = .fault e { s with mm := s.mm } := by
        unfold onMemory
        rw [hcopy]
      refine Or.inr ⟨fun h => h.elim hbyte hnot, fun t => ?_⟩
      rw [bind_fault hrun]
      exact fun h => by cases h

/-! ## A file that has become longer -/

/-- A file, and no directory, that has been written to. -/
structure Touched (f : TFFile) : Prop where
  dirty : f.IsDirty
  regular : f.attributes &&& tfAttrDirectory = 0

/-- Its size has changed, and its entry does not say so yet. -/
structure Lengthened (f : TFFile) : Prop extends Touched f where
  changed : f.flags &&& tfFlagSizechanged ≠ 0

variable {f g : TFFile}

theorem Lengthened.congr (h : Lengthened f) (hflags : g.flags = f.flags)
    (hattr : g.attributes = f.attributes) : Lengthened g := by
  refine ⟨⟨?_, hattr ▸ h.regular⟩, hflags ▸ h.changed⟩
  rw [TFFile.IsDirty, hflags]
  exact h.dirty

theorem Touched.lengthened (h : Touched f) (hflags : g.flags = f.flags ||| tfFlagSizechanged)
    (hattr : g.attributes = f.attributes) : Lengthened g := by
  refine ⟨⟨?_, hattr ▸ h.regular⟩, ?_⟩
  · rw [TFFile.IsDirty, hflags, Nat.and_or_distrib_right]
    exact fun h0 => h.dirty (Nat.or_eq_zero_iff.mp h0).1
  · rw [hflags, Nat.and_or_distrib_right]
    exact fun h0 => absurd (Nat.or_eq_zero_iff.mp h0).2 (by decide)

theorem Lengthened.growTo (h : Lengthened (s.handles fp)) {x : Nat}
    (hrun : growTo fp x s = .ok () t) : Lengthened (t.handles fp) := by
  unfold PageFaultOS.growTo at hrun
  rw [bind_ok (getFile_run s fp)] at hrun
  split at hrun
  · cases hrun
    rw [s.setFile_self]
    exact h.toTouched.lengthened rfl rfl
  · cases hrun
    exact h

/-- A seek to the end of the file makes it longer, and it never becomes shorter again. -/
theorem tfUnsafeFseek_lengthened {base offset r : Int} (htouched : Touched (s.handles fp))
    (h : Lengthened (s.handles fp) ∨ toLong (base + offset) = (s.handles fp).size)
    (hrun : tfUnsafeFseek fp base offset s = .ok r t) : Lengthened (t.handles fp) := by
  have hkeep : ∀ n, Keeps (fun s : Fat32 => ((s.handles fp).flags, (s.handles fp).attributes))
      (seekCluster fp n) := fun n =>
    keeps_seekCluster n (fun _ _ _ => rfl) fun s c i => by rw [s.setFile_self]
  unfold tfUnsafeFseek at hrun
  rw [bind_ok (getFile_run s fp)] at hrun
  split at hrun
  · cases hrun
    exact h.resolve_right (by omega)
  · obtain ⟨_, u, hgrow, hrun⟩ := bind_eq_ok.mp hrun
    have hu : Lengthened (u.handles fp) := by
      unfold growAtEnd at hgrow
      rw [bind_ok (getFile_run s fp)] at hgrow
      split at hgrow
      · cases hgrow
        rw [s.setFile_self]
        exact htouched.lengthened rfl rfl
      · rename_i hne
        cases hgrow
        exact h.resolve_right hne
    rw [read_bind] at hrun
    obtain ⟨q, v, hseek, hrun⟩ := bind_eq_ok.mp hrun
    have hsame := hkeep _ _ _ _ hseek
    have hv : Lengthened (v.handles fp) :=
      hu.congr (congrArg Prod.fst hsame) (congrArg Prod.snd hsame)
    split at hrun
    · cases hrun
      exact hv
    · cases hrun
      rw [v.setFile_self]
      exact hv.congr rfl rfl

theorem keeps_copyToFlag (byte : UInt8) (src x : Nat) :
    Keeps Fat32.handles (copyToFlag byte src x) := by
  have hmem : ∀ pagetable, Keeps Fat32.handles (onMemory (copyin pagetable src x)) := by
    intro pagetable s a t hrun
    have hcases := onMemory_cases (copyin pagetable src x) s
    rw [hrun] at hcases
    obtain ⟨m, rfl⟩ := hcases
    rfl
  exact keeps_bind (keeps_read _) fun _ => keeps_bind (keeps_ite (hmem _) (keeps_pure _ _))
    fun _ => keeps_ite (keeps_fault _ _) (keeps_pure _ _)

/-! ## One round -/

/-- The file `fp` of `t` is the one that has been looked up, at the position `p`. It has been
written to, but nothing has changed by that. -/
structure WrittenAt (s : Fat32) (c : TFFile) (cs : List Nat) (fp p : Nat) (t : Fat32) : Prop where
  view : s.view.On t
  mem : t.mm.mem = s.mm.mem
  pagetable : t.pagetable = s.pagetable
  touched : Touched (t.handles fp)
  unchanged : (t.handles fp).flags &&& tfFlagSizechanged = 0
  on : OnChain s.info.shape cs (t.handles fp)
  pos : (t.handles fp).pos = p
  size : (t.handles fp).size = c.size

/-- The bytes of a round at the position `p`. -/
def roundBytes (c : TFFile) (p sz : Nat) : Nat := min (min (512 - p % 512) (c.size - p)) sz

/-- What a round does with `x` bytes when it has fetched the sector. -/
def fwriteRest (fp : Nat) (byte : UInt8) (src sz n pos x : Nat) :
    FsComp ((Nat × Nat × Nat) ⊕ Int) := do
  copyToFlag byte src x
  modify fun s => { s with info := { s.info with dirty := true } }
  growTo fp x
  let r ← tfUnsafeFseek fp 0 (pos + x : Nat)
  if r ≠ 0 then
    pure (.inr (-1))
  else
    pure (.inl (src + x, sz - x, n + x))

theorem WrittenAt.shape {p : Nat} (hat : WrittenAt s c cs fp p t) :
    t.info.shape = s.info.shape := congrArg View.shape hat.view.2

section
variable {p sz : Nat} (h : NamesFile s path c cs) (hat : WrittenAt s c cs fp p t)
  (hp : p ≤ c.size) (hsz : 0 < sz)
include h hat

theorem WrittenAt.size_lt : (t.handles fp).size < 2 ^ 32 := by
  rw [hat.size]
  exact (View.lookup_entered h.found).size

include hp

theorem WrittenAt.readable (sz : Nat) : Readable t.info.shape cs (t.handles fp) sz := by
  refine ⟨?_, ?_, hat.size_lt h, Or.inr ?_⟩
  · rw [hat.shape]
    exact hat.on
  · rw [hat.pos, hat.size]
    exact hp
  · rw [hat.size, hat.shape]
    exact h.room

include hsz

/-- A round looks at the first byte that it is to replace. -/
theorem fwriteRound_starts (src n : Nat) : ∃ u, WrittenAt s c cs fp p u ∧
    fwriteRound fp (src, sz, n) t = fwriteRest fp (fileByte s.info.shape s.volume cs p) src sz n p
      (roundBytes c p sz) u := by
  have hread := hat.readable h hp sz
  have hchunk := hread.chunk
  obtain ⟨u, hfetch, hsame, hhandles, hbuffer⟩ :=
    tfFetch_run hat.view.1 (fileSector t.info.shape (t.handles fp))
  have hbyte : ¬ (t.handles fp).currentByte < 0 := by
    rw [hread.byte]
    omega
  have hload := hread.load hbuffer (x := 1) (by omega)
  have hfirst : u.info.buffer ((t.handles fp).currentByte % 512).toNat =
      fileByte s.info.shape s.volume cs p := by
    have hlist : [u.info.buffer ((t.handles fp).currentByte % 512).toNat] =
        [fileByte t.info.shape t.volume cs (t.handles fp).pos] := hload
    rw [List.singleton_inj.mp hlist, hat.shape, hat.view.volume, hat.pos]
    rfl
  refine ⟨u, ⟨⟨hsame.coherent, (view_of_same hsame).trans hat.view.2⟩, ?_, ?_, ?_, ?_, ?_, ?_, ?_⟩,
    ?_⟩
  · rw [hsame.mm, hat.mem]
  · rw [hsame.pagetable, hat.pagetable]
  · rw [hhandles]
    exact hat.touched
  · rw [hhandles]
    exact hat.unchanged
  · rw [hhandles]
    exact hat.on
  · rw [hhandles]
    exact hat.pos
  · rw [hhandles]
    exact hat.size
  · rw [hat.pos, hat.size] at hchunk
    unfold fwriteRound
    simp only
    rw [if_neg (not_not_intro hsz), bind_ok (getFile_run t fp), read_bind, bind_ok hfetch,
      if_neg hbyte, read_bind, hfirst, hchunk, hat.pos]
    rfl

end

/-! ## The rest of a round -/

/-- A round does not go beyond the end of the file. -/
theorem growTo_inside {x : Nat} (hx : (s.handles fp).pos + x ≤ (s.handles fp).size) :
    growTo fp x s = .ok () s := by
  unfold growTo
  rw [bind_ok (getFile_run s fp), if_neg (Nat.not_lt_of_le hx)]
  rfl

/-- The file moves on by one byte. -/
theorem WrittenAt.next {p : Nat} (h : NamesFile s path c cs) (hat : WrittenAt s c cs fp p t)
    (hp : p + 1 < c.size) : ∃ u, (growTo fp 1 >>= fun _ => tfUnsafeFseek fp 0 (p + 1 : Nat)) t =
      .ok 0 u ∧ WrittenAt s c cs fp (p + 1) u := by
  have hgrow : growTo fp 1 t = .ok () t := growTo_inside (by rw [hat.size, hat.pos]; omega)
  have hread := hat.readable h (by omega) 1
  have hsize := hat.size_lt h
  have hroom := h.room
  have hq : toLong (0 + (p + 1 : Nat)) = (p + 1 : Nat) := by
    rw [hat.size] at hsize
    rw [Int.zero_add, toLong_natCast (by omega)]
  obtain ⟨u, hseek, hmoved⟩ := tfUnsafeFseek_run (by rw [hat.shape]; exact h.valid) hat.view.1
    (by rw [hat.shape, hat.view.volume]; exact h.chain) hread.on.atCluster hq
    (by rw [hat.size]; exact hp) hsize (by rw [hat.shape]; omega)
  have hfile := hmoved.file
  refine ⟨u, ?_, ⟨hmoved.coherent, (view_of_same hmoved.same).trans hat.view.2⟩, ?_, ?_, ?_, ?_, ?_,
    ?_, ?_⟩
  · rw [bind_ok hgrow, hseek]
  · rw [hmoved.same.mm, hat.mem]
  · rw [hmoved.same.pagetable, hat.pagetable]
  · rw [hfile]
    exact ⟨hat.touched.dirty, hat.touched.regular⟩
  · rw [hfile]
    exact hat.unchanged
  · rw [hfile, hat.shape]
    exact hat.on.moveTo (p + 1)
  · rw [hfile]
    rfl
  · rw [hfile]
    exact hat.size

/-- The memory that `copyin` has looked at, and the sector that is dirty now. -/
theorem WrittenAt.marked {p : Nat} (hat : WrittenAt s c cs fp p t) (log : List Nat) :
    WrittenAt s c cs fp p
      { t with mm := { t.mm with accessed := log }, info := { t.info with dirty := true } } :=
  ⟨⟨fun hclean => (by cases hclean), hat.view.2⟩, hat.mem, hat.pagetable, hat.touched, hat.unchanged,
    hat.on, hat.pos, hat.size⟩

/-- A round of one byte before the end of the file. -/
theorem fwriteRest_one {p src : Nat} (sz n : Nat) (h : NamesFile s path c cs)
    (hat : WrittenAt s c cs fp p t) (hp : p + 1 < c.size) {byte : UInt8}
    (hal : s.pagetable % 4096 = 0) (hsrc : src < 2 ^ 64)
    (hpass : FlagPasses s.mm.mem s.pagetable byte src) :
    ∃ u, fwriteRest fp byte src sz n p 1 t = .ok (.inl (src + 1, sz - 1, n + 1)) u ∧
      WrittenAt s c cs fp (p + 1) u := by
  have hal' : t.pagetable % 4096 = 0 := by
    rw [hat.pagetable]
    exact hal
  rcases copyToFlag_one byte hal' hsrc with ⟨_, log, hcopy⟩ | ⟨hnot, _⟩
  · obtain ⟨u, hrun, hu⟩ := (hat.marked log).next h hp
    refine ⟨u, ?_, hu⟩
    unfold fwriteRest
    rw [bind_ok hcopy, modify_bind, ← bind_assoc_apply, bind_ok hrun]
    rfl
  · rw [hat.mem, hat.pagetable] at hnot
    exact absurd hpass hnot

/-- Of a round that returns: it is for one byte that passes for the flag, or it is the last one of
the file, which it makes longer. -/
theorem fwriteRest_returns {p src sz n x : Nat} {byte : UInt8} {r : (Nat × Nat × Nat) ⊕ Int}
    (h : NamesFile s path c cs) (hat : WrittenAt s c cs fp p t) (hx : p + x ≤ c.size)
    (hal : s.pagetable % 4096 = 0) (hsrc : src < 2 ^ 64)
    (hrun : fwriteRest fp byte src sz n p x t = .ok r u) :
    Lengthened (u.handles fp) ∨
      p + x < c.size ∧ x ≤ 1 ∧ (x = 1 → FlagPasses s.mm.mem s.pagetable byte src) := by
  unfold fwriteRest at hrun
  obtain ⟨_, v, hcopy, hrun⟩ := bind_eq_ok.mp hrun
  by_cases hend : p + x = c.size
  · left
    have hsize := hat.size_lt h
    have hv : v.handles = t.handles := keeps_copyToFlag byte src x _ _ _ hcopy
    rw [modify_bind] at hrun
    generalize hw : ({ v with info := { v.info with dirty := true } } : Fat32) = w at hrun
    have hfile : w.handles = t.handles := by
      rw [← hw]
      exact hv
    rw [bind_ok (growTo_inside (by rw [hfile, hat.size, hat.pos, hend]))] at hrun
    obtain ⟨q, y, hseek, hrun⟩ := bind_eq_ok.mp hrun
    have hy : Lengthened (y.handles fp) := by
      refine tfUnsafeFseek_lengthened (by rw [hfile]; exact hat.touched) (Or.inr ?_) hseek
      rw [hat.size] at hsize
      rw [hfile, hat.size, Int.zero_add, hend, toLong_natCast (by omega)]
    split at hrun
    · cases hrun
      exact hy
    · cases hrun
      exact hy
  · right
    refine ⟨by omega, ?_, ?_⟩
    · by_contra hmany
      exact copyToFlag_many (by omega) hcopy
    · rintro rfl
      have hal' : t.pagetable % 4096 = 0 := by
        rw [hat.pagetable]
        exact hal
      rcases copyToFlag_one byte hal' hsrc with ⟨hpass, _⟩ | ⟨_, hnever⟩
      · rw [hat.mem, hat.pagetable] at hpass
        exact hpass
      · exact absurd hcopy (hnever v)

/-! ## The loop -/

/-- A file that is too long stays so. -/
theorem fwriteRound_lengthened {i : Nat × Nat × Nat} {r : (Nat × Nat × Nat) ⊕ Int}
    (h : Lengthened (s.handles fp)) (hrun : fwriteRound fp i s = .ok r t) :
    Lengthened (t.handles fp) := by
  obtain ⟨src, sz, n⟩ := i
  unfold fwriteRound at hrun
  simp only at hrun
  split at hrun
  · cases hrun
    exact h
  · rw [bind_ok (getFile_run s fp), read_bind] at hrun
    obtain ⟨_, u, hfetch, hrun⟩ := bind_eq_ok.mp hrun
    have hu : u.handles = s.handles := uncached_handles.tfFetch _ _ _ _ hfetch
    split at hrun
    · cases hrun
    · rw [read_bind] at hrun
      obtain ⟨_, v, hcopy, hrun⟩ := bind_eq_ok.mp hrun
      have hv : v.handles = u.handles := keeps_copyToFlag _ _ _ _ _ _ hcopy
      rw [modify_bind] at hrun
      obtain ⟨_, w, hgrow, hrun⟩ := bind_eq_ok.mp hrun
      have hw : Lengthened (w.handles fp) := by
        refine Lengthened.growTo ?_ hgrow
        show Lengthened (v.handles fp)
        rw [hv, hu]
        exact h
      obtain ⟨q, y, hseek, hrun⟩ := bind_eq_ok.mp hrun
      have hy := tfUnsafeFseek_lengthened hw.toTouched (Or.inl hw) hseek
      split at hrun
      · cases hrun
        exact hy
      · cases hrun
        exact hy

theorem fwrite_loop_lengthened {fuel : Nat} {i : Nat × Nat × Nat} {r : Int}
    (h : Lengthened (s.handles fp)) (hrun : loop (fwriteRound fp) fuel i s = .ok r t) :
    Lengthened (t.handles fp) := by
  induction fuel generalizing i s with
  | zero => cases hrun
  | succ fuel ih =>
    rw [loop_succ] at hrun
    obtain ⟨x, u, hround, hrest⟩ := bind_eq_ok.mp hrun
    have hu := fwriteRound_lengthened h hround
    cases x with
    | inl j => exact ih hu hrest
    | inr a =>
      cases hrest
      exact hu

/-- A write that only gives back what there is: the rounds are for one byte each, the end of the
file is not reached, and each byte passes for the flag. -/
structure GivesBack (s : Fat32) (c : TFFile) (cs : List Nat) (src p sz : Nat) : Prop where
  inside : p + sz < c.size
  short : sz = 1 ∨ sz = 2 ∧ p % 512 = 511
  passes : ∀ i < sz, FlagPasses s.mm.mem s.pagetable
    (fileByte s.info.shape s.volume cs (p + i)) (src + i)

/-- Such a write returns. -/
theorem GivesBack.loop_run {src sz p : Nat} (fuel n : Nat) (h : NamesFile s path c cs)
    (hat : WrittenAt s c cs fp p t) (hal : s.pagetable % 4096 = 0) (hsrc : src + sz ≤ 2 ^ 64)
    (hw : GivesBack s c cs src p sz) (hfuel : sz < fuel) :
    ∃ u, loop (fwriteRound fp) fuel (src, sz, n) t = .ok (n + sz : Nat) u ∧
      WrittenAt s c cs fp (p + sz) u := by
  -- one round, from a position where it is for one byte
  have hone : ∀ {t src sz n p}, WrittenAt s c cs fp p t → src < 2 ^ 64 → 0 < sz → p + 1 < c.size →
      (sz = 1 ∨ p % 512 = 511) →
      FlagPasses s.mm.mem s.pagetable (fileByte s.info.shape s.volume cs p) src →
      ∃ u, fwriteRound fp (src, sz, n) t = .ok (.inl (src + 1, sz - 1, n + 1)) u ∧
        WrittenAt s c cs fp (p + 1) u := by
    intro t src sz n p hat hsrc hsz hp hshort hpass
    obtain ⟨v, hv, hstart⟩ := fwriteRound_starts h hat (by omega) hsz src n
    have hbytes : roundBytes c p sz = 1 := by
      unfold roundBytes
      omega
    obtain ⟨u, hrest, hu⟩ := fwriteRest_one sz n h hv hp hal hsrc hpass
    rw [hbytes] at hstart
    exact ⟨u, hstart.trans hrest, hu⟩
  have hinside := hw.inside
  obtain ⟨fuel, rfl⟩ := Nat.exists_eq_succ_of_ne_zero (Nat.ne_zero_of_lt hfuel)
  obtain ⟨fuel, rfl⟩ : ∃ k, fuel = k + 1 := ⟨fuel - 1, by have := hw.short; omega⟩
  rcases hw.short with rfl | ⟨rfl, hend⟩
  · obtain ⟨u, hround, hu⟩ := hone hat (by omega) Nat.one_pos hinside (Or.inl rfl)
      (hw.passes 0 Nat.one_pos) (n := n)
    exact ⟨u, (loop_again hround _).trans (loop_done rfl _), hu⟩
  · obtain ⟨fuel, rfl⟩ : ∃ k, fuel = k + 1 := ⟨fuel - 1, by omega⟩
    obtain ⟨u, hround, hu⟩ := hone hat (by omega) Nat.two_pos (by omega) (Or.inr hend)
      (hw.passes 0 Nat.two_pos) (n := n)
    obtain ⟨v, hround', hv⟩ := hone hu (by omega) Nat.one_pos hinside (Or.inl rfl)
      (hw.passes 1 Nat.one_lt_two) (n := n + 1)
    exact ⟨v, (loop_again hround _).trans ((loop_again hround' _).trans (loop_done rfl _)), hv⟩

/-- Any other write of a byte or more makes the file longer, if it comes to an end. -/
theorem fwrite_loop_returns {fuel src sz n p : Nat} {r : Int} (h : NamesFile s path c cs)
    (hat : WrittenAt s c cs fp p t) (hp : p ≤ c.size) (hal : s.pagetable % 4096 = 0)
    (hsrc : src + sz ≤ 2 ^ 64) (hsz : 0 < sz)
    (hrun : loop (fwriteRound fp) fuel (src, sz, n) t = .ok r u) :
    Lengthened (u.handles fp) ∨ GivesBack s c cs src p sz := by
  induction fuel generalizing t src sz n p with
  | zero => cases hrun
  | succ fuel ih =>
    obtain ⟨v, hv, hstart⟩ := fwriteRound_starts h hat hp hsz src n
    rw [loop_succ] at hrun
    obtain ⟨x, w, hround, hrest⟩ := bind_eq_ok.mp hrun
    rw [hstart] at hround
    have hle : p + roundBytes c p sz ≤ c.size := by
      unfold roundBytes
      omega
    rcases fwriteRest_returns h hv hle hal (by omega) hround with hlong | ⟨hinside, hfew, hpass⟩
    · left
      cases x with
      | inl j => exact fwrite_loop_lengthened hlong hrest
      | inr a =>
        cases hrest
        exact hlong
    · have hbytes : roundBytes c p sz = 1 := by
        unfold roundBytes at hinside hfew ⊢
        omega
      have hfirst := hpass hbytes
      rw [hbytes] at hround hinside
      have hshort : sz = 1 ∨ p % 512 = 511 := by
        unfold roundBytes at hbytes
        omega
      by_cases hlast : sz = 1
      · subst hlast
        refine Or.inr ⟨hinside, Or.inl rfl, fun i hi => ?_⟩
        obtain rfl : i = 0 := by omega
        exact hfirst
      · obtain ⟨w', hround', hw'⟩ := fwriteRest_one sz n h hv hinside hal (by omega) hfirst
        rw [hround'] at hround
        cases hround
        rcases ih hw' (by omega) (by omega) (by omega) hrest with hlong | hgives
        · exact Or.inl hlong
        · have hinside' := hgives.inside
          have hshort' := hgives.short
          obtain rfl : sz = 2 := by omega
          refine Or.inr ⟨by omega, Or.inr ⟨rfl, by omega⟩, fun i hi => ?_⟩
          by_cases hi0 : i = 0
          · subst hi0
            exact hfirst
          · obtain rfl : i = 1 := by omega
            exact hgives.passes 0 Nat.one_pos

/-! ## The whole of `write` -/

/-- A file that is as long as before is closed. -/
theorem WrittenAt.close {p : Nat} (hat : WrittenAt s c cs fp p t) :
    ∃ u, tfFclose fp t = .ok 0 u ∧ s.view.On u := by
  obtain ⟨v, hstore, hsame, hhandles, _⟩ := storeDirty_run hat.view.1
  have hflush : ∃ f, tfFflush flushDepth fp t = .ok 0 (v.setFile fp f) := by
    unfold flushDepth tfFflush
    rw [bind_ok (getFile_run t fp), if_neg hat.touched.dirty, bind_ok hstore,
      if_pos (Or.inl hat.unchanged)]
    exact ⟨_, rfl⟩
  obtain ⟨f, hflush⟩ := hflush
  have hv : s.view.On v := ⟨hsame.coherent, (view_of_same hsame).trans hat.view.2⟩
  unfold tfFclose
  rw [bind_ok hflush]
  exact ⟨_, rfl, ((untouched_setFile v fp f).trans (untouched_setFile _ fp _)).on hv⟩

/-- A file that has become longer is not: its entry would have to be written. -/
theorem Lengthened.close {r : Int} (h : Lengthened (t.handles fp)) (hfree : t.Free) :
    tfFclose fp t ≠ .ok r u := by
  intro hrun
  obtain ⟨rc, v, hflush, _⟩ := bind_eq_ok.mp hrun
  unfold flushDepth tfFflush at hflush
  rw [bind_ok (getFile_run t fp), if_neg h.dirty] at hflush
  obtain ⟨_, w, hstore, hflush⟩ := bind_eq_ok.mp hflush
  rw [if_neg (not_or.mpr ⟨h.changed, not_not_intro h.regular⟩)] at hflush
  obtain ⟨dir, x, hparent, hflush⟩ := bind_eq_ok.mp hflush
  have hw : Settled t w := by
    have hread := reading_storeDirty t
    rw [hstore] at hread
    exact hread
  have hopened : Within True w _ _ := tfParent_within
    (t.handles fp).filename w fun _ => hw.toCalm.free.mpr hfree
  rw [hparent] at hopened
  cases dir with
  | null => cases hflush
  | invalid =>
    obtain ⟨⟨name, hfull, _⟩, _⟩ := hopened
    exact hfull (hw.toCalm.free.mpr hfree)
  | handle d =>
    obtain ⟨_, y, hderef, hflush⟩ := bind_eq_ok.mp hflush
    cases hderef
    obtain ⟨_, z, hentry, _⟩ := bind_eq_ok.mp hflush
    exact flushEntry_never (tfParent_parentFile hparent).2 _ hentry

/-! ## What is in a file -/

/-- On the same volume the path names the same file. -/
theorem NamesFile.again (h : NamesFile s path c cs) (hon : s.view.On t) (hfree : t.Free) :
    NamesFile t path c cs := by
  have hshape : t.info.shape = s.info.shape := congrArg View.shape hon.2
  obtain ⟨fp, u, hopen⟩ := tfFopen_finds hon hfree h.found
  refine ⟨hon.1, ?_, ⟨fp, u, hopen .r rfl⟩, ?_, h.regular, h.start, ?_, ?_⟩
  · rw [hshape]
    exact h.valid
  · rw [hon.2]
    exact h.found
  · rw [hshape, hon.volume]
    exact h.chain
  · rw [hshape]
    exact h.room

/-- The entry of the file at the path says how many bytes there are, and these are what is read. -/
structure HoldsBytes (t : Fat32) (path : CStr) (bytes : List UInt8) : Prop where
  size : ∃ c, t.view.lookup path = .ok true c ∧ c.size = bytes.length
  reads : ∀ offset n : Nat, offset < bytes.length → offset < 2 ^ 31 → n < 2 ^ 31 →
    ∃ u, Fat32.read path offset n t = .ok (some ((bytes.drop offset).take n)) u

/-- The bytes of the file. -/
def fileContent (s : Fat32) (c : TFFile) (cs : List Nat) : List UInt8 :=
  fileBytes s.info.shape s.volume cs 0 c.size

theorem fileBytes_take (shape : TFShape) (v : Mem) (cs : List Nat) (p n k : Nat) :
    (fileBytes shape v cs p k).take n = fileBytes shape v cs p (min n k) := by
  rw [fileBytes, ← List.map_take, List.take_range, fileBytes]

theorem fileContent_part {offset : Nat} (h : offset ≤ c.size) (n : Nat) :
    ((fileContent s c cs).drop offset).take n =
      fileBytes s.info.shape s.volume cs offset (min n (c.size - offset)) := by
  have hsplit := fileBytes_append s.info.shape s.volume cs 0 offset (c.size - offset)
  rw [Nat.zero_add, Nat.add_sub_cancel' h] at hsplit
  rw [fileContent, ← hsplit, List.drop_left' (fileBytes_length ..), fileBytes_take]

theorem NamesFile.holds (h : NamesFile s path c cs) : HoldsBytes s path (fileContent s c cs) := by
  refine ⟨⟨c, h.found, (fileBytes_length ..).symm⟩, fun offset n hlt hoff hn => ?_⟩
  have hlt' : offset < c.size := by
    rw [fileContent, fileBytes_length] at hlt
    exact hlt
  obtain ⟨t, hrun, _⟩ := h.read_run hoff hn
  rw [if_pos hlt'] at hrun
  rw [fileContent_part (Nat.le_of_lt hlt')]
  exact ⟨t, hrun⟩

/-- A read shows what is there. -/
theorem HoldsBytes.part {bytes : List UInt8} (hb : HoldsBytes s path bytes)
    (h : NamesFile s path c cs) {offset n : Nat} (hlt : offset < c.size) (hoff : offset < 2 ^ 31)
    (hn : n < 2 ^ 31) : (bytes.drop offset).take n = ((fileContent s c cs).drop offset).take n := by
  obtain ⟨d, hlookup, hlength⟩ := hb.size
  rw [h.found] at hlookup
  cases hlookup
  obtain ⟨t, hread⟩ := hb.reads offset n (hlength ▸ hlt) hoff hn
  obtain ⟨u, hread'⟩ := h.holds.reads offset n
    (by rw [fileContent, fileBytes_length]; exact hlt) hoff hn
  rw [hread] at hread'
  exact Option.some.inj (Res.ok.inj hread').1

/-- Where the volume is the same, the file holds the same bytes. -/
theorem HoldsBytes.again {bytes : List UInt8} (hb : HoldsBytes s path bytes)
    (h : NamesFile s path c cs) (hon : s.view.On t) (hfree : t.Free) : HoldsBytes t path bytes := by
  obtain ⟨d, hlookup, hlength⟩ := hb.size
  refine ⟨⟨d, ?_, hlength⟩, fun offset n hlt hoff hn => ?_⟩
  · rw [hon.2]
    exact hlookup
  · rw [h.found] at hlookup
    cases hlookup
    have hinside : offset < c.size := hlength ▸ hlt
    obtain ⟨u, hread, _⟩ := (h.again hon hfree).read_run hoff hn
    rw [if_pos hinside, show t.info.shape = s.info.shape from congrArg View.shape hon.2,
      hon.volume] at hread
    rw [hb.part h hinside hoff hn, fileContent_part (Nat.le_of_lt hinside)]
    exact ⟨u, hread⟩

/-- `old` with `data` in the place of the bytes from `offset` on. -/
def replaced (old : List UInt8) (offset : Nat) (data : List UInt8) : List UInt8 :=
  old.take offset ++ data ++ old.drop (offset + data.length)

theorem replaced_nil (old : List UInt8) (offset : Nat) : replaced old offset [] = old := by
  simp [replaced]

/-- The data is in its place. -/
theorem replaced_part (old data : List UInt8) {offset : Nat} (h : offset ≤ old.length) :
    ((replaced old offset data).drop offset).take data.length = data := by
  have hlen : (old.take offset).length = offset := by
    rw [List.length_take]
    omega
  rw [replaced, List.append_assoc, List.drop_left' hlen, List.take_left]

/-- Data that is there already. -/
theorem replaced_same {old : List UInt8} {offset n : Nat} (h : offset + n ≤ old.length) :
    replaced old offset ((old.drop offset).take n) = old := by
  have hlen : ((old.drop offset).take n).length = n := by
    rw [List.length_take, List.length_drop]
    omega
  rw [replaced, hlen, List.append_assoc, ← List.drop_drop, List.take_append_drop,
    List.take_append_drop]

/-! ## Writing -/

/-- `write` returns `n`, the file has the `n` bytes from `buf` in the place of those from the offset
on, and all other files are as they were. -/
structure WrittenTo (s : Fat32) (path : CStr) (c : TFFile) (cs : List Nat) (buf offset n : Nat)
    (t : Fat32) : Prop where
  returns : Fat32.write path buf offset n s = .ok n t
  file : HoldsBytes t path (replaced (fileContent s c cs) offset (load s.mm.mem buf n))
  size : ∃ d, t.view.lookup path = .ok true d ∧ d.size = max c.size (offset + n)
  others : ∀ other d ds bytes, NamesFile s other d ds → d.startCluster ≠ c.startCluster →
    HoldsBytes s other bytes → HoldsBytes t other bytes

def WritesExactly (s : Fat32) (path : CStr) (c : TFFile) (cs : List Nat) (buf offset n : Nat) :
    Prop := ∃ t, WrittenTo s path c cs buf offset n t

/-- Where `write` has the file when it comes to the first byte. -/
def writeStart (c : TFFile) (offset : Nat) : Nat := if offset < c.size then offset else 0

theorem flags_open (h : s.view.lookup path = .ok true c) : c.flags &&& tfFlagSizechanged = 0 :=
  View.lookup_at (P := fun f => f.flags &&& tfFlagSizechanged = 0)
    (fun _ _ => (by decide : tfFlagOpen &&& tfFlagSizechanged = 0)) (by decide) h

/-- The file is opened, moved to the first byte and marked. -/
theorem NamesFile.write_starts (h : NamesFile s path c cs) (hfree : s.Free) {offset : Nat}
    (hoff : offset < 2 ^ 63) (buf n : Nat) : ∃ fp t, WrittenAt s c cs fp (writeStart c offset) t ∧
      (∀ x u, loop (fwriteRound fp) fileRounds (buf, n, 0) t = .ok x u → s.Room → u.Free) ∧
      Fat32.write path buf offset n s = (loop (fwriteRound fp) fileRounds (buf, n, 0) >>= fun x =>
        tfFclose fp >>= fun _ => pure x) t := by
  obtain ⟨fp, t, hopen⟩ := tfFopen_finds ⟨h.coherent, rfl⟩ hfree h.found
  have hread := hopen .r rfl
  obtain ⟨fp', t', hopened, hat, hstale, hfile⟩ := h.opened
  cases hread.symm.trans hopened
  obtain ⟨r, u, hseek, hu, hmoved⟩ := h.seek hat hoff
  have hmemory := (tfFopen_opens h.coherent hread).memory
  have hflags : (t.handles fp).flags &&& tfFlagSizechanged = 0 := by
    have hc := flags_open h.found
    rw [← hfile] at hc
    exact hc
  have hregular : (t.handles fp).attributes &&& tfAttrDirectory = 0 := by
    have hc := h.regular
    rw [← hfile] at hc
    exact hc
  generalize hv : u.setFile fp { u.handles fp with
    flags := (u.handles fp).flags ||| tfFlagDirty } = v
  have hfile' : v.handles fp = { u.handles fp with
      flags := (u.handles fp).flags ||| tfFlagDirty } := by
    rw [← hv, u.setFile_self]
  refine ⟨fp, v, ⟨?_, ?_, ?_, ⟨?_, ?_⟩, ?_, ?_, ?_, ?_⟩,
    fun x w hloop hroom => ?_, ?_⟩
  · rw [← hv]
    exact (untouched_setFile u fp _).on (hu.onView (hmoved.same.stale.trans hstale))
  · rw [← hv]
    exact congrArg MemState.mem (hmoved.same.mm.trans (congrArg Prod.fst hmemory))
  · rw [← hv]
    exact hmoved.same.pagetable.trans (congrArg Prod.snd hmemory)
  · rw [TFFile.IsDirty, hfile', Nat.and_or_distrib_right]
    exact fun h0 => absurd (Nat.or_eq_zero_iff.mp h0).2 (by decide)
  · rw [hfile', hmoved.file]
    exact hregular
  · rw [hfile', hmoved.file, Nat.and_or_distrib_right]
    exact Nat.or_eq_zero_iff.mpr ⟨hflags, rfl⟩
  · rw [hfile']
    exact ⟨hu.on.start, congrArg (fun f : TFFile => { f with
      flags := (u.handles fp).flags ||| tfFlagDirty }) hu.on.here⟩
  · rw [hfile']
    exact hu.pos
  · rw [hfile']
    exact hu.size
  · have htook : Within True s _ _ := lookup_opened path s fun _ => hfree
    rw [hread] at htook
    obtain ⟨⟨name, htook, _⟩, _⟩ := htook
    have hsought := reading_tfFseek fp 0 offset t
    rw [hseek] at hsought
    have hwrite : tfFwrite buf n fp u = .ok x w := by
      unfold tfFwrite
      rw [bind_ok (modifyFile_run u fp _), hv]
      exact hloop
    have hquiet := quiet_tfFwrite buf n fp u
    rw [hwrite] at hquiet
    exact (htook.calm (hsought.toCalm.trans hquiet.toCalm)).free_handle hroom
  · unfold Fat32.write
    rw [bind_ok (hopen .p rfl), bind_ok (show (FilePtr.handle fp).deref t = .ok fp t from rfl),
      bind_ok hseek, Int.toNat_natCast, tfFwrite, bind_assoc_apply, bind_ok (modifyFile_run u fp _),
      hv]

/-- A write that returns has written nothing, or it has given back what was there. -/
theorem NamesFile.write_returns (h : NamesFile s path c cs) (hroom : s.Room)
    (hal : s.pagetable % 4096 = 0) {buf offset n : Nat} (hoff : offset < 2 ^ 63)
    (hbuf : buf + n ≤ 2 ^ 64) {r : Int} (hrun : Fat32.write path buf offset n s = .ok r t) :
    n = 0 ∨ GivesBack s c cs buf (writeStart c offset) n := by
  obtain ⟨fp, u, hat, hfree, hwrite⟩ := h.write_starts hroom.free hoff buf n
  rw [hwrite] at hrun
  obtain ⟨x, v, hloop, hrun⟩ := bind_eq_ok.mp hrun
  obtain ⟨y, w, hclose, _⟩ := bind_eq_ok.mp hrun
  have hstart : writeStart c offset ≤ c.size := by
    unfold writeStart
    split
    · omega
    · exact Nat.zero_le _
  rcases Nat.eq_zero_or_pos n with hn | hn
  · exact Or.inl hn
  · rcases fwrite_loop_returns h hat hstart hal hbuf hn hloop with hlong | hgives
    · exact absurd hclose (hlong.close (hfree x v hloop hroom))
    · exact Or.inr hgives

/-- It leaves the volume as it is. -/
theorem NamesFile.write_run (h : NamesFile s path c cs) (hfree : s.Free)
    (hal : s.pagetable % 4096 = 0) {buf offset n : Nat} (hoff : offset < 2 ^ 63)
    (hbuf : buf + n ≤ 2 ^ 64) (hw : n = 0 ∨ GivesBack s c cs buf (writeStart c offset) n) :
    ∃ t, Fat32.write path buf offset n s = .ok n t ∧ s.view.On t := by
  obtain ⟨fp, u, hat, _, hwrite⟩ := h.write_starts hfree hoff buf n
  have hloop : ∃ v p, loop (fwriteRound fp) fileRounds (buf, n, 0) u = .ok n v ∧
      WrittenAt s c cs fp p v := by
    rcases hw with rfl | hw
    · exact ⟨u, _, loop_done rfl (2 ^ 33 - 1), hat⟩
    · have hshort := hw.short
      obtain ⟨v, hloop, hv⟩ := hw.loop_run fileRounds 0 h hat hal hbuf
        (by unfold fileRounds; omega)
      rw [Nat.zero_add] at hloop
      exact ⟨v, _, hloop, hv⟩
  obtain ⟨v, p, hloop, hv⟩ := hloop
  obtain ⟨w, hclose, hon⟩ := hv.close
  refine ⟨w, ?_, hon⟩
  rw [hwrite, bind_ok hloop, bind_ok hclose]
  rfl

/-- The condition under which `write` does what it should: there is nothing to write, or what is
there already. -/
structure WritesBack (s : Fat32) (c : TFFile) (cs : List Nat) (buf offset n : Nat) : Prop where
  gives : GivesBack s c cs buf offset n
  same : load s.mm.mem buf n = fileBytes s.info.shape s.volume cs offset n

theorem NamesFile.writes (h : NamesFile s path c cs) (hroom : s.Room)
    (hal : s.pagetable % 4096 = 0) {buf offset n : Nat} (hoff : offset ≤ c.size)
    (hbuf : buf + n ≤ 2 ^ 64) (hw : n = 0 ∨ WritesBack s c cs buf offset n) :
    WritesExactly s path c cs buf offset n := by
  have hsize := (View.lookup_entered h.found).size
  have hw' : n = 0 ∨ GivesBack s c cs buf (writeStart c offset) n := by
    refine hw.imp id fun hw => ?_
    have hinside := hw.gives.inside
    rw [writeStart, if_pos (by omega)]
    exact hw.gives
  obtain ⟨t, hrun, hon⟩ := h.write_run hroom.free hal (by omega) hbuf hw'
  have hcalm : Within True s _ _ := write_within path buf offset n s fun _ => hroom
  rw [hrun] at hcalm
  have hfree : t.Free := hcalm.1.free.mpr hroom.free
  have hreplaced : replaced (fileContent s c cs) offset (load s.mm.mem buf n) =
      fileContent s c cs := by
    rcases hw with rfl | hw
    · exact replaced_nil _ _
    · have hinside := hw.gives.inside
      have hmin : min n (c.size - offset) = n := by omega
      have hpart : ((fileContent s c cs).drop offset).take n = _ := fileContent_part hoff n
      rw [hmin] at hpart
      rw [hw.same, ← hpart]
      exact replaced_same (by rw [fileContent, fileBytes_length]; omega)
  refine ⟨t, hrun, ?_, ⟨c, ?_, ?_⟩, fun other d ds bytes hd _ hbytes => ?_⟩
  · rw [hreplaced]
    exact h.holds.again h hon hfree
  · rw [hon.2]
    exact h.found
  · rcases hw with rfl | hw
    · omega
    · have hinside := hw.gives.inside
      omega
  · exact hbytes.again hd hon hfree

theorem WritesExactly.back (h : NamesFile s path c cs) (hroom : s.Room)
    (hal : s.pagetable % 4096 = 0) {buf offset n : Nat} (hoff : offset ≤ c.size)
    (hoff31 : offset < 2 ^ 31) (hn : n < 2 ^ 31) (hbuf : buf + n ≤ 2 ^ 64)
    (hw : WritesExactly s path c cs buf offset n) : n = 0 ∨ WritesBack s c cs buf offset n := by
  obtain ⟨t, hw⟩ := hw
  rcases h.write_returns hroom hal (by omega) hbuf hw.returns with hn0 | hgives
  · exact Or.inl hn0
  · right
    have hpos : 0 < n := by
      have := hgives.short
      omega
    obtain ⟨u, hrun, hon⟩ := h.write_run hroom.free hal (by omega) hbuf (Or.inr hgives)
    cases hw.returns.symm.trans hrun
    -- the size is what it was, so that the file has not been too short
    obtain ⟨d, hfound, hsize⟩ := hw.size
    rw [hon.2, h.found] at hfound
    cases hfound
    have hlt : offset < c.size := by omega
    rw [writeStart, if_pos hlt] at hgives
    refine ⟨hgives, ?_⟩
    have hcalm : Within True s _ _ := write_within path buf offset n s fun _ => hroom
    rw [hrun] at hcalm
    have hpart := hw.file.part (h.again hon (hcalm.1.free.mpr hroom.free)) hlt hoff31 hn
    have hinside := hgives.inside
    have hmin : min n (c.size - offset) = n := by omega
    have hlen := load_length s.mm.mem buf n
    have hplace := replaced_part (fileContent s c cs) (load s.mm.mem buf n)
      (show offset ≤ (fileContent s c cs).length by rw [fileContent, fileBytes_length]; exact hoff)
    rw [hlen] at hplace
    rw [hplace, fileContent_part hoff, hmin, hon.volume,
      show t.info.shape = s.info.shape from congrArg View.shape hon.2] at hpart
    exact hpart

/-- `write` to a regular file does what it should exactly if there is nothing to write, or if it
gives back what is there: one byte before the last one, or the last byte of a sector and the one
behind it, and what is there passes for a flag. -/
theorem write_exact_iff (s : Fat32) (path : CStr) (c : TFFile) (cs : List Nat)
    (buf offset n : Nat) (h : NamesFile s path c cs) (hroom : s.Room)
    (hal : s.pagetable % 4096 = 0) (hoff : offset ≤ c.size) (hoff31 : offset < 2 ^ 31)
    (hn : n < 2 ^ 31) (hbuf : buf + n ≤ 2 ^ 64) :
    WritesExactly s path c cs buf offset n ↔ n = 0 ∨ WritesBack s c cs buf offset n :=
  ⟨WritesExactly.back h hroom hal hoff hoff31 hn hbuf, h.writes hroom hal hoff hbuf⟩

theorem helloVolume_room : helloVolume.Room := by
  unfold Fat32.Room
  decide

/-- A page table whose entries all lead to itself, and an `e` at `0x80500000`. -/
def echoMemory : Mem := fun a =>
  if a / 4096 = 0x80400 then [0x01, 0x00, 0x10, 0x20].getD (a % 8) 0
  else if a = 0x80500000 then 0x65
  else 0

/-- The volume with the file `hello`, and this memory. -/
def echoVolume : Fat32 :=
  { helloVolume with mm := { helloVolume.mm with mem := echoMemory }, pagetable := 0x80400000 }

theorem echoVolume_writesBack (c : TFFile) (hsize : c.size = 5) :
    WritesBack echoVolume c [3] 0x80500000 1 1 where
  gives :=
    { inside := by omega
      short := Or.inl rfl
      passes := by
        intro i hi
        obtain rfl : i = 0 := by omega
        exact Or.inr ⟨by decide, by decide +kernel, by decide +kernel⟩ }
  same := by decide +kernel

/-- The second byte of the file is given back. -/
theorem write_exact_iff_echo : ∃ c, c.size = 5 ∧
    WritesExactly echoVolume [slash, 0x41] c [3] 0x80500000 1 1 := by
  obtain ⟨c, h, hsize⟩ := helloVolume_names
  have hon : helloVolume.view.On echoVolume := ⟨helloVolume_coherent, rfl⟩
  have hroom : echoVolume.Room := helloVolume_room
  refine ⟨c, hsize, (write_exact_iff echoVolume [slash, 0x41] c [3] 0x80500000 1 1
    (h.again hon hroom.free) hroom (by decide) (by omega) (by decide) (by decide)
    (by decide)).mpr (Or.inr (echoVolume_writesBack c hsize))⟩

/-- Three bytes are not written over the beginning of the file. -/
theorem write_loses_data : ¬ ∀ s path c cs buf offset n, NamesFile s path c cs → s.Room →
    s.pagetable % 4096 = 0 → offset ≤ c.size → offset < 2 ^ 31 → n < 2 ^ 31 →
      buf + n ≤ 2 ^ 64 → WritesExactly s path c cs buf offset n := by
  intro hall
  obtain ⟨c, h, _⟩ := helloVolume_names
  have hexact := hall helloVolume _ c [3] 0x80500000 0 3 h helloVolume_room rfl (Nat.zero_le _)
    (by decide) (by decide) (by decide)
  rcases hexact.back h helloVolume_room rfl (Nat.zero_le _) (by decide) (by decide) (by decide)
    with hzero | hback
  · cases hzero
  · rcases hback.gives.short with hone | ⟨htwo, _⟩
    · cases hone
    · cases htwo

end PageFaultOS
