import Mathlib.Tactic
import PageFaultOS.Fs.Bio
import PageFaultOS.Proc.LockBalance

/-! The locks of the buffer cache of `fs/bio.cpp`: the spinlock of the layer, and the sleep lock
of each buffer as `sync/sleeplock.cpp` takes it. `BufferLayer::init` sets up the first of them a
hundred times; the others are zero as they are, which comes to the same. The driver's own locks
are left out. -/

namespace PageFaultOS
open Exec Exec.Comp

/-- `this->spinlock` and `b->sleeplock.lk`, and the channel of the sleep lock. -/
def layerLock : LockId := .other 0
def bufLk (i : Nat) : LockId := .other (1 + i)
def bufChan (i : Nat) : Addr := .other i

structure LayerWorld where
  kern : Kern
  layer : Buffers

abbrev LayerComp := Comp LayerWorld

namespace LayerWorld
variable (pswitch : KernComp Nat) (h : Nat)

def onKern {α : Type} (x : KernComp α) : LayerComp α := fun w =>
  match x w.kern with
  | .ok a σ => .ok a { w with kern := σ }
  | .fault f σ => .fault f { w with kern := σ }

def onLayer {α : Type} (x : BufComp α) : LayerComp α := fun w =>
  match x w.layer with
  | .ok a s => .ok a { w with layer := s }
  | .fault f s => .fault f { w with layer := s }

/-- `while(slk->locked)`, on the hart on which the process is. -/
def sleepRound (i : Nat) : Nat → LayerComp (Nat ⊕ Nat) := fun h => do
  let w ← read
  if (w.layer.bufCache i).sleeplock.isSome then do
    let h' ← onKern (sleep h (bufChan i) (bufLk i) pswitch)
    pure (.inl h')
  else
    pure (.inr h)

/-- `slk->locked = 1` comes before the process is known, with `slk->lk` still held. -/
def acquiresleep (i : Nat) : LayerComp Nat := do
  onKern (acquire h (bufLk i))
  let h ← loop (sleepRound pswitch i) callRounds h
  let p ← onKern (runningProc h)
  onLayer (BufferLayer.setBuf i fun b => { b with sleeplock := some p })
  onKern (release h (bufLk i))
  pure h

/-- The call returns the hart on which it comes back, and the buffer. -/
def allocBuffer (dev blockno : Int32) : LayerComp (Nat × Nat) := do
  onKern (acquire h layerLock)
  let w ← read
  match BufferLayer.scan w.layer.bufCache blockno (List.range BUFFER_NUM) none with
  | .inl i => do
    onKern (release h layerLock)
    onLayer (BufferLayer.setBuf i fun b => { b with
      refcnt := b.refcnt + 1, lastUseTick := w.layer.ticks.toUInt64 })
    let h ← acquiresleep pswitch h i
    pure (h, i)
  | .inr none => do
    onKern (release h layerLock)
    Comp.panic "alloc buf"
  | .inr (some i) => do
    onKern (release h layerLock)
    onLayer (BufferLayer.setBuf i fun b => { b with
      valid := false, refcnt := 1, blockno := blockno, dev := dev
      lastUseTick := w.layer.ticks.toUInt64 })
    let h ← acquiresleep pswitch h i
    pure (h, i)

def bufferRead (dev blockno : Int32) : LayerComp (Nat × Nat) := do
  let (h, i) ← allocBuffer pswitch h dev blockno
  let w ← read
  if !(w.layer.bufCache i).valid then onLayer (BufferLayer.diskRead i)
  onLayer (BufferLayer.setBuf i fun b => { b with valid := true })
  pure (h, i)

/-- The sleep lock of the buffer is not given back, and the spinlock of the layer twice. -/
def freeBuffer (i : Nat) : LayerComp Unit := do
  onKern (acquire h layerLock)
  onLayer (BufferLayer.setBuf i fun b => { b with refcnt := b.refcnt - 1 })
  onKern (release h layerLock)
  onLayer (BufferLayer.write i)
  onKern (release h layerLock)

end LayerWorld

/-- A call that gets a buffer, on hart `h`. -/
structure BufferGet where
  h : Nat
  reads : Bool
  dev : Int32
  blockno : Int32

def BufferGet.run (pswitch : KernComp Nat) (c : BufferGet) : LayerComp (Nat × Nat) :=
  if c.reads then LayerWorld.bufferRead pswitch c.h c.dev c.blockno
  else LayerWorld.allocBuffer pswitch c.h c.dev c.blockno

/-- The call returns a buffer, and `freeBuffer` gives it back: both locks are free, and `refcnt`
is what it was. -/
def PairMeets (pswitch : KernComp Nat) (c : BufferGet) (w w' : LayerWorld) : Prop :=
  ∃ h i w1, c.run pswitch w = .ok (h, i) w1 ∧ LayerWorld.freeBuffer h i w1 = .ok () w' ∧
    (w'.kern.locks layerLock).locked = false ∧ (w'.layer.bufCache i).sleeplock = none ∧
    (w'.layer.bufCache i).refcnt = (w.layer.bufCache i).refcnt

/-- The pairs go well one after the other. -/
def PairsMeet (pswitch : KernComp Nat) : List BufferGet → LayerWorld → Prop
  | [], _ => True
  | c :: calls, w => ∃ w', PairMeets pswitch c w w' ∧ PairsMeet pswitch calls w'

/-! ## Giving a lock back twice -/

section
variable {σ σ' : Kern} {h i : Nat} {l : LockId}

theorem release_not_held (hnot : ¬ σ.Holds h l) : release h l σ = .fault (.panic "release") σ := by
  simp [release, releaseEnter, holding, bind_apply, hnot]

theorem popOff_locks : Keeps Kern.locks (popOff h) := by
  have hget : Keeps Kern.locks (intrGet h) := keeps_bind (keeps_read _) fun _ => keeps_pure _ _
  have hcpu : ∀ f, Keeps Kern.locks (setCpu h f) := fun _ => keeps_modify fun _ => rfl
  have hon : Keeps Kern.locks (intrOn h) := keeps_modify fun _ => rfl
  unfold popOff
  refine keeps_bind hget fun ie => keeps_ite (keeps_fault _ _) ?_
  refine keeps_bind (keeps_read _) fun σ => keeps_ite (keeps_fault _ _) ?_
  refine keeps_ite (keeps_fault _ _) (keeps_bind (hcpu _) fun _ => ?_)
  exact keeps_bind (keeps_read _) fun σ => keeps_ite hon (keeps_pure _ _)

/-- A lock that has been given back is free. -/
theorem release_frees (hrun : release h l σ = .ok () σ') : σ'.locks l = ⟨false, none⟩ := by
  by_cases hheld : σ.Holds h l
  · simp only [release, releaseEnter, lockRelease, holding, setLock, bind_apply, read_apply,
      pure_apply, hheld, decide_true, if_true, modify_apply] at hrun
    have hlocks := popOff_locks _ _ _ hrun
    rw [hlocks]
    simp
  · rw [release_not_held hheld] at hrun
    cases hrun

end

namespace LayerWorld
variable {pswitch : KernComp Nat} {h i : Nat} {w : LayerWorld}

theorem onKern_eq_ok {α : Type} {x : KernComp α} {a : α} {w w' : LayerWorld}
    (hrun : onKern x w = .ok a w') : x w.kern = .ok a w'.kern ∧ w'.layer = w.layer := by
  unfold onKern at hrun
  cases hx : x w.kern with
  | ok b σ =>
    rw [hx] at hrun
    cases hrun
    exact ⟨rfl, rfl⟩
  | fault f σ =>
    rw [hx] at hrun
    cases hrun

theorem onLayer_eq_ok {α : Type} {x : BufComp α} {a : α} {w w' : LayerWorld}
    (hrun : onLayer x w = .ok a w') : w'.kern = w.kern := by
  unfold onLayer at hrun
  cases hx : x w.layer with
  | ok b s =>
    rw [hx] at hrun
    cases hrun
    rfl
  | fault f s =>
    rw [hx] at hrun
    cases hrun

/-- From no state does `freeBuffer` return. -/
theorem freeBuffer_never (h i : Nat) (w w' : LayerWorld) : freeBuffer h i w ≠ .ok () w' := by
  intro hrun
  unfold freeBuffer at hrun
  obtain ⟨_, w1, _, hrun⟩ := bind_eq_ok.mp hrun
  obtain ⟨_, w2, _, hrun⟩ := bind_eq_ok.mp hrun
  obtain ⟨_, w3, hrelease, hrun⟩ := bind_eq_ok.mp hrun
  obtain ⟨_, w4, hwrite, hagain⟩ := bind_eq_ok.mp hrun
  have hfree : w4.kern.locks layerLock = ⟨false, none⟩ := by
    rw [onLayer_eq_ok hwrite]
    exact release_frees (onKern_eq_ok hrelease).1
  have hnot : ¬ w4.kern.Holds h layerLock := by
    rintro ⟨hlocked, _⟩
    rw [hfree] at hlocked
    cases hlocked
  have hsecond := (onKern_eq_ok hagain).1
  rw [release_not_held hnot] at hsecond
  cases hsecond

/-- Nor does `acquiresleep`, which asks for the process with `slk->lk` held. -/
theorem acquiresleep_never (hnoff : 0 ≤ (w.kern.cpus h).noff) (h' : Nat) (w' : LayerWorld) :
    acquiresleep pswitch h i w ≠ .ok h' w' := by
  intro hrun
  unfold acquiresleep at hrun
  obtain ⟨_, w1, hacquire, hrun⟩ := bind_eq_ok.mp hrun
  have hdeep : 1 ≤ (w1.kern.cpus h).noff := by
    rw [acquire_noff (onKern_eq_ok hacquire).1]
    omega
  obtain ⟨h1, w2, hloop, hrun⟩ := bind_eq_ok.mp hrun
  obtain ⟨n, hn⟩ : ∃ n, callRounds = n + 1 := ⟨2 ^ 32 - 1, rfl⟩
  rw [hn, loop_succ] at hloop
  obtain ⟨r, w3, hround, hloop⟩ := bind_eq_ok.mp hloop
  unfold sleepRound at hround
  rw [read_bind] at hround
  split at hround
  · obtain ⟨h2, w4, hsleep, -⟩ := bind_eq_ok.mp hround
    obtain ⟨f, s, hfault⟩ := sleep_neverSwitches (bufChan i) (bufLk i) hdeep
    have hsleep := (onKern_eq_ok hsleep).1
    rw [hfault] at hsleep
    cases hsleep
  · cases hround
    cases hloop
    obtain ⟨p, w4, hproc, -⟩ := bind_eq_ok.mp hrun
    obtain ⟨f, s, hfault⟩ := runningProc_nested hdeep
    have hproc := (onKern_eq_ok hproc).1
    rw [hfault] at hproc
    cases hproc

end LayerWorld

theorem not_pairMeets (pswitch : KernComp Nat) (c : BufferGet) (w w' : LayerWorld) :
    ¬ PairMeets pswitch c w w' := by
  rintro ⟨h, i, w1, -, hfree, -⟩
  exact LayerWorld.freeBuffer_never h i w1 w' hfree

/-- No pair of calls goes well, so only the run without any does. -/
theorem pairs_meet_iff (pswitch : KernComp Nat) (w : LayerWorld) (calls : List BufferGet) :
    PairsMeet pswitch calls w ↔ calls = [] := by
  cases calls with
  | nil => exact iff_of_true trivial rfl
  | cons c calls =>
    refine iff_of_false ?_ (List.cons_ne_nil c calls)
    rintro ⟨w', hpair, -⟩
    exact not_pairMeets pswitch c w w' hpair

/-- The cache at boot, with process 1 on hart 0. -/
def bootLayer : LayerWorld := ⟨soloKern, ⟨fun _ => Buf.zero, 0, fun _ => .replicate 512 0⟩⟩

/-- It reads block 5 and gives the buffer back. -/
theorem pair_panics :
    ¬ PairsMeet (pure 0) [⟨0, true, 1, 5⟩] bootLayer := by
  rintro ⟨w', hpair, -⟩
  exact not_pairMeets (pure 0) _ bootLayer w' hpair

end PageFaultOS
