import Mathlib.Tactic
import PageFaultOS.Lib.Refine
import PageFaultOS.Fs.Virtio

/-! The sectors behind the virtio driver. The device finds a request by the descriptors that are in
memory when it comes to it, and the callers go on using their buffers as soon as the driver returns.
To them the whole is a disk that makes each transfer at once, some time between the call and its
return. -/

namespace PageFaultOS
open Refine

/-- A sector, and the data of a `struct buf`. -/
abbrev BlockData : Type := Fin 512 → UInt8

/-- The driver and the device with what they move. -/
structure BlockWorld where
  driver : VirtioWorld
  sectors : UInt64 → BlockData
  buffers : Nat → BlockData

/-- What the callers see of the disk; the data of a return is that of the buffer. -/
inductive DiskEvent where
  | call (p : Nat) (c : RwCall)
  | ret (p : Nat) (c : RwCall) (x : BlockData)
  | fill (b : Nat) (x : BlockData)

inductive BlockAction where
  | driver (a : VirtioAction)
  | fill (b : Nat) (x : BlockData)

namespace BlockWorld

/-- The device follows a chain to the request and to the buffer, and copies the one way or the
other. A data descriptor of another length or direction is no request that it can serve. -/
def transfer (w : BlockWorld) (e : RingEntry) : BlockWorld :=
  let first := w.driver.disk.desc e.id
  let second := w.driver.disk.desc first.next
  match first.addr, second.addr with
  | .ops i, .data b =>
    let req := w.driver.disk.ops i
    if second.len ≠ BFSIZE then w
    else if req.type = VIRTIO_BLK_T_OUT ∧ second.flags &&& VRING_DESC_F_WRITE = 0 then
      { w with sectors := Function.update w.sectors req.sector (w.buffers b) }
    else if req.type = VIRTIO_BLK_T_IN ∧ second.flags &&& VRING_DESC_F_WRITE ≠ 0 then
      { w with buffers := Function.update w.buffers b (w.sectors req.sector) }
    else w
  | _, _ => w

/-- The transfer comes before the answer. -/
def moved (w : BlockWorld) : VirtioAction → BlockWorld
  | .complete k =>
    match w.driver.outstanding[k]? with
    | some e => w.transfer e
    | none => w
  | _ => w

def event (w : BlockWorld) : VirtioAction → Option DiskEvent
  | .virtioDiskRw p b blockno write => some (.call p ⟨b, write, blockno.toInt64.toUInt64⟩)
  | .run p =>
    match w.driver.pc p with
    | .rwWait c _ => if w.driver.bufDisk c.b then none else some (.ret p c (w.buffers c.b))
    | _ => none
  | _ => none

def act (w : BlockWorld) : BlockAction → Option (Option DiskEvent × BlockWorld)
  | .driver a => (virtioStep w.driver a).map fun d => (w.event a, { w.moved a with driver := d })
  | .fill b x => some (some (.fill b x), { w with buffers := Function.update w.buffers b x })

/-- A buffer is used by one call at a time, and not changed during the call. -/
def Allowed (w : BlockWorld) : BlockAction → Prop
  | .driver a => Unshared w.driver a
  | .fill b _ => ∀ q c, (w.driver.pc q).call = some c → c.b ≠ b

end BlockWorld

def blockStep (w : BlockWorld) (o : Option DiskEvent) (w' : BlockWorld) : Prop :=
  ∃ a, w.Allowed a ∧ w.act a = some (o, w')

/-! ## The disk as its callers see it -/

/-- How far a call is; `x` is the data of the buffer since the transfer. -/
inductive DiskCall where
  | idle
  | asked (c : RwCall)
  | served (c : RwCall) (x : BlockData)

def DiskCall.rw : DiskCall → Option RwCall
  | .idle => none
  | .asked c | .served c _ => some c

structure AtomicDisk where
  sectors : UInt64 → BlockData
  buffers : Nat → BlockData
  calls : Nat → DiskCall

namespace AtomicDisk

def Unused (s : AtomicDisk) (b : Nat) : Prop := ∀ q c, (s.calls q).rw = some c → c.b ≠ b

def serve (s : AtomicDisk) (c : RwCall) : AtomicDisk :=
  if c.write then { s with sectors := Function.update s.sectors c.sector (s.buffers c.b) }
  else { s with buffers := Function.update s.buffers c.b (s.sectors c.sector) }

def setCall (s : AtomicDisk) (p : Nat) (x : DiskCall) : AtomicDisk :=
  { s with calls := Function.update s.calls p x }

end AtomicDisk

inductive AtomicStep : AtomicDisk → Option DiskEvent → AtomicDisk → Prop where
  | call {s : AtomicDisk} {p : Nat} {c : RwCall} (h : s.calls p = .idle) (hb : s.Unused c.b) :
      AtomicStep s (some (.call p c)) (s.setCall p (.asked c))
  | serve {s : AtomicDisk} {p : Nat} {c : RwCall} (h : s.calls p = .asked c) :
      AtomicStep s none ((s.serve c).setCall p (.served c ((s.serve c).buffers c.b)))
  | ret {s : AtomicDisk} {p : Nat} {c : RwCall} {x : BlockData} (h : s.calls p = .served c x) :
      AtomicStep s (some (.ret p c x)) (s.setCall p .idle)
  | fill {s : AtomicDisk} {b : Nat} {x : BlockData} (hb : s.Unused b) :
      AtomicStep s (some (.fill b x)) { s with buffers := Function.update s.buffers b x }

/-- The requests that the device has still to serve. -/
def VirtioWorld.pending (w : VirtioWorld) : List RingEntry := w.toFetch ++ w.outstanding

def VirtioWorld.Pending (w : VirtioWorld) (p : Nat) : Prop := ∃ e ∈ w.pending, e.request.p = p

instance (w : VirtioWorld) (p : Nat) : Decidable (w.Pending p) :=
  inferInstanceAs (Decidable (∃ e ∈ w.pending, e.request.p = p))

namespace BlockWorld

/-- A call that waits is served as soon as the device has its request no more. -/
def callOf (w : BlockWorld) (p : Nat) : DiskCall :=
  match w.driver.pc p with
  | .rwAcquire c | .rwAlloc c | .rwAllocSleep c | .rwPublish c _ => .asked c
  | .rwWait c _ | .rwSleep c _ =>
    if w.driver.Pending p then .asked c else .served c (w.buffers c.b)
  | _ => .idle

def atomic (w : BlockWorld) : AtomicDisk := ⟨w.sectors, w.buffers, w.callOf⟩

end BlockWorld

/-! ## The descriptors of a request -/

/-- The first two descriptors of a chain and the request are those of the call. -/
structure VirtioDisk.Formatted (s : VirtioDisk) (c : RwCall) (idx : DescIdx) : Prop where
  first : s.desc idx.idx0 = ⟨.ops idx.idx0, 16, VRING_DESC_F_NEXT, idx.idx1⟩
  second : s.desc idx.idx1 = ⟨.data c.b, BFSIZE,
    (if c.write then 0 else VRING_DESC_F_WRITE) ||| VRING_DESC_F_NEXT, idx.idx2⟩
  request : s.ops idx.idx0 =
    ⟨if c.write then VIRTIO_BLK_T_OUT else VIRTIO_BLK_T_IN, 0, c.sector⟩

def VirtioWorld.AllFormatted (w : VirtioWorld) : Prop :=
  ∀ p c idx, (w.pc p).call = some c → (w.pc p).chain = some idx → w.disk.Formatted c idx

section Formatted
variable {w w' : VirtioWorld} {p : Nat}

theorem VirtioDisk.Formatted.same {s t : VirtioDisk} {c : RwCall} {idx : DescIdx}
    (h : s.Formatted c idx) (hdesc : ∀ d ∈ idx.toList, t.desc d = s.desc d)
    (hops : t.ops idx.idx0 = s.ops idx.idx0) : t.Formatted c idx := by
  have h0 := hdesc idx.idx0 (by simp [DescIdx.toList])
  have h1 := hdesc idx.idx1 (by simp [DescIdx.toList])
  exact ⟨h0.trans h.first, h1.trans h.second, hops.trans h.request⟩

theorem VirtioDisk.format_formatted (s : VirtioDisk) (c : RwCall) {idx : DescIdx}
    (h : idx.toList.Nodup) : (s.format c idx).Formatted c idx := by
  simp only [DescIdx.toList, List.nodup_cons, List.mem_cons, List.not_mem_nil, or_false,
    not_or] at h
  obtain ⟨⟨h01, h02⟩, h12, -⟩ := h
  constructor
  · simp [VirtioDisk.format, h01, h02]
  · simp [VirtioDisk.format, h12]
  · simp [VirtioDisk.format]

/-- Nothing but places changes, and nobody gets a chain. -/
theorem VirtioWorld.AllFormatted.pcs (h : w.AllFormatted) (hdesc : w'.disk.desc = w.disk.desc)
    (hops : w'.disk.ops = w.disk.ops)
    (hpc : ∀ q, (w'.pc q).chain = none ∨
      (w'.pc q).chain = (w.pc q).chain ∧ (w'.pc q).call = (w.pc q).call) : w'.AllFormatted := by
  intro q c idx hc hq
  rcases hpc q with hnone | ⟨hchain, hcall⟩
  · rw [hnone] at hq
    cases hq
  · refine (h q c idx (hcall ▸ hc) (hchain ▸ hq)).same (fun d _ => ?_) ?_
    · rw [hdesc]
    · rw [hops]

theorem VirtioWorld.AllFormatted.goto (h : w.AllFormatted) {holder : Option Nat} {y : VirtioPc}
    (hy : y.chain = none ∨ y.chain = (w.pc p).chain ∧ y.call = (w.pc p).call) :
    (w.move p holder y).AllFormatted := by
  refine h.pcs rfl rfl fun q => ?_
  by_cases hq : q = p
  · subst hq
    rw [VirtioWorld.move_self]
    exact hy
  · rw [VirtioWorld.move_ne _ _ _ hq]
    exact .inr ⟨rfl, rfl⟩

theorem VirtioWorld.AllFormatted.acquire (h : w.AllFormatted) {y : VirtioPc}
    (hy : y.chain = none ∨ y.chain = (w.pc p).chain ∧ y.call = (w.pc p).call)
    (hrun : w.acquire p y = some w') : w'.AllFormatted := by
  unfold VirtioWorld.acquire at hrun
  split at hrun
  · cases hrun
    exact h.goto hy
  · cases hrun

theorem VirtioInv.allocates_formatted (hI : VirtioInv w) (h : w.AllFormatted) {c : RwCall}
    (hp : w.pc p = .rwAlloc c) (hrun : w.run p = some w') : w'.AllFormatted := by
  simp only [VirtioWorld.run, hp] at hrun
  rcases alloc3Desc_spec w.disk with ⟨desc, halloc, hsame⟩ | ⟨idx, hnd, hfree, halloc⟩
  · simp only [VirtioWorld.exec, halloc, Option.some.injEq] at hrun
    subst hrun
    have hdesc : VirtioWorld.AllFormatted { w with disk := { w.disk with desc := desc } } := by
      intro q c' idx' hc hq
      exact (h q c' idx' hc hq).same (fun d hd => hsame d (hI.in_use hq d hd).2) rfl
    exact hdesc.goto (.inl rfl)
  · simp only [VirtioWorld.exec, halloc, Option.some.injEq] at hrun
    subst hrun
    intro q c' idx' hc hq
    by_cases hqp : q = p
    · subst hqp
      rw [VirtioWorld.goto_self] at hc hq
      cases hc
      cases hq
      exact VirtioDisk.format_formatted _ c hnd
    · -- the others have none of the descriptors that were free
      rw [VirtioWorld.goto_ne _ _ hqp] at hc hq
      have hother : ∀ d ∈ idx'.toList, d ∉ idx.toList := by
        intro d hd hd'
        have hused := (hI.in_use hq d hd).2
        rw [(hfree d hd').2] at hused
        cases hused
      refine (h q c' idx' hc hq).same (fun d hd => VirtioDisk.format_desc _ c (hother d hd)) ?_
      refine Function.update_of_ne ?_ ..
      intro heq
      exact hother idx'.idx0 idx'.idx0_mem (heq ▸ idx.idx0_mem)

theorem VirtioInv.finishes_formatted (hI : VirtioInv w) (h : w.AllFormatted) {c : RwCall}
    {idx : DescIdx} (hp : w.pc p = .rwWait c idx) (hrun : w.run p = some w') :
    w'.AllFormatted := by
  simp only [VirtioWorld.run, hp] at hrun
  split at hrun
  · cases hrun
    refine h.goto (.inr ?_)
    rw [hp]
    exact ⟨rfl, rfl⟩
  · have hchain : (w.pc p).chain = some idx := by rw [hp]; rfl
    have hlinked : (w.disk.forget idx.idx0).Linked idx :=
      (hI.linked p idx hchain).of_desc fun _ _ => rfl
    have hfreed := freeChain_spec hlinked (hI.chain_nodup hchain) (hI.in_use hchain)
    simp only [VirtioWorld.exec, hfreed, Option.some.injEq] at hrun
    subst hrun
    intro q c' idx' hc hq
    by_cases hqp : q = p
    · subst hqp
      rw [VirtioWorld.goto_self] at hq
      cases hq
    · rw [VirtioWorld.goto_ne _ _ hqp] at hc hq
      refine (h q c' idx' hc hq).same (fun d hd => ?_) rfl
      have hnot : d ∉ idx.toList := fun hd' => hqp (hI.same_owner hq hchain hd hd')
      simp only [DescIdx.toList, List.mem_cons, List.not_mem_nil, or_false, not_or] at hnot
      simp [VirtioWorld.goto, VirtioDisk.freed, VirtioDisk.forget, hnot]

theorem VirtioInv.runs_formatted (hI : VirtioInv w) (h : w.AllFormatted)
    (hrun : w.run p = some w') : w'.AllFormatted := by
  cases hp : w.pc p with
  | rwAlloc c => exact hI.allocates_formatted h hp hrun
  | rwWait c idx => exact hI.finishes_formatted h hp hrun
  | idle =>
    simp only [VirtioWorld.run, hp] at hrun
    cases hrun
  | rwAcquire c =>
    simp only [VirtioWorld.run, hp] at hrun
    exact h.acquire (.inl rfl) hrun
  | rwAllocSleep c =>
    simp only [VirtioWorld.run, hp] at hrun
    exact h.acquire (.inl rfl) hrun
  | rwPublish c idx =>
    simp only [VirtioWorld.run, hp, Option.some.injEq] at hrun
    subst hrun
    refine h.pcs rfl rfl fun q => .inr ?_
    by_cases hqp : q = p
    · subst hqp
      rw [VirtioWorld.goto_self, hp]
      exact ⟨rfl, rfl⟩
    · rw [VirtioWorld.goto_ne _ _ hqp]
      exact ⟨rfl, rfl⟩
  | rwSleep c idx =>
    simp only [VirtioWorld.run, hp] at hrun
    refine h.acquire (.inr ?_) hrun
    rw [hp]
    exact ⟨rfl, rfl⟩
  | intrAcquire =>
    simp only [VirtioWorld.run, hp] at hrun
    exact h.acquire (.inl rfl) hrun
  | intrLoop =>
    simp only [VirtioWorld.run, hp] at hrun
    split at hrun <;> cases hrun <;> exact h.goto (.inl rfl)
  | intrTake =>
    simp only [VirtioWorld.run, hp, Option.some.injEq] at hrun
    subst hrun
    rw [hI.take_eq hp]
    refine h.pcs rfl rfl fun q => ?_
    by_cases hqp : q = p
    · subst hqp
      exact .inl (by rw [VirtioWorld.cleared, VirtioWorld.goto_self]; rfl)
    · exact .inr (by rw [VirtioWorld.cleared, VirtioWorld.goto_ne _ _ hqp]; exact ⟨rfl, rfl⟩)
  | leave =>
    simp only [VirtioWorld.run, hp, Option.some.injEq] at hrun
    subst hrun
    exact h.goto (.inl rfl)

theorem VirtioInv.step_formatted (hI : VirtioInv w) (h : w.AllFormatted) {a : VirtioAction}
    (hstep : virtioStep w a = some w') : w'.AllFormatted := by
  unfold virtioStep at hstep
  rw [hI.fault] at hstep
  cases a with
  | virtioDiskRw p b blockno write =>
    simp only [Option.isSome_none, Bool.false_eq_true, if_false] at hstep
    split at hstep
    · cases hstep
      exact h.goto (.inl rfl)
    · cases hstep
  | virtioDiskIntr p =>
    simp only [Option.isSome_none, Bool.false_eq_true, if_false] at hstep
    split at hstep
    · cases hstep
      exact h.goto (.inl rfl)
    · cases hstep
  | run p => exact hI.runs_formatted h hstep
  | fetch =>
    simp only [Option.isSome_none, Bool.false_eq_true, if_false, VirtioWorld.fetch] at hstep
    split at hstep
    · cases hstep
      exact h.pcs rfl rfl fun q => .inr ⟨rfl, rfl⟩
    · cases hstep
  | complete k =>
    obtain ⟨e, -, rfl⟩ := Option.map_eq_some_iff.mp hstep
    refine h.pcs ?_ ?_ fun q => .inr ⟨rfl, rfl⟩
    · rfl
    · rfl

end Formatted

/-! ## The requests that are still to be served -/

section Pending
variable {w w' : VirtioWorld} {p q : Nat}

theorem VirtioWorld.Pending.perm (h : w'.pending.Perm w.pending) (q : Nat) :
    w'.Pending q ↔ w.Pending q := by
  unfold VirtioWorld.Pending
  simp only [h.mem_iff]

theorem VirtioWorld.Pending.cons {e : RingEntry} (h : w'.pending.Perm (e :: w.pending)) (q : Nat) :
    w'.Pending q ↔ e.request.p = q ∨ w.Pending q := by
  unfold VirtioWorld.Pending
  simp only [h.mem_iff, List.mem_cons, exists_eq_or_imp]

theorem VirtioInv.pending_publish (hI : VirtioInv w) {c : RwCall} {idx : DescIdx}
    (hp : w.pc p = .rwPublish c idx) :
    (VirtioWorld.pending
      ({ w with disk := w.disk.publish ⟨p, c, idx⟩ }.goto p (.rwWait c idx))).Perm
        (⟨idx.idx0, ⟨p, c, idx⟩⟩ :: w.pending) := by
  have hring : VirtioWorld.availRing
      ({ w with disk := w.disk.publish ⟨p, c, idx⟩ }.goto p (.rwWait c idx)) =
        Ring.push (2 ^ 16) NUM w.availRing ⟨idx.idx0, ⟨p, c, idx⟩⟩ := by
    simp only [VirtioWorld.availRing, VirtioWorld.goto, VirtioDisk.publish, Ring.push,
      UInt16.toNat_add]
    rfl
  have hroom : Ring.count (2 ^ 16) w.availRing < NUM := by
    have hlt := hI.atDevice_lt hp
    rw [w.atDevice_length, w.toFetch_length] at hlt
    omega
  have hfits : Ring.Fits (2 ^ 16) NUM := ⟨⟨2 ^ 13, by decide⟩, by decide, by decide⟩
  obtain ⟨-, hcontents⟩ := hI.avail.pushed hfits hroom ⟨idx.idx0, ⟨p, c, idx⟩⟩
  rw [VirtioWorld.pending, VirtioWorld.toFetch, hring, hcontents, List.append_assoc]
  exact List.perm_middle

theorem VirtioInv.pending_fetch (hI : VirtioInv w) (hfetch : w.fetch = some w') :
    w'.pending.Perm w.pending := by
  unfold VirtioWorld.fetch at hfetch
  split at hfetch
  · rename_i hdiff
    cases hfetch
    have hring : Ring.pop (2 ^ 16) w.availRing =
        ⟨(w.lastAvail + 1).toNat, w.disk.avail.idx.toNat, w.disk.avail.ring⟩ := by
      simp only [Ring.pop, VirtioWorld.availRing, UInt16.toNat_add]
      rfl
    have hsome : Ring.count (2 ^ 16) w.availRing ≠ 0 := by
      rw [Ne, ← hI.avail.empty_iff]
      exact fun heq => hdiff (UInt16.toNat_inj.mp heq)
    obtain ⟨-, hcontents⟩ := hI.avail.popped hsome
    rw [hring] at hcontents
    show (Ring.contents (2 ^ 16) NUM
        ⟨(w.lastAvail + 1).toNat, w.disk.avail.idx.toNat, w.disk.avail.ring⟩ ++
      (w.outstanding ++ [w.disk.avail.ring (w.lastAvail.toNat % NUM)])).Perm _
    rw [VirtioWorld.pending, VirtioWorld.toFetch, hcontents, List.cons_append,
      ← List.append_assoc]
    exact List.perm_append_singleton _ _
  · cases hfetch

theorem VirtioWorld.pending_complete {k : Nat} {e : RingEntry} (hget : w.outstanding[k]? = some e)
    (hcomplete : w.complete k = some w') : w.pending.Perm (e :: w'.pending) := by
  obtain ⟨hk, he⟩ := List.getElem?_eq_some_iff.mp hget
  rw [VirtioWorld.complete, hget, Option.map_some, Option.some.injEq] at hcomplete
  have hrest := List.getElem_cons_eraseIdx_perm hk
  rw [he] at hrest
  have hpending : w'.pending = w.toFetch ++ w.outstanding.eraseIdx k := by
    rw [← hcomplete]
    rfl
  rw [hpending]
  exact (hrest.symm.append_left w.toFetch).trans List.perm_middle

theorem VirtioInv.pending_mem {e : RingEntry} (he : e ∈ w.pending) : e ∈ w.atDevice :=
  List.mem_append_left _ he

/-- A process has one request at most. -/
theorem VirtioInv.pending_once (hI : VirtioInv w) : (w.pending.map (·.request.p)).Nodup := by
  have honce := hI.once
  rw [VirtioWorld.atDevice, List.map_append] at honce
  exact (List.nodup_append.mp honce).1

/-- The request of a process that is woken is served. -/
theorem VirtioInv.not_pending (hI : VirtioInv w) {c : RwCall} {idx : DescIdx}
    (hp : (w.pc p).Waits c idx) (hdone : w.bufDisk c.b = false) : ¬ w.Pending p := by
  rintro ⟨e, he, rfl⟩
  obtain ⟨hw, -, hdisk⟩ := hI.submitted e (VirtioInv.pending_mem he)
  have hcall : some e.request.call = some c := hw.call.symm.trans hp.call
  rw [Option.some.inj hcall, hdone] at hdisk
  cases hdisk

end Pending

/-! ## Every step -/

structure BlockInv (w : BlockWorld) : Prop where
  driver : VirtioInv w.driver
  formatted : w.driver.AllFormatted

section Steps
variable {w w' : BlockWorld} {p q : Nat}

theorem BlockWorld.callOf_rw (w : BlockWorld) (q : Nat) :
    (w.callOf q).rw = (w.driver.pc q).call := by
  have hwait : ∀ c x, (if w.driver.Pending q then DiskCall.asked c else .served c x).rw = some c := by
    intro c x
    split <;> rfl
  unfold BlockWorld.callOf
  cases w.driver.pc q with
  | rwWait c idx => exact hwait c _
  | rwSleep c idx => exact hwait c _
  | _ => rfl

theorem BlockWorld.callOf_congr (hpc : w'.driver.pc q = w.driver.pc q)
    (hpending : w'.driver.Pending q ↔ w.driver.Pending q)
    (hbuf : ∀ c, (w.driver.pc q).call = some c → w'.buffers c.b = w.buffers c.b) :
    w'.callOf q = w.callOf q := by
  unfold BlockWorld.callOf
  rw [hpc]
  cases hq : w.driver.pc q with
  | rwWait c idx => simp only [hpending, hbuf c (by rw [hq]; rfl)]
  | rwSleep c idx => simp only [hpending, hbuf c (by rw [hq]; rfl)]
  | _ => rfl

/-- One process goes on, and nothing is transferred. -/
theorem BlockWorld.atomic_goto {d : VirtioWorld} {y : VirtioPc}
    (hpc : d.pc = Function.update w.driver.pc p y)
    (hpending : ∀ q, q ≠ p → (d.Pending q ↔ w.driver.Pending q)) :
    BlockWorld.atomic { w with driver := d } =
      w.atomic.setCall p (BlockWorld.callOf { w with driver := d } p) := by
  have hcalls : BlockWorld.callOf { w with driver := d } =
      Function.update w.callOf p (BlockWorld.callOf { w with driver := d } p) := by
    funext q
    by_cases hq : q = p
    · rw [hq, Function.update_self]
    · rw [Function.update_of_ne hq]
      refine BlockWorld.callOf_congr ?_ (hpending q hq) fun _ _ => rfl
      rw [hpc, Function.update_of_ne hq]
  exact congrArg (AtomicDisk.mk w.sectors w.buffers) hcalls

theorem BlockWorld.atomic_stutter {d : VirtioWorld} {y : VirtioPc}
    (hpc : d.pc = Function.update w.driver.pc p y)
    (hpending : ∀ q, q ≠ p → (d.Pending q ↔ w.driver.Pending q))
    (hp : BlockWorld.callOf { w with driver := d } p = w.callOf p) :
    BlockWorld.atomic { w with driver := d } = w.atomic := by
  rw [BlockWorld.atomic_goto hpc hpending, hp, AtomicDisk.setCall]
  exact congrArg (AtomicDisk.mk w.sectors w.buffers) (Function.update_eq_self p w.callOf)

/-- The device does for a request what its call asks for. -/
theorem BlockInv.transfer_eq (hI : BlockInv w) {e : RingEntry} (he : e ∈ w.driver.pending) :
    w.transfer e = { w with
      sectors := (w.atomic.serve e.request.call).sectors
      buffers := (w.atomic.serve e.request.call).buffers } := by
  obtain ⟨hw, hid, -⟩ := hI.driver.submitted e (VirtioInv.pending_mem he)
  obtain ⟨hfirst, hsecond, hrequest⟩ := hI.formatted _ _ _ hw.call hw.chain
  simp only [BlockWorld.transfer, hid, hfirst, hsecond, hrequest, AtomicDisk.serve]
  cases e.request.call.write with
  | true =>
    have hflag : ((0 : UInt16) ||| VRING_DESC_F_NEXT) &&& VRING_DESC_F_WRITE = 0 := by decide
    simp only [if_true, hflag, and_self, ne_eq, not_true_eq_false, if_false]
    rfl
  | false =>
    have htype : VIRTIO_BLK_T_IN ≠ VIRTIO_BLK_T_OUT := by decide
    have hflag : (VRING_DESC_F_WRITE ||| VRING_DESC_F_NEXT) &&& VRING_DESC_F_WRITE ≠ 0 := by decide
    simp [htype, hflag, BlockWorld.atomic]

/-- A step of a process. -/
theorem BlockInv.simulates_run (hI : BlockInv w) {d : VirtioWorld} (hrun : w.driver.run p = some d) :
    AtomicStep w.atomic (w.event (.run p)) (BlockWorld.atomic { w with driver := d }) ∨
      w.event (.run p) = none ∧ BlockWorld.atomic { w with driver := d } = w.atomic := by
  have hacquire : ∀ {y : VirtioPc}, w.driver.acquire p y = some d → d = w.driver.move p (some p) y := by
    intro y hacq
    unfold VirtioWorld.acquire at hacq
    split at hacq
    · cases hacq
      rfl
    · cases hacq
  cases hp : w.driver.pc p with
  | idle =>
    simp only [VirtioWorld.run, hp] at hrun
    cases hrun
  | rwAcquire c =>
    simp only [VirtioWorld.run, hp] at hrun
    obtain rfl := hacquire hrun
    refine .inr ⟨by simp only [BlockWorld.event, hp], ?_⟩
    refine BlockWorld.atomic_stutter rfl (fun _ _ => Iff.rfl) ?_
    simp only [BlockWorld.callOf, VirtioWorld.move_self, hp]
  | rwAllocSleep c =>
    simp only [VirtioWorld.run, hp] at hrun
    obtain rfl := hacquire hrun
    refine .inr ⟨by simp only [BlockWorld.event, hp], ?_⟩
    refine BlockWorld.atomic_stutter rfl (fun _ _ => Iff.rfl) ?_
    simp only [BlockWorld.callOf, VirtioWorld.move_self, hp]
  | rwAlloc c =>
    simp only [VirtioWorld.run, hp] at hrun
    refine .inr ⟨by simp only [BlockWorld.event, hp], ?_⟩
    rcases alloc3Desc_spec w.driver.disk with ⟨desc, halloc, -⟩ | ⟨idx, -, -, halloc⟩
    · simp only [VirtioWorld.exec, halloc, Option.some.injEq] at hrun
      subst hrun
      refine BlockWorld.atomic_stutter rfl (fun _ _ => Iff.rfl) ?_
      simp [BlockWorld.callOf, VirtioWorld.release, VirtioWorld.goto, hp]
    · simp only [VirtioWorld.exec, halloc, Option.some.injEq] at hrun
      subst hrun
      refine BlockWorld.atomic_stutter rfl (fun _ _ => Iff.rfl) ?_
      simp [BlockWorld.callOf, VirtioWorld.goto, hp]
  | rwPublish c idx =>
    simp only [VirtioWorld.run, hp, Option.some.injEq] at hrun
    have hpending := hI.driver.pending_publish hp
    rw [hrun] at hpending
    refine .inr ⟨by simp only [BlockWorld.event, hp], ?_⟩
    have hiff := VirtioWorld.Pending.cons hpending
    refine BlockWorld.atomic_stutter (p := p) (y := .rwWait c idx) ?_ (fun q hq => ?_) ?_
    · rw [← hrun]
      rfl
    · rw [hiff q]
      exact or_iff_right (Ne.symm hq)
    · have hself : d.Pending p := (hiff p).mpr (.inl rfl)
      have hpc : d.pc p = .rwWait c idx := by rw [← hrun, VirtioWorld.goto_self]
      simp only [BlockWorld.callOf, hpc, hp, hself, if_true]
  | rwWait c idx =>
    simp only [VirtioWorld.run, hp] at hrun
    cases hd : w.driver.bufDisk c.b with
    | true =>
      rw [if_pos hd] at hrun
      cases hrun
      refine .inr ⟨by simp [BlockWorld.event, hp, hd], ?_⟩
      refine BlockWorld.atomic_stutter rfl (fun _ _ => Iff.rfl) ?_
      have hsame : VirtioWorld.Pending (w.driver.release p (.rwSleep c idx)) p ↔
        w.driver.Pending p := Iff.rfl
      have hpc : (w.driver.release p (.rwSleep c idx)).pc p = .rwSleep c idx :=
        VirtioWorld.goto_self ..
      simp only [BlockWorld.callOf, hpc, hp, hsame]
    | false =>
      -- the device no longer has the request: it is served
      have hchain : (w.driver.pc p).chain = some idx := by rw [hp]; rfl
      have hlinked : (w.driver.disk.forget idx.idx0).Linked idx :=
        (hI.driver.linked p idx hchain).of_desc fun _ _ => rfl
      have hfreed := freeChain_spec hlinked (hI.driver.chain_nodup hchain) (hI.driver.in_use hchain)
      have hserved : ¬ w.driver.Pending p := hI.driver.not_pending (.inl hp) hd
      rw [if_neg (by simp [hd])] at hrun
      simp only [VirtioWorld.exec, hfreed, Option.some.injEq] at hrun
      have hevent : w.event (.run p) = some (.ret p c (w.buffers c.b)) := by
        simp [BlockWorld.event, hp, hd]
      have hcall : w.atomic.calls p = .served c (w.buffers c.b) := by
        simp [BlockWorld.atomic, BlockWorld.callOf, hp, hserved]
      have hpc : d.pc p = .leave := by rw [← hrun, VirtioWorld.goto_self]
      have hidle : BlockWorld.callOf { w with driver := d } p = .idle := by
        simp [BlockWorld.callOf, hpc]
      have hatomic := BlockWorld.atomic_goto (w := w) (p := p) (d := d) (y := .leave)
        (by rw [← hrun]; rfl) (fun q _ => by rw [← hrun]; exact Iff.rfl)
      rw [hevent, hatomic, hidle]
      exact .inl (.ret hcall)
  | rwSleep c idx =>
    simp only [VirtioWorld.run, hp] at hrun
    obtain rfl := hacquire hrun
    refine .inr ⟨by simp only [BlockWorld.event, hp], ?_⟩
    refine BlockWorld.atomic_stutter rfl (fun _ _ => Iff.rfl) ?_
    have hsame : VirtioWorld.Pending (w.driver.move p (some p) (.rwWait c idx)) p ↔
      w.driver.Pending p := Iff.rfl
    simp only [BlockWorld.callOf, VirtioWorld.move_self, hp, hsame]
  | intrAcquire =>
    simp only [VirtioWorld.run, hp] at hrun
    obtain rfl := hacquire hrun
    refine .inr ⟨by simp only [BlockWorld.event, hp], ?_⟩
    refine BlockWorld.atomic_stutter rfl (fun _ _ => Iff.rfl) ?_
    simp only [BlockWorld.callOf, VirtioWorld.move_self, hp]
  | intrLoop =>
    simp only [VirtioWorld.run, hp] at hrun
    refine .inr ⟨by simp only [BlockWorld.event, hp], ?_⟩
    split at hrun <;> cases hrun <;>
      refine BlockWorld.atomic_stutter rfl (fun _ _ => Iff.rfl) ?_ <;>
      simp [BlockWorld.callOf, VirtioWorld.goto, hp]
  | intrTake =>
    simp only [VirtioWorld.run, hp, Option.some.injEq] at hrun
    rw [hI.driver.take_eq hp] at hrun
    subst hrun
    refine .inr ⟨by simp only [BlockWorld.event, hp], ?_⟩
    refine BlockWorld.atomic_stutter rfl (fun _ _ => Iff.rfl) ?_
    simp [BlockWorld.callOf, VirtioWorld.cleared, VirtioWorld.goto, hp]
  | leave =>
    simp only [VirtioWorld.run, hp, Option.some.injEq] at hrun
    subst hrun
    refine .inr ⟨by simp only [BlockWorld.event, hp], ?_⟩
    refine BlockWorld.atomic_stutter rfl (fun _ _ => Iff.rfl) ?_
    simp [BlockWorld.callOf, VirtioWorld.release, VirtioWorld.goto, hp]

/-- The device completes a request. -/
theorem BlockInv.simulates_complete (hI : BlockInv w) {d : VirtioWorld} {k : Nat}
    (hcomplete : w.driver.complete k = some d) :
    AtomicStep w.atomic none (BlockWorld.atomic { w.moved (.complete k) with driver := d }) := by
  obtain ⟨e, hget, -⟩ := Option.map_eq_some_iff.mp hcomplete
  have hperm := VirtioWorld.pending_complete hget hcomplete
  have he : e ∈ w.driver.pending := hperm.mem_iff.mpr List.mem_cons_self
  obtain ⟨hw, -, -⟩ := hI.driver.submitted e (VirtioInv.pending_mem he)
  have hpc : d.pc = w.driver.pc := by
    rw [VirtioWorld.complete, hget, Option.map_some, Option.some.injEq] at hcomplete
    rw [← hcomplete]
  have honce := hI.driver.pending_once
  rw [(hperm.map _).nodup_iff, List.map_cons, List.nodup_cons] at honce
  -- the process of the request had no other
  have hnone : ¬ d.Pending e.request.p := by
    rintro ⟨e', he', heq⟩
    exact honce.1 (List.mem_map.mpr ⟨e', he', heq⟩)
  have hself : w.driver.Pending e.request.p := ⟨e, he, rfl⟩
  have hasked : w.atomic.calls e.request.p = .asked e.request.call := by
    rcases hw with hw | hw <;> simp [BlockWorld.atomic, BlockWorld.callOf, hw, hself]
  have hcalls : BlockWorld.callOf { w.moved (.complete k) with driver := d } =
      Function.update w.callOf e.request.p (.served e.request.call
        ((w.atomic.serve e.request.call).buffers e.request.call.b)) := by
    funext q
    have htransfer := hI.transfer_eq he
    by_cases hq : q = e.request.p
    · subst hq
      rw [Function.update_self]
      rcases hw with hw | hw <;>
        simp only [BlockWorld.callOf, hpc, hw, hnone, if_false, BlockWorld.moved, hget, htransfer]
    · rw [Function.update_of_ne hq]
      refine BlockWorld.callOf_congr (congrFun hpc q) ?_ fun c hc => ?_
      · rw [VirtioWorld.Pending.cons hperm q]
        exact (or_iff_right (Ne.symm hq)).symm
      · have hne : c.b ≠ e.request.call.b := fun hb =>
          hq (hI.driver.apart q e.request.p c e.request.call hc hw.call hb)
        simp only [BlockWorld.moved, hget, htransfer, AtomicDisk.serve]
        split
        · rfl
        · exact Function.update_of_ne hne ..
  have hatomic : BlockWorld.atomic { w.moved (.complete k) with driver := d } =
      (w.atomic.serve e.request.call).setCall e.request.p (.served e.request.call
        ((w.atomic.serve e.request.call).buffers e.request.call.b)) := by
    have htransfer := hI.transfer_eq he
    rw [BlockWorld.atomic, hcalls]
    simp only [BlockWorld.moved, hget, htransfer, AtomicDisk.setCall]
    congr 1
    simp only [AtomicDisk.serve]
    split <;> rfl
  rw [hatomic]
  exact .serve hasked

end Steps

theorem BlockInv.simulates_driver {w : BlockWorld} (hI : BlockInv w) {a : VirtioAction}
    (hok : Unshared w.driver a) {d : VirtioWorld} (hstep : virtioStep w.driver a = some d) :
    AtomicStep w.atomic (w.event a) (BlockWorld.atomic { w.moved a with driver := d }) ∨
      w.event a = none ∧ BlockWorld.atomic { w.moved a with driver := d } = w.atomic := by
  unfold virtioStep at hstep
  rw [hI.driver.fault] at hstep
  cases a with
  | virtioDiskRw p b blockno write =>
    simp only [Option.isSome_none, Bool.false_eq_true, if_false] at hstep
    split at hstep
    · rename_i hidle
      cases hstep
      have hcall : w.atomic.calls p = .idle := by
        simp [BlockWorld.atomic, BlockWorld.callOf, hidle]
      have hunused : w.atomic.Unused b := by
        intro q c hq
        refine hok q c ?_
        rw [← w.callOf_rw q]
        exact hq
      have hnew : BlockWorld.callOf
          { w with driver := w.driver.goto p (.rwAcquire ⟨b, write, blockno.toInt64.toUInt64⟩) } p =
            .asked ⟨b, write, blockno.toInt64.toUInt64⟩ := by
        simp [BlockWorld.callOf, VirtioWorld.goto]
      have hatomic := BlockWorld.atomic_goto (w := w) (p := p)
        (d := w.driver.goto p (.rwAcquire ⟨b, write, blockno.toInt64.toUInt64⟩)) rfl
          fun _ _ => Iff.rfl
      rw [hnew] at hatomic
      exact .inl (hatomic ▸ .call hcall hunused)
    · cases hstep
  | virtioDiskIntr p =>
    simp only [Option.isSome_none, Bool.false_eq_true, if_false] at hstep
    split at hstep
    · rename_i hidle
      cases hstep
      have hsame : BlockWorld.callOf { w with driver := w.driver.goto p .intrAcquire } p =
          w.callOf p := by
        simp [BlockWorld.callOf, VirtioWorld.goto, hidle]
      exact .inr ⟨rfl, BlockWorld.atomic_stutter (w := w) rfl (fun _ _ => Iff.rfl) hsame⟩
    · cases hstep
  | run p => exact hI.simulates_run hstep
  | fetch =>
    have hfetch : w.driver.fetch = some d := hstep
    have hpending := VirtioWorld.Pending.perm (hI.driver.pending_fetch hfetch)
    have hpc : d.pc = w.driver.pc := by
      simp only [VirtioWorld.fetch] at hfetch
      split at hfetch
      · cases hfetch
        rfl
      · cases hfetch
    refine .inr ⟨rfl, congrArg (AtomicDisk.mk w.sectors w.buffers) (funext fun q => ?_)⟩
    exact BlockWorld.callOf_congr (congrFun hpc q) (hpending q) fun _ _ => rfl
  | complete k => exact .inl (hI.simulates_complete hstep)

theorem blockStep_simulates : Simulates blockStep AtomicStep BlockInv BlockWorld.atomic := by
  refine ⟨?_, ?_⟩
  · rintro w o w' hI ⟨a, hok, hact⟩
    cases a with
    | driver a =>
      obtain ⟨d, hd, heq⟩ := Option.map_eq_some_iff.mp hact
      cases heq
      exact ⟨virtioInv_step hI.driver hok hd, hI.driver.step_formatted hI.formatted hd⟩
    | fill b x =>
      cases hact
      exact ⟨hI.driver, hI.formatted⟩
  · rintro w o w' hI ⟨a, hok, hact⟩
    cases a with
    | driver a =>
      obtain ⟨d, hd, heq⟩ := Option.map_eq_some_iff.mp hact
      cases heq
      exact hI.simulates_driver hok hd
    | fill b x =>
      cases hact
      have hunused : w.atomic.Unused b := by
        intro q c hq
        refine hok q c ?_
        rw [← w.callOf_rw q]
        exact hq
      have hcalls : BlockWorld.callOf { w with buffers := Function.update w.buffers b x } =
          w.callOf := by
        funext q
        refine BlockWorld.callOf_congr rfl Iff.rfl fun c hc => ?_
        exact Function.update_of_ne (hok q c hc) ..
      have hatomic : BlockWorld.atomic { w with buffers := Function.update w.buffers b x } =
          { w.atomic with buffers := Function.update w.atomic.buffers b x } :=
        congrArg (AtomicDisk.mk w.sectors (Function.update w.buffers b x)) hcalls
      rw [hatomic]
      exact .inl (.fill hunused)

/-- What the callers see of the driver and the device, in whatever order these work, they could
have seen of a disk that makes each transfer at once. -/
theorem virtio_atomic {w w' : BlockWorld} {h : List DiskEvent} (hstart : VirtioStart w.driver)
    (hrun : Shows blockStep w h w') : Shows AtomicStep w.atomic h w'.atomic := by
  refine blockStep_simulates.shows ⟨virtioInv_start hstart, ?_⟩ hrun
  intro p c idx hc
  rw [hstart.idle p] at hc
  cases hc

def blankBlocks : BlockWorld := ⟨idleDisk, fun _ _ => 0, fun _ _ => 1⟩

/-- A read of block 3, from its call to its return. -/
theorem virtio_atomic_read : ∃ h w', h.length = 2 ∧ Shows blockStep blankBlocks h w' ∧
    Shows AtomicStep blankBlocks.atomic h w'.atomic := by
  have hvalue : (runShows BlockWorld.act (([.run 0, .run 0, .run 0, .run 0, .fetch, .complete 0,
      .virtioDiskIntr 1, .run 1, .run 1, .run 1, .run 1, .run 1, .run 0, .run 0] :
        List VirtioAction).map .driver)
      { blankBlocks with driver := idleDisk.goto 0 (.rwAcquire ⟨7, false, 3⟩) }).map
        (fun r => r.1.length) = some 1 := by decide +kernel
  obtain ⟨⟨h, w'⟩, hrun, hlen⟩ := Option.map_eq_some_iff.mp hvalue
  have hfirst : blockStep blankBlocks (some (.call 0 ⟨7, false, 3⟩))
      { blankBlocks with driver := idleDisk.goto 0 (.rwAcquire ⟨7, false, 3⟩) } :=
    ⟨.driver (.virtioDiskRw 0 7 3 false), fun q c hc => (by cases hc), rfl⟩
  have hrest : Shows blockStep
      { blankBlocks with driver := idleDisk.goto 0 (.rwAcquire ⟨7, false, 3⟩) } h w' := ?_
  · have hshows := (Shows.next .start hfirst).append hrest
    have hlength : ([] ++ (some (DiskEvent.call 0 ⟨7, false, 3⟩)).toList ++ h).length = 2 := by
      simpa using hlen
    exact ⟨_, w', hlength, hshows, virtio_atomic idleDisk_start hshows⟩
  · refine Shows.of_runShows (fun s a o t ha hact => ?_) hrun
    obtain ⟨b, hb, rfl⟩ := List.mem_map.mp ha
    refine ⟨.driver b, ?_, hact⟩
    cases b with
    | virtioDiskRw => simp at hb
    | _ => trivial

end PageFaultOS
