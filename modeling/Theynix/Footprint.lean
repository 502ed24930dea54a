import Theynix.Placement

/-!
# `Theynix.Footprint`: the part of the kernel that a step touches

Terminals, pipes, locks and the clock have invariants of their own. `SameBut part s s'` says
that `s'` has the same of all of them, but for the one that is named, and that no event has
been recorded that is about another. `SchedStep.part` sorts the steps of the kernel: each
touches one part at most, and `PartStep` lists what it can do to the input of the terminals,
to the pipes and to the clock.
-/

set_option autoImplicit false

namespace Theynix

open Theynix.Lib (bind_eq_ok ite_eq_ok)

/-! ## Parts -/

/-- The parts of the kernel that have an invariant of their own. -/
inductive Part
  | ttyInput
  | ttyOutput
  | pipes
  | locks
  | clock
  | other
deriving DecidableEq, Repr

/-- The part that an event is about. -/
def Obs.part : Obs → Part
  | .ttyReceived _ _ | .ttyServed _ _ _ => .ttyInput
  | .ttyWritten _ _ _ | .ttyTransmit _ _ | .ttyTransmitted _ | .ttyFinished _ _ => .ttyOutput
  | .pipeWritten _ _ | .pipeRead _ _ _ _ => .pipes
  | .lockTaken _ _ | .lockBlocked _ _ | .lockGranted _ _ | .lockFreed _ | .lockReturned _ _ =>
    .locks
  | .delayed _ _ | .clockTick | .delayDone _ => .clock
  | .forked _ _ | .exited _ _ | .waited _ _ _ => .other

/-- The fields of a PCB that say what the process still transmits. -/
def PCB.transmit (a : PCB) : Nat × List Byte × Nat :=
  (a.ttyTransmitLen, a.ttyTransmitBuffer, a.ttyTransmitPointer)

/-- The fields of a PCB that say what a reader of a terminal has been given. -/
def PCB.receive (a : PCB) : Option (List Byte) × Nat := (a.ttyReceiveBuffer, a.ttyReceiveLen)

/-- The fields of a PCB that say where the process goes on, which locks it has, how long it
waits for the clock, what it transmits, and what it has received. -/
def PCB.core (a : PCB) : (Bool × KernelContext) × List Nat × Int × (Nat × List Byte × Nat) ×
    (Option (List Byte) × Nat) :=
  (a.life, a.ownedLockIds, a.clockTicksUntilReady, a.transmit, a.receive)

namespace Sched

/-- The events that are about a part. -/
def events (s : Sched) (part : Part) : List Obs := s.history.filter fun o => o.part = part

/-- `owned_lock_ids` of a process. -/
def owned (s : Sched) (p : Pid) : List Nat := ((s.pcb p).map PCB.ownedLockIds).getD []

/-- `clock_ticks_until_ready` of a process. -/
def ticks (s : Sched) (p : Pid) : Option Int := (s.pcb p).map PCB.clockTicksUntilReady

/-- What a process still transmits. -/
def transmit (s : Sched) (p : Pid) : Option (Nat × List Byte × Nat) :=
  (s.pcb p).map PCB.transmit

/-- All parts but the named one are the same. -/
structure SameBut (part : Part) (s s' : Sched) : Prop where
  lines : part ≠ .ttyInput → ∀ t, (s'.ttys t).lineBuffers = (s.ttys t).lineBuffers
  receive : part ≠ .ttyInput → ∀ t, (s'.ttys t).waitingToReceive = (s.ttys t).waitingToReceive
  writers : part ≠ .ttyOutput →
    ∀ t, (s'.ttys t).waitingToTransmit = (s.ttys t).waitingToTransmit
  transmit : part ≠ .ttyOutput →
    ∀ t, ∀ p ∈ (s.ttys t).waitingToTransmit, s'.transmit p = s.transmit p
  pipe : part ≠ .pipes → s'.pipe = s.pipe
  lock : part ≠ .locks → s'.lock = s.lock
  owned : part ≠ .locks → ∀ p, s'.owned p = s.owned p
  clock : part ≠ .clock → s'.clockBlockProcs = s.clockBlockProcs
  ticks : part ≠ .clock → ∀ p ∈ s.clockBlockProcs, s'.ticks p = s.ticks p
  events : ∀ r, r ≠ part → r ≠ .other → s'.events r = s.events r

/-- The fields that `SameBut` speaks of. -/
def footprint (s : Sched) : (Nat → Tty) × (Nat → Option Pipe) × (Nat → Option Lock) ×
    (Pid → Option PCB) × List Pid × List Obs :=
  (s.ttys, s.pipe, s.lock, s.pcb, s.clockBlockProcs, s.history)

theorem owned_updPcb {s : Sched} {p r : Pid} {f : PCB → PCB} :
    (s.updPcb r f).owned p =
      ((s.pcb p).map fun a => (if p = r then f a else a).ownedLockIds).getD [] := by
  rw [owned, updPcb_pcb, Option.map_map]
  rfl

theorem ticks_updPcb {s : Sched} {p r : Pid} {f : PCB → PCB} :
    (s.updPcb r f).ticks p =
      (s.pcb p).map fun a => (if p = r then f a else a).clockTicksUntilReady := by
  rw [ticks, updPcb_pcb, Option.map_map]
  rfl

theorem transmit_updPcb {s : Sched} {p r : Pid} {f : PCB → PCB} :
    (s.updPcb r f).transmit p =
      (s.pcb p).map fun a => (if p = r then f a else a).transmit := by
  rw [transmit, updPcb_pcb, Option.map_map]
  rfl

theorem events_observe {s : Sched} {o : Obs} {r : Part} :
    (s.observe o).events r = if o.part = r then s.events r ++ [o] else s.events r := by
  simp only [events, observe, List.filter_append, List.filter_singleton]
  by_cases h : o.part = r <;> simp [h]

namespace SameBut

variable {part : Part} {s s₁ s₂ : Sched}

theorem refl (part : Part) (s : Sched) : SameBut part s s :=
  ⟨fun _ _ => rfl, fun _ _ => rfl, fun _ _ => rfl, fun _ _ _ _ => rfl, fun _ => rfl,
    fun _ => rfl, fun _ _ => rfl, fun _ => rfl, fun _ _ _ => rfl, fun _ _ _ => rfl⟩

theorem trans (h : SameBut part s s₁) (h' : SameBut part s₁ s₂) : SameBut part s s₂ where
  lines hp t := (h'.lines hp t).trans (h.lines hp t)
  receive hp t := (h'.receive hp t).trans (h.receive hp t)
  writers hp t := (h'.writers hp t).trans (h.writers hp t)
  transmit hp t p hmem :=
    (h'.transmit hp t p (by rwa [h.writers hp])).trans (h.transmit hp t p hmem)
  pipe hp := (h'.pipe hp).trans (h.pipe hp)
  lock hp := (h'.lock hp).trans (h.lock hp)
  owned hp p := (h'.owned hp p).trans (h.owned hp p)
  clock hp := (h'.clock hp).trans (h.clock hp)
  ticks hp p hmem := (h'.ticks hp p (by rwa [h.clock hp])).trans (h.ticks hp p hmem)
  events r hr ho := (h'.events r hr ho).trans (h.events r hr ho)

/-- What leaves every part alone leaves all parts but one alone. -/
theorem weaken (h : SameBut .other s s₁) : SameBut part s s₁ where
  lines _ := h.lines (by simp)
  receive _ := h.receive (by simp)
  writers _ := h.writers (by simp)
  transmit _ := h.transmit (by simp)
  pipe _ := h.pipe (by simp)
  lock _ := h.lock (by simp)
  owned _ := h.owned (by simp)
  clock _ := h.clock (by simp)
  ticks _ := h.ticks (by simp)
  events r _ ho := h.events r ho ho

/-- A change outside all parts. -/
theorem keep (h : SameBut part s s₁) (heq : s₂.footprint = s₁.footprint) :
    SameBut part s s₂ := by
  simp only [footprint, Prod.mk.injEq] at heq
  obtain ⟨httys, hpipe, hlock, hpcb, hclock, hhistory⟩ := heq
  exact h.trans
    { lines := fun _ _ => by rw [httys]
      receive := fun _ _ => by rw [httys]
      writers := fun _ _ => by rw [httys]
      transmit := fun _ _ _ _ => by rw [Sched.transmit, hpcb]; rfl
      pipe := fun _ => hpipe
      lock := fun _ => hlock
      owned := fun _ _ => by rw [Sched.owned, hpcb]; rfl
      clock := fun _ => hclock
      ticks := fun _ _ _ => by rw [Sched.ticks, hpcb]; rfl
      events := fun _ _ _ => by rw [Sched.events, hhistory]; rfl }

/-- A PCB is changed, but not the locks it has, its ticks or what it transmits. -/
theorem updPcb (h : SameBut part s s₁) {p : Pid} {f : PCB → PCB}
    (howned : part = .locks ∨ ∀ a, (f a).ownedLockIds = a.ownedLockIds)
    (hticks : part = .clock ∨ ∀ a, (f a).clockTicksUntilReady = a.clockTicksUntilReady)
    (htransmit : part = .ttyOutput ∨ ∀ a, (f a).transmit = a.transmit) :
    SameBut part s (s₁.updPcb p f) := by
  refine h.trans { refl part s₁ with
    transmit := fun hp _ q _ => ?_, owned := fun hp q => ?_, ticks := fun hp q _ => ?_ }
  · rw [transmit_updPcb, Sched.transmit]
    by_cases hq : q = p
    · simp [hq, htransmit.resolve_left hp]
    · simp [hq]
  · rw [owned_updPcb, Sched.owned]
    by_cases hq : q = p
    · simp [hq, howned.resolve_left hp]
    · simp [hq]
  · rw [ticks_updPcb, Sched.ticks]
    by_cases hq : q = p
    · simp [hq, hticks.resolve_left hp]
    · simp [hq]

theorem updRest (h : SameBut part s s₁) {p : Pid} {f : PCB → PCB}
    (howned : ∀ a, (f a).ownedLockIds = a.ownedLockIds)
    (hticks : ∀ a, (f a).clockTicksUntilReady = a.clockTicksUntilReady)
    (htransmit : ∀ a, (f a).transmit = a.transmit) : SameBut part s (s₁.updPcb p f) :=
  h.updPcb (.inr howned) (.inr hticks) (.inr htransmit)

theorem observe (h : SameBut part s s₁) {o : Obs}
    (ho : o.part = part ∨ o.part = .other) :
    SameBut part s (s₁.observe o) := by
  refine h.trans { refl part s₁ with events := fun r hr hne => ?_ }
  have hor : o.part ≠ r := by
    rintro rfl
    exact ho.elim hr hne
  rw [events_observe, if_neg hor]

theorem ready (h : SameBut part s s₁) (p : Pid) : SameBut part s (s₁.ready p) := h.keep rfl

theorem toUser (h : SameBut part s s₁) : SameBut part s s₁.toUser := h.keep rfl

theorem updCvar (h : SameBut part s s₁) (i : Nat) (f : CVar → CVar) :
    SameBut part s (s₁.updCvar i f) :=
  h.keep rfl

theorem updLock (h : SameBut .locks s s₁) (i : Nat) (f : Lock → Lock) :
    SameBut .locks s (s₁.updLock i f) :=
  h.trans { refl .locks s₁ with lock := fun hp => absurd rfl hp }

theorem updPipe (h : SameBut .pipes s s₁) (i : Nat) (f : Pipe → Pipe) :
    SameBut .pipes s (s₁.updPipe i f) :=
  h.trans { refl .pipes s₁ with pipe := fun hp => absurd rfl hp }

theorem updInput (h : SameBut .ttyInput s s₁) (t : Nat) {f : Tty → Tty}
    (hf : ∀ x, (f x).waitingToTransmit = x.waitingToTransmit) :
    SameBut .ttyInput s (s₁.updTty t f) := by
  refine h.trans { refl .ttyInput s₁ with
    lines := fun hp => absurd rfl hp
    receive := fun hp => absurd rfl hp
    writers := fun _ u => ?_ }
  by_cases hu : u = t <;> simp [updTty, hu, hf]

theorem updOutput (h : SameBut .ttyOutput s s₁) (t : Nat) {f : Tty → Tty}
    (hlines : ∀ x, (f x).lineBuffers = x.lineBuffers)
    (hreceive : ∀ x, (f x).waitingToReceive = x.waitingToReceive) :
    SameBut .ttyOutput s (s₁.updTty t f) := by
  refine h.trans { refl .ttyOutput s₁ with
    lines := fun _ u => ?_
    receive := fun _ u => ?_
    writers := fun hp => absurd rfl hp
    transmit := fun hp => absurd rfl hp }
  · by_cases hu : u = t <;> simp [updTty, hu, hlines]
  · by_cases hu : u = t <;> simp [updTty, hu, hreceive]

/-- PCBs are freed, but none that waits for the clock or transmits. -/
theorem pcbs (h : SameBut .locks s s₁) (httys : s₂.ttys = s₁.ttys) (hpipe : s₂.pipe = s₁.pipe)
    (hclock : s₂.clockBlockProcs = s₁.clockBlockProcs)
    (hticks : ∀ p ∈ s₁.clockBlockProcs, s₂.ticks p = s₁.ticks p)
    (htransmit : ∀ t, ∀ p ∈ (s₁.ttys t).waitingToTransmit, s₂.transmit p = s₁.transmit p)
    (hevents : ∀ r, r ≠ .other → s₂.events r = s₁.events r) : SameBut .locks s s₂ :=
  h.trans
    { lines := fun _ _ => by rw [httys]
      receive := fun _ _ => by rw [httys]
      writers := fun _ _ => by rw [httys]
      transmit := fun _ => htransmit
      pipe := fun _ => hpipe
      lock := fun hp => absurd rfl hp
      owned := fun hp => absurd rfl hp
      clock := fun _ => hclock
      ticks := fun _ => hticks
      events := fun r _ hr => hevents r hr }

theorem switchToProc (h : SameBut part s s₁) (next : Pid) (c : KernelContext) :
    SameBut part s (s₁.switchToProc next c) := by
  unfold Sched.switchToProc
  dsimp only
  split
  · exact ((h.updRest (p := s₁.currentProc) (by intro; rfl) (by intro; rfl) (by intro; rfl)).updRest
      (p := next) (by intro; rfl) (by intro; rfl) (by intro; rfl)).keep rfl
  · exact (h.updRest (p := s₁.currentProc) (by intro; rfl) (by intro; rfl) (by intro; rfl)).keep rfl

theorem switchToNextProc (h : SameBut part s s₁) (c : KernelContext) :
    SameBut part s (s₁.switchToNextProc c) := by
  unfold Sched.switchToNextProc
  split
  · refine SameBut.switchToProc ?_ _ c
    exact h.keep rfl
  · exact h.switchToProc _ c

end SameBut

/-! ## The functions of the kernel -/

/-- Every PCB was there before, with the same core. -/
def SameCores (s s' : Sched) : Prop :=
  ∀ p a', s'.pcb p = some a' → ∃ a, s.pcb p = some a ∧ a.core = a'.core

namespace SameCores

variable {s s₁ : Sched}

theorem refl (s : Sched) : SameCores s s := fun _ a ha => ⟨a, ha, rfl⟩

theorem updPcb (h : SameCores s s₁) {r : Pid} {f : PCB → PCB}
    (hf : ∀ a, (f a).core = a.core) : SameCores s (s₁.updPcb r f) := by
  intro p a' ha'
  rw [updPcb_pcb] at ha'
  obtain ⟨a₁, ha₁, rfl⟩ := Option.map_eq_some_iff.mp ha'
  obtain ⟨a, ha, hcore⟩ := h p a₁ ha₁
  refine ⟨a, ha, hcore.trans ?_⟩
  split
  · exact (hf a₁).symm
  · rfl

theorem freePcb (h : SameCores s s₁) (r : Pid) : SameCores s (s₁.freePcb r) := by
  intro p a' ha'
  simp only [Sched.freePcb] at ha'
  split at ha'
  · cases ha'
  · exact h p a' ha'

end SameCores

section
variable {s s' : Sched}

theorem kernelRelease_sameBut {lockId : Nat} {rc : Int}
    (h : s.kernelRelease lockId = .ok (rc, s')) : SameBut .locks s s' := by
  have hdisown : SameBut .locks s (s.disown lockId) := (SameBut.refl _ s).updPcb (.inl rfl)
      (.inr (by intro; rfl)) (.inr (by intro; rfl))
  cases kernelRelease_cases h with
  | error => exact .refl _ s
  | available => exact (hdisown.updLock _ _).observe (by exact .inl rfl)
  | handOver =>
      exact (((hdisown.updLock _ _).updPcb (.inl rfl) (.inr (by intro; rfl))
        (.inr (by intro; rfl))).ready _).observe (by exact .inl rfl)

/-- Nothing that `KernelExit` does with the PCBs changes their cores. -/
theorem leaveFamily_sameCores (s : Sched) (status : Int) : SameCores s (s.leaveFamily status) := by
  unfold leaveFamily
  split
  · exact .refl s
  rename_i pcb _
  have habandon : SameCores s (s.abandonChildren pcb) := by
    intro p a' ha'
    simp only [abandonChildren] at ha'
    split at ha'
    · cases ha'
    split at ha'
    · obtain ⟨a, ha, rfl⟩ := Option.map_eq_some_iff.mp ha'
      exact ⟨a, ha, rfl⟩
    · exact ⟨a', ha', rfl⟩
  have hleave : SameCores s ((s.abandonChildren pcb).updCurrent fun p =>
      { p with liveChildren := [], zombieChildren := [], exitStatus := status }) :=
    habandon.updPcb (by intro; rfl)
  dsimp only
  split
  · exact SameCores.freePcb hleave _
  · unfold becomeZombie
    dsimp only
    split
    · exact SameCores.updPcb hleave (by intro; rfl)
    · exact SameCores.updPcb hleave (by intro; rfl)

theorem leaveFamily_keeps (s : Sched) (status : Int) :
    (s.leaveFamily status).ttys = s.ttys ∧ (s.leaveFamily status).pipe = s.pipe ∧
      (s.leaveFamily status).lock = s.lock ∧
      (s.leaveFamily status).clockBlockProcs = s.clockBlockProcs ∧
      ∀ r, r ≠ .other → (s.leaveFamily status).events r = s.events r := by
  have hevents : ∀ {s₁ : Sched} {p : Pid}, s₁.history = s.history → ∀ r, r ≠ Part.other →
      (s₁.observe (.exited p status)).events r = s.events r := by
    intro s₁ p hhistory r hr
    rw [events_observe, if_neg (fun e => hr e.symm), events, hhistory, events]
  unfold leaveFamily
  split
  · exact ⟨rfl, rfl, rfl, rfl, fun _ _ => rfl⟩
  · dsimp only
    split
    · exact ⟨rfl, rfl, rfl, rfl, hevents rfl⟩
    · unfold becomeZombie
      dsimp only
      split
      · exact ⟨rfl, rfl, rfl, rfl, hevents rfl⟩
      · exact ⟨rfl, rfl, rfl, rfl, hevents rfl⟩

/-- A process that waits for the clock is live, so it has a PCB. -/
theorem Settled.live_of_clock {parked : Prop} {p : Pid} (h : s.Settled parked)
    (hp : p ∈ s.clockBlockProcs) : s.live p := by
  have hocc : s.occ .clock p ≠ 0 := Nat.pos_iff_ne_zero.mp (List.count_pos_iff.mpr hp)
  exact (h.placed.inside_of_occ hocc).1

/-- A process that transmits is live, so it has a PCB. -/
theorem Settled.live_of_writer {parked : Prop} {p : Pid} {t : Nat} (h : s.Settled parked)
    (hp : p ∈ (s.ttys t).waitingToTransmit) : s.live p := by
  have hocc : s.occ (.transmit t) p ≠ 0 := Nat.pos_iff_ne_zero.mp (List.count_pos_iff.mpr hp)
  exact (h.placed.inside_of_occ hocc).1

theorem Settled.pcb_of_writer {parked : Prop} {p : Pid} {t : Nat} (h : s.Settled parked)
    (hp : p ∈ (s.ttys t).waitingToTransmit) : ∃ a, s.pcb p = some a :=
  Option.isSome_iff_exists.mp (Bool.and_eq_true _ _ ▸ h.live_of_writer hp).1

theorem Settled.pcb_of_clock {parked : Prop} {p : Pid} (h : s.Settled parked)
    (hp : p ∈ s.clockBlockProcs) : ∃ a, s.pcb p = some a :=
  Option.isSome_iff_exists.mp (Bool.and_eq_true _ _ ▸ h.live_of_clock hp).1

/-- Processes that wait for the clock keep waiting as long when other processes end. -/
theorem ticks_of_sameCores {parked : Prop} (h : SameCores s s') (hs' : s'.Settled parked)
    (hclock : s'.clockBlockProcs = s.clockBlockProcs) :
    ∀ p ∈ s.clockBlockProcs, s'.ticks p = s.ticks p := by
  intro p hp
  obtain ⟨a', ha'⟩ := hs'.pcb_of_clock (hclock ▸ hp)
  obtain ⟨a, ha, hcore⟩ := h p a' ha'
  have hticks : a.clockTicksUntilReady = a'.clockTicksUntilReady :=
    congrArg (fun c => c.2.2.1) hcore
  rw [ticks, ticks, ha, ha', Option.map_some, Option.map_some, hticks]

/-- Processes that transmit go on transmitting the same when other processes end. -/
theorem transmit_of_sameCores {parked : Prop} (h : SameCores s s') (hs' : s'.Settled parked)
    (httys : s'.ttys = s.ttys) :
    ∀ t, ∀ p ∈ (s.ttys t).waitingToTransmit, s'.transmit p = s.transmit p := by
  intro t p hp
  obtain ⟨a', ha'⟩ := hs'.pcb_of_writer (t := t) (httys ▸ hp)
  obtain ⟨a, ha, hcore⟩ := h p a' ha'
  have htransmit : a.transmit = a'.transmit := congrArg (fun c => c.2.2.2.1) hcore
  rw [transmit, transmit, ha, ha', Option.map_some, Option.map_some, htransmit]

theorem kernelExit_sameBut {status : Int} (h : s.Running) (hcur : s.currentProc ≠ IDLE_PID)
    (hok : s.kernelExit status = .ok s') : SameBut .locks s s' := by
  unfold kernelExit at hok
  rcases ite_eq_ok hok with ⟨-, hok⟩ | ⟨-, hok⟩
  · cases hok
  obtain ⟨s₁, hrelease, hret⟩ := bind_eq_ok.mp hok
  cases hret
  have h₁ : SameBut .locks s s₁ := releaseOwnedLocks_rule (P := SameBut .locks s)
    (fun _ _ _ _ hs hr => hs.trans (kernelRelease_sameBut hr)) (.refl _ s) hrelease
  obtain ⟨hrun₁, hl₁⟩ := h.releaseOwnedLocks hrelease
  obtain ⟨hparked, -⟩ := hrun₁.leaveFamily (by rwa [hl₁.currentProc]) status
  obtain ⟨httys, hpipe, -, hclock, hevents⟩ := leaveFamily_keeps s₁ status
  have hcores := leaveFamily_sameCores s₁ status
  exact h₁.pcbs httys hpipe hclock (ticks_of_sameCores hcores hparked hclock)
    (transmit_of_sameCores hcores hparked httys) hevents

theorem decrementTicksRemaining_sameBut (s : Sched) (proc : Pid) :
    SameBut .clock s (s.decrementTicksRemaining proc).2 := by
  have h₁ : SameBut .clock s (s.updPcb proc fun p =>
      { p with clockTicksUntilReady := p.clockTicksUntilReady - 1 }) :=
    (SameBut.refl _ s).updPcb (.inr (by intro; rfl)) (.inl rfl) (.inr (by intro; rfl))
  unfold decrementTicksRemaining
  dsimp only
  generalize s.updPcb proc _ = s₁ at h₁
  split
  · have h₂ : SameBut .clock s₁ { s₁ with clockBlockProcs := s₁.clockBlockProcs.erase proc } :=
      { SameBut.refl .clock s₁ with
        clock := fun hp => absurd rfl hp
        ticks := fun hp => absurd rfl hp }
    exact ((h₁.trans h₂).ready proc).observe (by exact .inl rfl)
  · exact h₁

theorem trapClock_sameBut {afterFree : List FreedNext} (h : s.trapClock afterFree = .ok s') :
    SameBut .clock s s' := by
  obtain ⟨s₁, hmap, hrest⟩ := bind_eq_ok.mp h
  obtain ⟨_, h₁⟩ := mapTicks_rule (P := fun _ => SameBut .clock s)
    (fun s proc _ hs => hs.trans (decrementTicksRemaining_sameBut s proc))
    ((SameBut.refl _ s).observe (by exact .inl rfl)) hmap
  rcases ite_eq_ok hrest with ⟨-, hret⟩ | ⟨-, hret⟩ <;> cases hret
  · exact h₁.ready _
  · exact h₁

theorem enqueueForClock_sameBut (s : Sched) (clockTicks : Int) :
    SameBut .clock s (s.enqueueForClock clockTicks) := by
  have h₁ : SameBut .clock s (s.updCurrent fun p => { p with clockTicksUntilReady := clockTicks }) :=
    (SameBut.refl _ s).updPcb (.inr (by intro; rfl)) (.inl rfl) (.inr (by intro; rfl))
  unfold enqueueForClock
  dsimp only
  generalize s.updCurrent _ = s₁ at h₁
  have h₂ : SameBut .clock s₁
      { s₁ with clockBlockProcs := s₁.clockBlockProcs ++ [s₁.currentProc] } :=
    { SameBut.refl .clock s₁ with
      clock := fun hp => absurd rfl hp
      ticks := fun hp => absurd rfl hp }
  exact (h₁.trans h₂).observe (by exact .inl rfl)

theorem serveReader_sameBut (s : Sched) (ttyId : Nat) (proc : Pid) (rest : List Pid) (pcb : PCB)
    (buffer input : List Byte) :
    SameBut .ttyInput s (s.serveReader ttyId proc rest pcb buffer input) :=
  ((((SameBut.refl _ s).updInput ttyId (by intro; rfl)).ready _).updRest (by intro; rfl)
    (by intro; rfl) (by intro; rfl)).observe (by exact .inl rfl)

theorem trapTtyRecieve_sameBut {ttyId : Nat} {input : List Byte}
    (h : s.trapTtyRecieve ttyId input = .ok s') : SameBut .ttyInput s s' := by
  unfold trapTtyRecieve at h
  rcases ite_eq_ok h with ⟨-, h⟩ | ⟨-, h⟩
  · cases h
  have h₀ : SameBut .ttyInput s (s.observe (.ttyReceived ttyId (input.take TERMINAL_MAX_LINE))) :=
    (SameBut.refl _ s).observe (by exact .inl rfl)
  rcases ite_eq_ok h with ⟨-, h⟩ | ⟨-, h⟩
  · cases h
    exact h₀.updInput _ (by intro; rfl)
  · obtain ⟨⟨left, s₁⟩, hserve, hrest⟩ := bind_eq_ok.mp h
    obtain ⟨_, h₁, -⟩ := serveReaders_rule (P := fun _ _ => SameBut .ttyInput s)
      (fun _ _ _ _ _ _ hs _ _ _ => hs.trans (serveReader_sameBut _ _ _ _ _ _ _)) h₀ hserve
    rcases ite_eq_ok hrest with ⟨-, hret⟩ | ⟨-, hret⟩ <;> cases hret
    · exact h₁
    · exact h₁.updInput _ (by intro; rfl)

theorem enqueueToReceive_sameBut (s : Sched) (ttyId len : Nat) :
    SameBut .ttyInput s (s.enqueueToReceive ttyId len) :=
  ((SameBut.refl _ s).updInput ttyId (by intro; rfl)).updRest (by intro; rfl) (by intro; rfl)
    (by intro; rfl)

theorem transmitNext_sameBut (s : Sched) (ttyId : Nat) (proc : Pid) :
    SameBut .ttyOutput s (s.transmitNext ttyId proc) := by
  unfold transmitNext
  split
  · exact .refl _ s
  · exact (SameBut.refl _ s).observe (by exact .inl rfl)

theorem trapTtyTransmit_sameBut {ttyId : Nat} (h : s.trapTtyTransmit ttyId = .ok s') :
    SameBut .ttyOutput s s' := by
  have h₀ : SameBut .ttyOutput s (s.observe (.ttyTransmitted ttyId)) := (SameBut.refl _ s).observe (by exact .inl rfl)
  have hfinish : ∀ proc rest, SameBut .ttyOutput s (s.finishTransmit ttyId proc rest) :=
    fun proc rest => ((h₀.updOutput ttyId (by intro; rfl) (by intro; rfl)).ready proc).observe (by exact .inl rfl)
  cases trapTtyTransmit_cases h with
  | advance =>
      refine SameBut.trans ?_ (transmitNext_sameBut _ _ _)
      exact h₀.updPcb (.inr (by intro a; simp only)) (.inr (by intro a; simp only)) (.inl rfl)
  | last => exact hfinish _ _
  | finish => exact (hfinish _ _).trans (transmitNext_sameBut _ _ _)

theorem enqueueToTransmit_sameBut (s : Sched) (ttyId : Nat) (bytes : List Byte) :
    SameBut .ttyOutput s (s.enqueueToTransmit ttyId bytes) := by
  have h₁ : ∀ f : PCB → PCB, _ → _ → SameBut .ttyOutput s ((s.updCurrent f).updTty ttyId fun t =>
      { t with waitingToTransmit := t.waitingToTransmit ++ [s.currentProc] }) :=
    fun f howned hticks => ((SameBut.refl _ s).updPcb howned hticks (.inl rfl)).updOutput ttyId (by intro; rfl) (by intro; rfl)
  unfold enqueueToTransmit
  dsimp only
  split
  · exact ((h₁ _ (.inr (by intro; rfl)) (.inr (by intro; rfl))).observe (by exact .inl rfl)).observe (by exact .inl rfl)
  · exact (h₁ _ (.inr (by intro; rfl)) (.inr (by intro; rfl))).observe (by exact .inl rfl)

theorem afterPipeWrite_sameBut (s : Sched) (pipeId : Nat) (p : Pipe) (bytes : List Byte) :
    SameBut .pipes s (s.afterPipeWrite pipeId p bytes) := by
  have h₁ : ∀ f, SameBut .pipes s ((s.updPipe pipeId f).observe (.pipeWritten pipeId bytes)) :=
    fun f => ((SameBut.refl _ s).updPipe pipeId f).observe (by exact .inl rfl)
  unfold afterPipeWrite
  dsimp only
  split
  · exact (h₁ _).ready _
  · exact h₁ _

theorem kernelCvarSignal_sameBut (s : Sched) (cvarId : Nat) :
    SameBut .other s (s.kernelCvarSignal cvarId).2 := by
  unfold kernelCvarSignal
  split
  · exact .refl _ s
  · split
    · exact .refl _ s
    · exact ((SameBut.refl _ s).updCvar _ _).ready _

theorem kernelCvarBroadcast_sameBut (s : Sched) (cvarId : Nat) :
    SameBut .other s (s.kernelCvarBroadcast cvarId).2 := by
  unfold kernelCvarBroadcast
  split
  · exact .refl _ s
  · exact (SameBut.refl _ s).keep rfl

theorem kernelReclaim_sameBut (s : Sched) (id : Nat) : SameBut .other s (s.kernelReclaim id).2 := by
  rcases kernelReclaim_cases s id with he | he | he | he <;> rw [he]
  · exact .refl _ s
  all_goals exact (SameBut.refl _ s).keep rfl

theorem takeLock_sameBut (s : Sched) (lockId : Nat) : SameBut .locks s (s.takeLock lockId) :=
  (((SameBut.refl _ s).updLock _ _).updPcb (.inl rfl) (.inr (by intro; rfl))
    (.inr (by intro; rfl))).observe (by exact .inl rfl)

theorem enqueueForLock_sameBut (s : Sched) (lockId : Nat) :
    SameBut .locks s (s.enqueueForLock lockId) :=
  ((SameBut.refl _ s).updLock _ _).observe (by exact .inl rfl)

/-- A child has no PCB before it is forked. -/
theorem Settled.nextPid_pcb {parked : Prop} (h : s.Settled parked) : s.pcb s.nextPid = none := by
  rw [← Option.not_isSome_iff_eq_none]
  exact fun hp => Nat.lt_irrefl _ (h.pcbLt _ hp)

theorem addChild_sameBut (h : s.Running) :
    SameBut .other s (({ s with nextPid := s.nextPid + 1 } : Sched).addChild s.nextPid) := by
  have hnone := h.nextPid_pcb
  have h₁ : SameBut .other s
      { s with
        nextPid := s.nextPid + 1
        pcb := fun q => if q = s.nextPid then some { liveParent := some s.currentProc }
          else s.pcb q } := by
    refine { (SameBut.refl .other s).keep rfl with
      transmit := fun _ t p hp => ?_, owned := fun _ p => ?_, ticks := fun _ p hp => ?_ }
    · obtain ⟨a, ha⟩ := h.pcb_of_writer hp
      have hpn : p ≠ s.nextPid := by
        rintro rfl
        simp [hnone] at ha
      simp [Sched.transmit, hpn]
    · by_cases hpn : p = s.nextPid <;> simp [Sched.owned, hpn, hnone]
    · obtain ⟨a, ha⟩ := h.pcb_of_clock hp
      have hpn : p ≠ s.nextPid := by
        rintro rfl
        simp [hnone] at ha
      simp [Sched.ticks, hpn]
  exact (h₁.updRest (by intro; rfl) (by intro; rfl) (by intro; rfl)).observe (by exact .inl rfl)

end

/-! ## The steps, sorted by the part they touch -/

/-- What a step does to the output of the terminals. -/
inductive OutputStep (s : Sched) (c : Cause) : Sched → Prop
  | write {ttyId : Nat} {bytes : List Byte} (calls : s.Calls) :
      OutputStep s c (s.enqueueToTransmit ttyId bytes)
  | transmitted {ttyId : Nat} {s₁ : Sched} (cause : c = .transmitted ttyId)
      (run : s.trapTtyTransmit ttyId = .ok s₁) : OutputStep s c s₁

/-- What a step does to one part. The terminals, the pipes and the clock are touched in a few
ways only. -/
inductive PartStep (s : Sched) (c : Cause) : Part → Sched → Prop
  | other : PartStep s c .other s
  | ttyOutput {s₁ : Sched} (same : SameBut .ttyOutput s s₁) (output : OutputStep s c s₁) :
      PartStep s c .ttyOutput s₁
  | locks {s₁ : Sched} (same : SameBut .locks s s₁) : PartStep s c .locks s₁
  | consumeLine {ttyId len : Nat} {lb : LineBuffer} {rest : List LineBuffer}
      (cause : c = .readsLine ttyId len) (behind : List Byte)
      (lines : (s.ttys ttyId).lineBuffers = lb :: rest) :
      PartStep s c .ttyInput ((s.updTty ttyId fun t =>
        { t with lineBuffers := (lb.afterRead len).1.toList ++ rest }).observe
          (.ttyServed ttyId s.currentProc
            (((lb.buffer ++ behind).take len).take (lb.afterRead len).2)))
  | ttyReadBlock {ttyId len : Nat} (cause : c = .readsLine ttyId len)
      (lines : (s.ttys ttyId).lineBuffers = []) :
      PartStep s c .ttyInput (s.enqueueToReceive ttyId len)
  | ttyReceive {ttyId : Nat} {input : List Byte} {s₁ : Sched}
      (cause : c = .received ttyId input)
      (run : s.trapTtyRecieve ttyId input = .ok s₁) : PartStep s c .ttyInput s₁
  | pipeInit : PartStep s c .pipes s.pipeNewPipe
  | pipeReadBlock {pipeId len : Nat} {p : Pipe} (pipe : s.pipe pipeId = some p)
      (short : p.numCharsAvailable < len) :
      PartStep s c .pipes (s.updPipe pipeId fun p =>
        { p with waitingToRead := p.waitingToRead ++ [(len, s.currentProc)] })
  | pipeRead {pipeId len : Nat} {p p' : Pipe} {bytes : List Byte}
      (pipe : s.pipe pipeId = some p) (run : p.pipeCopyIntoUserBuffer len = .ok (bytes, p')) :
      PartStep s c .pipes ((s.updPipe pipeId fun _ => p').observe
        (.pipeRead pipeId s.currentProc len bytes))
  | pipeWrite {pipeId : Nat} {p p' : Pipe} {bytes : List Byte}
      (cause : c = .writesPipe pipeId bytes.length) (pipe : s.pipe pipeId = some p) (run : p.write bytes = .ok p') :
      PartStep s c .pipes (s.afterPipeWrite pipeId p' bytes)
  | delay {clockTicks : Int} (positive : 0 < clockTicks) :
      PartStep s c .clock (s.enqueueForClock clockTicks)
  | clock {afterFree : List FreedNext} {s₁ : Sched} (cause : c = .clock afterFree)
      (run : s.trapClock afterFree = .ok s₁) :
      PartStep s c .clock s₁

/-- A step that touches a part leaves the others alone. -/
theorem PartStep.same {s s₁ : Sched} {c : Cause} {part : Part} (h : PartStep s c part s₁) :
    SameBut part s s₁ := by
  have hs : ∀ part, SameBut part s s := fun part => .refl part s
  cases h with
  | other => exact hs _
  | ttyOutput same _ => exact same
  | locks same => exact same
  | consumeLine _ _ _ => exact ((hs .ttyInput).updInput _ (by intro; rfl)).observe (by exact .inl rfl)
  | ttyReadBlock _ _ => exact enqueueToReceive_sameBut _ _ _
  | ttyReceive _ run => exact trapTtyRecieve_sameBut run
  | pipeInit => exact { hs .pipes with pipe := fun hp => absurd rfl hp }
  | pipeReadBlock _ _ => exact (hs .pipes).updPipe _ _
  | pipeRead _ _ => exact ((hs .pipes).updPipe _ _).observe (by exact .inl rfl)
  | pipeWrite _ _ _ => exact afterPipeWrite_sameBut _ _ _ _
  | delay _ => exact enqueueForClock_sameBut _ _
  | clock _ run => exact trapClock_sameBut run

end Sched

open Sched

/-- Each step touches one part at most. -/
theorem SchedStep.part {c : Cause} {s s' : Sched} (h : s.Running) (hstep : SchedStep s c s') :
    ∃ part s₁, PartStep s c part s₁ ∧ SameBut .other s₁ s' := by
  have hother : SameBut .other s s' → ∃ part s₁, PartStep s c part s₁ ∧ SameBut .other s₁ s' :=
    fun hs => ⟨.other, s, .other, hs⟩
  have hlocks : SameBut .locks s s' → ∃ part s₁, PartStep s c part s₁ ∧ SameBut .other s₁ s' :=
    fun hs => ⟨.locks, s', .locks hs, .refl _ _⟩
  have hs : ∀ part, SameBut part s s := fun part => .refl part s
  cases hstep with
  | quiet => exact hother (hs _)
  | finish _ _ => exact hother (hs _).toUser
  | forkFailed _ => exact hother ((hs _).keep rfl)
  | fork _ => exact hother ((addChild_sameBut h).ready _ |>.switchToProc _ _)
  | exit entry run =>
      have hcur : s.currentProc ≠ IDLE_PID := entry.elim And.right (h.ne_idle · (by simp))
      exact hlocks ((kernelExit_sameBut h hcur run).switchToNextProc _)
  | @collect pcb childPcb child rest _ current zombies _ =>
      have hfree : SameBut .locks s
          ((s.updCurrent fun p => { p with zombieChildren := rest }).freePcb child) := by
        -- The child has exited, so it does not wait for anything.
        have hchild : ∀ p, s.live p → p ≠ child := by
          rintro p hlive rfl
          have hexited := h.zombies _ _ current p (zombies ▸ List.mem_cons_self)
          simp [Sched.live, hexited] at hlive
        have hpcb : ∀ p ≠ child,
            (((s.updCurrent fun p => { p with zombieChildren := rest }).freePcb child).pcb p)
              = (s.pcb p).map fun a =>
                if p = s.currentProc then { a with zombieChildren := rest } else a := by
          intro p hpc
          simp only [freePcb, if_neg hpc, updCurrent, updPcb_pcb]
        refine .pcbs (.refl _ s) rfl rfl rfl (fun p hp => ?_) (fun t p hp => ?_) fun _ _ => rfl
        · rw [Sched.ticks, Sched.ticks, hpcb p (hchild p (h.live_of_clock hp)), Option.map_map]
          congr 1
          funext a
          exact (apply_ite PCB.clockTicksUntilReady _ _ _).trans (ite_self _)
        · rw [Sched.transmit, Sched.transmit, hpcb p (hchild p (h.live_of_writer hp)),
            Option.map_map]
          congr 1
          funext a
          exact (apply_ite PCB.transmit _ _ _).trans (ite_self _)
      exact hlocks (hfree.observe (by exact .inr rfl)).toUser
  | wait _ _ _ _ => exact hother (((hs _).updRest (by intro; rfl) (by intro; rfl) (by intro; rfl)).switchToNextProc _)
  | delay _ positive => exact ⟨.clock, _, .delay positive, (SameBut.refl _ _).switchToNextProc _⟩
  | clock cause _ run => exact ⟨.clock, _, .clock cause run, (SameBut.refl _ _).switchToNextProc _⟩
  | consumeLine cause behind _ lines =>
      exact ⟨.ttyInput, _, .consumeLine cause behind lines, (SameBut.refl _ _).toUser⟩
  | ttyReadBlock cause _ lines =>
      exact ⟨.ttyInput, _, .ttyReadBlock cause lines, (SameBut.refl _ _).switchToNextProc _⟩
  | ttyReceive cause _ run => exact ⟨.ttyInput, _, .ttyReceive cause run, .refl _ _⟩
  | ttyWrite calls _ =>
      exact ⟨.ttyOutput, _, .ttyOutput (enqueueToTransmit_sameBut _ _ _) (.write calls),
        (SameBut.refl _ _).switchToNextProc _⟩
  | ttyTransmit cause _ run =>
      exact ⟨.ttyOutput, _, .ttyOutput (trapTtyTransmit_sameBut run) (.transmitted cause run),
        .refl _ _⟩
  | pipeInit _ => exact ⟨.pipes, _, .pipeInit, (SameBut.refl _ _).toUser⟩
  | lockInit _ =>
      refine hlocks (SameBut.toUser ?_)
      exact { hs .locks with lock := fun hp => absurd rfl hp }
  | cvarInit _ => exact hother ((hs _).keep rfl)
  | pipeReadBlock _ pipe short =>
      exact ⟨.pipes, _, .pipeReadBlock pipe short, (SameBut.refl _ _).switchToNextProc _⟩
  | pipeRead _ pipe run => exact ⟨.pipes, _, .pipeRead pipe run, (SameBut.refl _ _).toUser⟩
  | pipeWrite cause _ found run =>
      exact ⟨.pipes, _, .pipeWrite cause (mem_of_findPipe found).2 run, (SameBut.refl _ _).toUser⟩
  | acquireOwned _ _ _ _ => exact hlocks ((hs _).observe (by exact .inl rfl)).toUser
  | acquireFree _ _ _ => exact hlocks ((takeLock_sameBut _ _).observe (by exact .inl rfl)).toUser
  | acquireBlock _ _ _ _ => exact hlocks ((enqueueForLock_sameBut _ _).switchToNextProc _)
  | acquireMissing _ _ => exact hother (hs _).toUser
  | acquireReturn _ _ _ _ => exact hlocks ((hs _).observe (by exact .inl rfl)).toUser
  | release _ run => exact hlocks (kernelRelease_sameBut run).toUser
  | cvarSignal _ => exact hother (kernelCvarSignal_sameBut _ _).toUser
  | cvarBroadcast _ => exact hother (kernelCvarBroadcast_sameBut _ _).toUser
  | cvarWait _ _ run _ =>
      exact hlocks (((kernelRelease_sameBut run).updCvar _ _).switchToNextProc _)
  | reclaim _ => exact hother (kernelReclaim_sameBut _ _).toUser

end Theynix
