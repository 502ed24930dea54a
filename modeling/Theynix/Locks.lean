import Theynix.Lib.FifoLock
import Theynix.Footprint

/-!
# `Theynix.Locks`: locks exclude each other's owners and are handed over in FIFO order

A lock of the kernel is read as a `FifoLock`, and the events that `KernelAcquire` and
`KernelRelease` record as its events. `Sched.LockInv` says that the events of every lock
are a run of the `FifoLock` to its present state, that a process owns exactly the locks it
holds, and that a process that was woken from the queue of a lock holds the lock.

`SchedStep.lockInv` says that every step keeps the invariant, and `reachable_lockInv` that it
holds in every state of every run.
-/

set_option autoImplicit false

namespace Theynix

open Theynix.Lib (FifoLock LockEvent Adds bind_eq_ok ite_eq_ok)

/-- What an event means for a lock. -/
def Obs.lockEvent (lockId : Nat) : Obs → Option (LockEvent Pid)
  | .lockTaken i p => if i = lockId then some (.take p) else none
  | .lockBlocked i p => if i = lockId then some (.block p) else none
  | .lockGranted i p => if i = lockId then some (.grant p) else none
  | .lockFreed i => if i = lockId then some .free else none
  | .lockReturned i p => if i = lockId then some (.returned p) else none
  | _ => none

/-- A lock without what only the kernel needs: an available lock has no holder. -/
def Lock.toFifo (l : Lock) : FifoLock Pid where
  holder := if l.acquired then some l.ownerId else none
  queue := l.waitingProcs

/-- The queue that suspends a process in `KernelAcquire` is that of the lock. -/
theorem Queue.Suspends.eq_lock {q : Queue} {i : Nat} (h : q.Suspends (.kernelAcquire i))
    (hq : q ≠ .ready) : q = .lock i := by
  cases q with
  | ready => exact absurd rfl hq
  | clock => cases h
  | receive t => cases h.choose_spec
  | transmit t => cases h
  | lock j => exact congrArg _ (KernelContext.kernelAcquire.inj h).symm
  | cvar j => cases h.choose_spec
  | pipe j => cases h.choose_spec.choose_spec
  | wait => cases h.choose_spec

namespace Sched

/-- What happened to a lock. -/
def lockEvents (s : Sched) (lockId : Nat) : List (LockEvent Pid) :=
  (s.events .locks).filterMap (Obs.lockEvent lockId)

/-- A lock, as a `FifoLock`. One that has not been created is available. -/
def fifoLock (s : Sched) (lockId : Nat) : FifoLock Pid :=
  ((s.lock lockId).map Lock.toFifo).getD {}

/-- The process is suspended in `KernelAcquire`, or was when it was last suspended. -/
def InAcquire (s : Sched) (p : Pid) (lockId : Nat) : Prop :=
  ∃ a, s.pcb p = some a ∧ a.kernelContext = .kernelAcquire lockId

theorem lockEvents_observe {s : Sched} {o : Obs} {i : Nat} :
    (s.observe o).lockEvents i = s.lockEvents i ++ (o.lockEvent i).toList := by
  rw [lockEvents, events_observe]
  split
  · rw [List.filterMap_append]
    cases ho : o.lockEvent i <;> simp [lockEvents, ho]
  · rename_i hpart
    cases o <;> first | exact absurd rfl hpart | simp [lockEvents, Obs.lockEvent]

theorem fifoLock_updLock {s : Sched} {i j : Nat} {f : Lock → Lock} {l : Lock}
    (hl : s.lock i = some l) :
    (s.updLock i f).fifoLock j = if j = i then (f l).toFifo else s.fifoLock j := by
  by_cases hj : j = i <;> simp [fifoLock, updLock, hj, hl]

theorem fifoLock_of_lock {s : Sched} {i : Nat} {l : Lock} (hl : s.lock i = some l) :
    s.fifoLock i = l.toFifo := by
  simp [fifoLock, hl]

theorem occ_lock {s : Sched} {i : Nat} {p : Pid} :
    s.occ (.lock i) p = (s.fifoLock i).queue.count p := by
  cases hl : s.lock i <;> simp [occ, fifoLock, hl, Lock.toFifo]

/-! ## The invariant -/

/-- The locks are as their events say, a process owns the locks it holds, and who comes back
from the queue of a lock holds it. -/
structure LockInv (s : Sched) : Prop where
  owned : ∀ p i, (s.owned p).count i = if (s.fifoLock i).holder = some p then 1 else 0
  exited : ∀ p i, s.exited p → (s.fifoLock i).holder ≠ some p
  granted : ∀ p i, p ≠ s.currentProc → p ∈ s.readyQueue → s.InAcquire p i →
    (s.fifoLock i).holder = some p
  resuming : ∀ i, s.mode = .kernel → s.InAcquire s.currentProc i →
    (s.fifoLock i).holder = some s.currentProc
  fifo : ∀ i, FifoLock.run {} (s.lockEvents i) = some (s.fifoLock i)

/-- The locks, their owners and their past are the same. -/
structure SameLocks (s s' : Sched) : Prop where
  fifoLock : ∀ i, s'.fifoLock i = s.fifoLock i
  owned : ∀ p, s'.owned p = s.owned p
  lockEvents : ∀ i, s'.lockEvents i = s.lockEvents i

theorem SameBut.locks {part : Part} {s s' : Sched} (h : SameBut part s s')
    (hp : part ≠ .locks) : SameLocks s s' where
  fifoLock i := by rw [Sched.fifoLock, h.lock hp, Sched.fifoLock]
  owned := h.owned hp
  lockEvents i := by rw [Sched.lockEvents, h.events .locks hp.symm (by simp), Sched.lockEvents]

section
variable {s s' : Sched} {parked parked' : Prop}

theorem LockInv.wellFormed (h : s.LockInv) (i : Nat) : (s.fifoLock i).WellFormed :=
  FifoLock.run_wellFormed FifoLock.wellFormed_empty (h.fifo i)

/-- A step that leaves the locks alone. What it makes of the processes that have been
granted a lock comes from before the step. -/
theorem LockInv.frame (h : s.LockInv) (hs : SameLocks s s')
    (hexited : ∀ p, s'.exited p → s.exited p ∨ s.owned p = [])
    (hgranted : ∀ p i, p ≠ s'.currentProc → p ∈ s'.readyQueue → s'.InAcquire p i →
      p ≠ s.currentProc ∧ p ∈ s.readyQueue ∧ s.InAcquire p i)
    (hresuming : ∀ i, s'.mode = .kernel → s'.InAcquire s'.currentProc i →
      s.mode = .kernel ∧ s'.currentProc = s.currentProc ∧ s.InAcquire s.currentProc i) :
    s'.LockInv where
  owned p i := by rw [hs.owned, hs.fifoLock, h.owned]
  exited p i hp := by
    rw [hs.fifoLock]
    rcases hexited p hp with hp | hp
    · exact h.exited p i hp
    · intro hholder
      have hcount := h.owned p i
      simp [hp, hholder] at hcount
  granted p i hcur hready hctx := by
    obtain ⟨hcur, hready, hctx⟩ := hgranted p i hcur hready hctx
    rw [hs.fifoLock]
    exact h.granted p i hcur hready hctx
  resuming i hmode hctx := by
    obtain ⟨hmode, hcur, hctx⟩ := hresuming i hmode hctx
    rw [hs.fifoLock, hcur]
    exact h.resuming i hmode hctx
  fifo i := by rw [hs.lockEvents, hs.fifoLock, h.fifo]

theorem SameLives.inAcquire (h : SameLives s s') {p : Pid} {i : Nat} (hp : s'.InAcquire p i) :
    s.InAcquire p i := by
  obtain ⟨a', ha', hctx⟩ := hp
  obtain ⟨a, ha, -, heq⟩ := h.pcb_some ha'
  exact ⟨a, ha, heq.trans hctx⟩

theorem SameLives.kernelMode (h : SameLives s s') (hmode : s'.mode = .kernel) :
    s.mode = .kernel := by
  cases hm : s.mode with
  | kernel => rfl
  | user => cases ((h.mode hm).symm.trans hmode)

/-- A process that a step makes ready, and that was suspended in `KernelAcquire`, was taken
out of the queue of the lock. -/
theorem Settled.dequeued {p : Pid} {i : Nat} (hset : s.Settled parked)
    (hset' : s'.Settled parked') (hlive : s'.live p = true → s.live p = true)
    (hcur : p ≠ s.currentProc) (hready : p ∈ s'.readyQueue) (hctx : s.InAcquire p i) :
    p ∈ s.readyQueue ∨ p ∈ (s.fifoLock i).queue ∧ p ∉ (s'.fifoLock i).queue := by
  have hocc' := occ_ready_ne_zero.mpr hready
  obtain ⟨hp, hidle, -⟩ := hset'.placed.inside_of_occ hocc'
  obtain ⟨q, hq, -⟩ := hset.placed.once ⟨hlive hp, hidle, .inr hcur⟩
  have hocc : s.occ q p ≠ 0 := by omega
  by_cases hqr : q = .ready
  · exact .inl (occ_ready_ne_zero.mp (hqr ▸ hocc))
  · obtain ⟨a, ha, hsus⟩ := hset.suspended q p hqr hocc hcur
    obtain ⟨a₁, ha₁, hctx⟩ := hctx
    rw [Option.some.inj (ha.symm.trans ha₁), hctx] at hsus
    have hlock := hsus.eq_lock hqr
    subst hlock
    have hzero := (hset'.placed.unique hocc').2 (.lock i) (by simp)
    rw [occ_lock] at hocc hzero
    exact .inr ⟨List.count_pos_iff.mp (Nat.pos_of_ne_zero hocc), List.count_eq_zero.mp hzero⟩

/-- A step that leaves the locks alone and neither creates nor ends a process. -/
theorem LockInv.same (h : s.LockInv) (hset : s.Settled parked) (hset' : s'.Settled parked')
    (hl : SameLives s s') (hs : SameLocks s s') : s'.LockInv := by
  refine h.frame hs (fun p hp => .inl (by rwa [hl.exited] at hp)) (fun p i hcur hready hctx => ?_)
    fun i hmode hctx => ?_
  · rw [hl.currentProc] at hcur
    have hctx' := hl.inAcquire hctx
    refine ⟨hcur, ?_, hctx'⟩
    rcases hset.dequeued hset' (by rw [hl.live]; exact id) hcur hready hctx' with
      hready | ⟨hin, hout⟩
    · exact hready
    · rw [hs.fifoLock] at hout
      exact absurd hin hout
  · rw [hl.currentProc] at hctx
    exact ⟨hl.kernelMode hmode, hl.currentProc, hl.inAcquire hctx⟩

/-! ## Switching -/

/-- A PCB after a switch: the processes that were not touched go on where they did. -/
theorem InAcquire.of_switchToProc {next p : Pid} {c : KernelContext} {i : Nat}
    (h : (s.switchToProc next c).InAcquire p i) :
    s.InAcquire p i ∧ p ≠ s.currentProc ∨ c = .kernelAcquire i ∧ (p = s.currentProc ∨ p = next ∧
      ∃ a, s.pcb p = some a ∧ a.kernelContextInitialized = false) := by
  obtain ⟨a', ha', hctx⟩ := h
  rw [switchToProc_pcb] at ha'
  obtain ⟨a, ha, rfl⟩ := Option.map_eq_some_iff.mp ha'
  dsimp only at hctx
  split at hctx
  · rename_i hc
    refine .inr ⟨hctx, ?_⟩
    rcases hc with hc | ⟨hc, hinit⟩
    · exact .inl hc
    · exact .inr ⟨hc, a, ha, hinit⟩
  · rename_i hc
    exact .inl ⟨⟨a, ha, hctx⟩, fun e => hc (.inl e)⟩

/-- Switching, when who waits for a lock is not in the ready queue. -/
theorem LockInv.switchToProc {next : Pid} {c : KernelContext} {rest : List Pid} (h : s.LockInv)
    (hrest : ∀ p ∈ rest, p ∈ s.readyQueue)
    (hnext : ∀ i, next ≠ s.currentProc → s.InAcquire next i →
      (s.fifoLock i).holder = some next)
    (hcontext : ∀ i, c = .kernelAcquire i → s.currentProc ∉ rest ∧ next ≠ s.currentProc ∧
      ∀ a, s.pcb next = some a → a.kernelContextInitialized = true) :
    ((({ s with readyQueue := rest } : Sched)).switchToProc next c).LockInv := by
  let s₁ : Sched := { s with readyQueue := rest }
  have hs₁ : SameBut .other s s₁ := (SameBut.refl .other s).keep rfl
  have hsame : SameLocks s (s₁.switchToProc next c) := (hs₁.switchToProc next c).locks (by simp)
  exact {
    owned := fun p i => by rw [hsame.owned, hsame.fifoLock, h.owned]
    exited := fun p i hp => by
      rw [hsame.fifoLock]
      rw [switchToProc_exited] at hp
      exact h.exited p i hp
    granted := fun p i hcur hready hctx => by
      rw [switchToProc_readyQueue] at hready
      rw [switchToProc_currentProc] at hcur
      rw [hsame.fifoLock]
      rcases InAcquire.of_switchToProc hctx with ⟨hctx, hne⟩ | ⟨hc, hp⟩
      · exact h.granted p i hne (hrest p hready) hctx
      · rcases hp with rfl | ⟨rfl, -⟩
        · exact absurd hready (hcontext i hc).1
        · exact absurd rfl hcur
    resuming := fun i _ hctx => by
      rw [switchToProc_currentProc] at hctx ⊢
      rw [hsame.fifoLock]
      rcases InAcquire.of_switchToProc hctx with ⟨hctx, hne⟩ | ⟨hc, hp⟩
      · exact hnext i hne hctx
      · obtain ⟨-, hne, hinit⟩ := hcontext i hc
        rcases hp with hp | ⟨-, a, ha, hnot⟩
        · exact absurd hp hne
        · cases ((hinit a ha).symm.trans hnot)
    fifo := fun i => by rw [hsame.lockEvents, hsame.fifoLock, h.fifo] }

/-- `SwitchToNextProc`. A process that waits for a lock is not in the ready queue. -/
theorem LockInv.switch {c : KernelContext} (h : s.LockInv) (hset : s.Settled parked)
    (hcontext : ∀ i, c = .kernelAcquire i →
      s.currentProc ∉ s.readyQueue ∧ s.currentProc ≠ IDLE_PID) :
    (s.switchToNextProc c).LockInv := by
  unfold switchToNextProc
  cases hq : s.readyQueue with
  | nil =>
      have hs : s = { s with readyQueue := [] } := by rw [← hq]
      dsimp only
      rw [hs]
      refine h.switchToProc (fun p hp => by cases hp) (fun i _ hctx => ?_) fun i hc => ?_
      · obtain ⟨a, ha, hctx⟩ := hctx
        cases ((hset.idleContext a ha).2.symm.trans hctx)
      · exact ⟨fun hp => (by cases hp), (hcontext i hc).2.symm, fun a ha => (hset.idleContext a ha).1⟩
  | cons next rest =>
      have hnext : next ∈ s.readyQueue := hq ▸ List.mem_cons_self
      refine h.switchToProc (fun p hp => hq ▸ List.mem_cons_of_mem _ hp)
        (fun i hne hctx => h.granted next i hne hnext hctx) fun i hc => ?_
      obtain ⟨hcur, hidle⟩ := hcontext i hc
      refine ⟨fun hp => hcur (hq ▸ List.mem_cons_of_mem _ hp), fun e => hcur (e ▸ hnext), ?_⟩
      intro a ha
      by_contra hinit
      exact hidle (hset.started next a ha (by simpa using hinit)).1

/-- A system call that blocks, but not for a lock. -/
theorem LockInv.block {q : Queue} {c : KernelContext} (h : s.LockInv) (hset : s.Running)
    (hcur : s.currentProc ≠ IDLE_PID) (hl : SameLives s s')
    (hin : Adds q s.currentProc s.occ s'.occ) (hs : SameLocks s s')
    (hcontext : ∀ i, c ≠ .kernelAcquire i) : (s'.switchToNextProc c).LockInv := by
  have hparked := hset.park hcur hl hin
  exact (h.same hset hparked hl hs).switch hparked fun i hc => absurd hc (hcontext i)

/-! ## The operations on a lock -/

/-- An operation on one lock that the `FifoLock` allows keeps its events a run. -/
theorem LockInv.fifo_step {lockId : Nat} {e : LockEvent Pid} {l' : FifoLock Pid} (h : s.LockInv)
    (hstep : (s.fifoLock lockId).step e = some l')
    (hfifo : ∀ i, s'.fifoLock i = if i = lockId then l' else s.fifoLock i)
    (hevents : ∀ i, s'.lockEvents i = s.lockEvents i ++ if i = lockId then [e] else []) (i : Nat) :
    FifoLock.run {} (s'.lockEvents i) = some (s'.fifoLock i) := by
  rw [hevents, hfifo]
  by_cases hi : i = lockId
  · rw [if_pos hi, if_pos hi, hi, FifoLock.run_concat (h.fifo lockId), hstep]
  · rw [if_neg hi, if_neg hi, List.append_nil, h.fifo]

/-- A process that comes back from acquiring a lock that it holds. -/
theorem LockInv.returned {lockId : Nat} (h : s.LockInv)
    (hholder : (s.fifoLock lockId).holder = some s.currentProc) :
    (s.observe (.lockReturned lockId s.currentProc)).toUser.LockInv := by
  have hl : SameLives s (s.observe (.lockReturned lockId s.currentProc)).toUser :=
    ((SameLives.refl s).observe (by intro; rfl)).toUser
  refine {
    owned := h.owned
    exited := fun p i hp => h.exited p i (by rwa [hl.exited] at hp)
    granted := h.granted
    resuming := fun i hmode => by cases hmode
    fifo := h.fifo_step (e := .returned s.currentProc)
      (?_ : (s.fifoLock lockId).step _ = some (s.fifoLock lockId)) (fun i => ?_) fun i => ?_ }
  · simp [FifoLock.step, hholder]
  · by_cases hi : i = lockId
    · rw [if_pos hi, hi]
      rfl
    · rw [if_neg hi]
      rfl
  · rw [show (s.observe (.lockReturned lockId s.currentProc)).toUser.lockEvents i
      = (s.observe (.lockReturned lockId s.currentProc)).lockEvents i from rfl,
      lockEvents_observe]
    by_cases hi : i = lockId
    · simp [Obs.lockEvent, hi]
    · simp [Obs.lockEvent, hi, Ne.symm hi]

/-- The current process has a PCB. -/
theorem Settled.current_pcb (h : s.Running) : ∃ a, s.pcb s.currentProc = some a :=
  Option.isSome_iff_exists.mp (Bool.and_eq_true _ _ ▸ h.current.resolve_left id).1

/-- A process gets a lock into its list. -/
theorem owned_append {p r : Pid} {a : PCB} {lockId : Nat} (ha : s.pcb r = some a) :
    (s.updPcb r fun a => { a with ownedLockIds := a.ownedLockIds ++ [lockId] }).owned p
      = if p = r then s.owned p ++ [lockId] else s.owned p := by
  rw [owned_updPcb, Sched.owned]
  by_cases hp : p = r
  · simp [hp, ha]
  · simp [hp]

/-- The current process takes a lock off its list. -/
theorem owned_disown {p : Pid} {lockId : Nat} :
    (s.disown lockId).owned p
      = if p = s.currentProc then (s.owned p).erase lockId else s.owned p := by
  rw [disown, updCurrent, owned_updPcb, Sched.owned]
  by_cases hp : p = s.currentProc
  · cases ha : s.pcb p <;> simp [hp]
  · simp [hp]

theorem not_exited_of_live {p : Pid} (h : s.live p = true) : ¬ s.exited p = true := by
  rw [live, Bool.and_eq_true] at h
  simpa using h.2

/-- `KernelAcquire` on an available lock: nobody can be waiting for it. -/
theorem LockInv.takeLock {lockId : Nat} {l : Lock} (h : s.LockInv) (hset : s.Running)
    (hl : s.lock lockId = some l) (hfree : l.acquired = false) :
    (s.takeLock lockId).toUser.LockInv := by
  have hlives : SameLives s (s.takeLock lockId).toUser := (takeLock_sameLives s lockId).toUser
  have hfifo : ∀ i, (s.takeLock lockId).toUser.fifoLock i
      = if i = lockId then { holder := some s.currentProc } else s.fifoLock i := by
    have hqueue : l.waitingProcs = [] := by
      by_contra hne
      have hwf := (h.wellFormed lockId).waiting
      rw [fifoLock_of_lock hl] at hwf
      exact hwf hne (by simp [Lock.toFifo, hfree])
    intro i
    have hupd := fifoLock_updLock (j := i)
      (f := fun l => { l with acquired := true, ownerId := s.currentProc }) hl
    rw [show (s.takeLock lockId).toUser.fifoLock i = (s.updLock lockId fun l =>
      { l with acquired := true, ownerId := s.currentProc }).fifoLock i from rfl, hupd]
    simp [Lock.toFifo, hqueue]
  have hnone : (s.fifoLock lockId).holder = none := by
    simp [fifoLock_of_lock hl, Lock.toFifo, hfree]
  -- Only a held lock is waited for.
  have hempty : (s.fifoLock lockId).queue = [] := by
    by_contra hne
    exact (h.wellFormed lockId).waiting hne hnone
  obtain ⟨a, ha⟩ := hset.current_pcb
  have howned : ∀ p, (s.takeLock lockId).toUser.owned p
      = if p = s.currentProc then s.owned p ++ [lockId] else s.owned p :=
    fun _ => owned_append ha
  refine {
    owned := fun p i => ?_
    exited := fun p i hp => ?_
    granted := fun p i hcur hready hctx => ?_
    resuming := fun i hmode => by cases hmode
    fifo := h.fifo_step (e := .take s.currentProc) ?_ hfifo fun i => ?_ }
  · have hcount := h.owned p i
    rw [howned, hfifo]
    by_cases hi : i = lockId
    · subst hi
      rw [hnone] at hcount
      by_cases hp : p = s.currentProc
      · rw [if_pos hp, List.count_append, hcount, hp]
        simp
      · rw [if_neg hp, hcount]
        simp [Ne.symm hp]
    · rw [if_neg hi, ← hcount]
      split
      · rw [List.count_append, List.count_singleton]
        simp [Ne.symm hi]
      · rfl
  · rw [hlives.exited] at hp
    rw [hfifo]
    split
    · rintro heq
      cases heq
      exact not_exited_of_live (hset.current.resolve_left id) hp
    · exact h.exited p i hp
  · have hholder := h.granted p i hcur hready (hlives.inAcquire hctx)
    rw [hfifo]
    split
    · rename_i hi
      subst hi
      cases (hnone.symm.trans hholder)
    · exact hholder
  · simp [FifoLock.step, hnone, hempty]
  · rw [show (s.takeLock lockId).toUser.lockEvents i = (Sched.observe _
      (.lockTaken lockId s.currentProc)).lockEvents i from rfl, lockEvents_observe]
    by_cases hi : i = lockId
    · simp [Obs.lockEvent, hi]
      rfl
    · simp [Obs.lockEvent, hi, Ne.symm hi]
      rfl

/-- The count of a lock in a list from which another lock, or this one, is taken. -/
theorem count_owned_erase (h : s.LockInv) {lockId i : Nat} {p : Pid}
    (hholder : (s.fifoLock lockId).holder = some s.currentProc) :
    (if p = s.currentProc then (s.owned p).erase lockId else s.owned p).count i
      = if i ≠ lockId ∧ (s.fifoLock i).holder = some p then 1 else 0 := by
  have hcount := h.owned p i
  by_cases hi : i = lockId
  · subst hi
    rw [hholder] at hcount
    by_cases hp : p = s.currentProc
    · rw [if_pos hp, List.count_erase_self, hcount]
      simp [hp]
    · rw [if_neg hp, hcount]
      simp [Ne.symm hp]
  · by_cases hp : p = s.currentProc
    · rw [if_pos hp, List.count_erase_of_ne hi, hcount]
      simp [hi]
    · rw [if_neg hp, hcount]
      simp [hi]

/-- `KernelRelease` on a lock that nobody waits for. -/
theorem LockInv.makeAvailable {lockId : Nat} {l : Lock} (h : s.LockInv)
    (hl : s.lock lockId = some l) (hacquired : l.acquired = true)
    (howner : l.ownerId = s.currentProc) (hw : l.waitingProcs = [])
    (hnot : ∀ i, s.mode = .kernel → ¬ s.InAcquire s.currentProc i) :
    ((s.disown lockId).makeAvailable lockId).LockInv := by
  have hlives : SameLives s ((s.disown lockId).makeAvailable lockId) :=
    (disown_sameLives s lockId).trans (makeAvailable_sameLives _ lockId)
  have hholder : (s.fifoLock lockId).holder = some s.currentProc := by
    simp [fifoLock_of_lock hl, Lock.toFifo, hacquired, howner]
  have hfifo : ∀ i, ((s.disown lockId).makeAvailable lockId).fifoLock i
      = if i = lockId then {} else s.fifoLock i := by
    intro i
    have hupd := fifoLock_updLock (s := s.disown lockId) (j := i)
      (f := fun l => { l with acquired := false }) hl
    rw [show ((s.disown lockId).makeAvailable lockId).fifoLock i = ((s.disown lockId).updLock
      lockId fun l => { l with acquired := false }).fifoLock i from rfl, hupd]
    simp only [Lock.toFifo, hw]
    rfl
  refine {
    owned := fun p i => ?_
    exited := fun p i hp => ?_
    granted := fun p i hcur hready hctx => ?_
    resuming := fun i hmode hctx => absurd (hlives.inAcquire hctx) (hnot i hmode)
    fifo := h.fifo_step (e := .free) ?_ hfifo fun i => ?_ }
  · rw [show ((s.disown lockId).makeAvailable lockId).owned p = (s.disown lockId).owned p from rfl,
      owned_disown, count_owned_erase h hholder, hfifo]
    by_cases hi : i = lockId <;> simp [hi]
  · rw [hlives.exited] at hp
    rw [hfifo]
    split
    · simp
    · exact h.exited p i hp
  · have hp := h.granted p i hcur hready (hlives.inAcquire hctx)
    rw [hfifo]
    split
    · rename_i hi
      rw [hi, hholder] at hp
      exact absurd (Option.some.inj hp).symm hcur
    · exact hp
  · rw [fifoLock_of_lock hl]
    simp [FifoLock.step, Lock.toFifo, hacquired, hw]
  · rw [Sched.makeAvailable, lockEvents_observe]
    by_cases hi : i = lockId
    · simp [Obs.lockEvent, hi]
      rfl
    · simp [Obs.lockEvent, hi, Ne.symm hi]
      rfl

/-- A process that waits for a lock is suspended in `KernelAcquire`. -/
theorem Settled.waits_inAcquire {lockId : Nat} {l : Lock} {p : Pid} (h : s.Settled parked)
    (hl : s.lock lockId = some l) (hp : p ∈ l.waitingProcs) (hcur : p ≠ s.currentProc) :
    ∃ a, s.pcb p = some a ∧ a.kernelContext = .kernelAcquire lockId := by
  have hocc : s.occ (.lock lockId) p ≠ 0 := by
    rw [occ_lock, fifoLock_of_lock hl]
    exact Nat.pos_iff_ne_zero.mp (List.count_pos_iff.mpr hp)
  exact h.suspended _ p (by simp) hocc hcur

/-- `KernelRelease` on a lock that others wait for: the first of them holds it. -/
theorem LockInv.handOver {lockId : Nat} {l : Lock} {proc : Pid} {rest : List Pid} (h : s.LockInv)
    (hset : s.Settled parked) (hl : s.lock lockId = some l) (hacquired : l.acquired = true)
    (howner : l.ownerId = s.currentProc) (hw : l.waitingProcs = proc :: rest)
    (hnot : ∀ i, s.mode = .kernel → ¬ s.InAcquire s.currentProc i) :
    ((s.disown lockId).handOver lockId proc rest).LockInv := by
  have hlives : SameLives s ((s.disown lockId).handOver lockId proc rest) :=
    (disown_sameLives s lockId).trans (handOver_sameLives _ _ _ _)
  have hholder : (s.fifoLock lockId).holder = some s.currentProc := by
    simp [fifoLock_of_lock hl, Lock.toFifo, hacquired, howner]
  have hproc : proc ∈ l.waitingProcs := hw ▸ List.mem_cons_self
  have hne : proc ≠ s.currentProc := by
    rintro rfl
    have hout := (h.wellFormed lockId).holder _ hholder
    rw [fifoLock_of_lock hl] at hout
    exact hout hproc
  obtain ⟨a, ha, hctx⟩ := hset.waits_inAcquire hl hproc hne
  -- A process that waits is alive.
  have hlive : ¬ s.exited proc = true := by
    have hocc : s.occ (.lock lockId) proc ≠ 0 := by
      rw [occ_lock, fifoLock_of_lock hl]
      exact Nat.pos_iff_ne_zero.mp (List.count_pos_iff.mpr hproc)
    exact not_exited_of_live (hset.placed.inside_of_occ hocc).1
  have hfifo : ∀ i, ((s.disown lockId).handOver lockId proc rest).fifoLock i
      = if i = lockId then { holder := some proc, queue := rest } else s.fifoLock i := by
    intro i
    have hupd := fifoLock_updLock (s := s.disown lockId) (j := i)
      (f := fun l => { l with waitingProcs := rest, ownerId := proc }) hl
    rw [show ((s.disown lockId).handOver lockId proc rest).fifoLock i = ((s.disown lockId).updLock
      lockId fun l => { l with waitingProcs := rest, ownerId := proc }).fifoLock i from rfl, hupd]
    simp only [Lock.toFifo, hacquired, if_true]
    rfl
  -- The id goes from the list of the current process to that of `proc`.
  have howned : ∀ p, ((s.disown lockId).handOver lockId proc rest).owned p
      = if p = proc then (s.disown lockId).owned p ++ [lockId] else (s.disown lockId).owned p := by
    intro p
    have ha' : (s.disown lockId).pcb proc = some a := by
      rw [disown, updCurrent, updPcb_pcb, ha, Option.map_some, if_neg hne]
    exact owned_append (s := (s.disown lockId).updLock lockId _) ha'
  refine {
    owned := fun p i => ?_
    exited := fun p i hp => ?_
    granted := fun p i hcur hready hctx' => ?_
    resuming := fun i hmode hctx => absurd (hlives.inAcquire hctx) (hnot i hmode)
    fifo := h.fifo_step (e := .grant proc) ?_ hfifo fun i => ?_ }
  · have hcount := count_owned_erase h (i := i) (p := p) hholder
    rw [← owned_disown] at hcount
    rw [howned, hfifo]
    by_cases hp : p = proc
    · rw [if_pos hp, List.count_append, hcount, List.count_singleton, hp]
      by_cases hi : i = lockId
      · simp [hi]
      · simp [hi, Ne.symm hi]
    · rw [if_neg hp, hcount]
      by_cases hi : i = lockId
      · simp [hi, Ne.symm hp]
      · simp [hi]
  · rw [hlives.exited] at hp
    rw [hfifo]
    split
    · rintro heq
      cases heq
      exact hlive hp
    · exact h.exited p i hp
  · have hctx' := hlives.inAcquire hctx'
    rw [hfifo]
    rcases List.mem_append.mp hready with hready | hready
    · have hp := h.granted p i hcur hready hctx'
      split
      · rename_i hi
        rw [hi, hholder] at hp
        exact absurd (Option.some.inj hp).symm hcur
      · exact hp
    · -- The process that is woken was suspended for this lock.
      cases List.mem_singleton.mp hready
      obtain ⟨a', ha', hctx'⟩ := hctx'
      rw [Option.some.inj (ha'.symm.trans ha), hctx] at hctx'
      cases hctx'
      rw [if_pos rfl]
  · rw [fifoLock_of_lock hl]
    simp [FifoLock.step, Lock.toFifo, hacquired, hw]
  · rw [Sched.handOver, lockEvents_observe]
    by_cases hi : i = lockId
    · simp [Obs.lockEvent, hi]
      rfl
    · simp [Obs.lockEvent, hi, Ne.symm hi]
      rfl

theorem LockInv.kernelRelease {lockId : Nat} {rc : Int} (h : s.LockInv) (hset : s.Settled parked)
    (hnot : ∀ i, s.mode = .kernel → ¬ s.InAcquire s.currentProc i)
    (hok : s.kernelRelease lockId = .ok (rc, s')) : s'.LockInv := by
  cases kernelRelease_cases hok with
  | error => exact h
  | available found acquired owner _ _ waiting =>
      exact h.makeAvailable (mem_of_findLock found).2 acquired owner waiting hnot
  | handOver found acquired owner _ _ waiting =>
      exact h.handOver hset (mem_of_findLock found).2 acquired owner waiting hnot

/-- `KernelAcquire` on a lock that another process holds. -/
theorem LockInv.acquireBlock {lockId : Nat} {l : Lock} (h : s.LockInv) (hset : s.Running)
    (hfound : s.findLock lockId = some l) (hacquired : l.acquired = true)
    (howner : l.ownerId ≠ s.currentProc) (hcur : s.currentProc ≠ IDLE_PID) :
    ((s.enqueueForLock lockId).switchToNextProc (.kernelAcquire lockId)).LockInv := by
  have hl := (mem_of_findLock hfound).2
  have hlives := enqueueForLock_sameLives s lockId
  have hparked := hset.park hcur hlives (adds_enqueueForLock hfound)
  have hqueue : s.currentProc ∉ l.waitingProcs := by
    have hocc : s.occ (.lock lockId) s.currentProc = 0 :=
      hset.placed.nowhere (fun hi => (hi.2.2.resolve_left id) rfl) _
    rw [occ_lock, fifoLock_of_lock hl] at hocc
    exact List.count_eq_zero.mp hocc
  have hready : s.currentProc ∉ s.readyQueue := fun hmem =>
    occ_ready_ne_zero.mpr hmem (hset.placed.nowhere (fun hi => (hi.2.2.resolve_left id) rfl) _)
  have hfifo : ∀ i, (s.enqueueForLock lockId).fifoLock i
      = if i = lockId then
          { holder := some l.ownerId, queue := l.waitingProcs ++ [s.currentProc] }
        else s.fifoLock i := by
    intro i
    have hupd := fifoLock_updLock (j := i)
      (f := fun l => { l with waitingProcs := l.waitingProcs ++ [s.currentProc] }) hl
    rw [show (s.enqueueForLock lockId).fifoLock i = (s.updLock lockId fun l =>
      { l with waitingProcs := l.waitingProcs ++ [s.currentProc] }).fifoLock i from rfl, hupd]
    simp only [Lock.toFifo, hacquired, if_true]
  -- Blocking changes the queue of the lock, not its holder.
  have hholder : ∀ i, ((s.enqueueForLock lockId).fifoLock i).holder = (s.fifoLock i).holder := by
    intro i
    rw [hfifo]
    split
    · rename_i hi
      rw [hi, fifoLock_of_lock hl]
      simp [Lock.toFifo, hacquired]
    · rfl
  have hinv : (s.enqueueForLock lockId).LockInv := {
    owned := fun p i => by
      rw [hholder]
      exact h.owned p i
    exited := fun p i hp => by
      rw [hholder]
      exact h.exited p i (by rwa [hlives.exited] at hp)
    granted := fun p i hp hmem hctx => by
      rw [hholder]
      exact h.granted p i hp hmem hctx
    resuming := fun i hmode hctx => by
      rw [hholder]
      exact h.resuming i hmode hctx
    fifo := by
      refine h.fifo_step (e := .block s.currentProc) ?_ hfifo fun i => ?_
      · rw [fifoLock_of_lock hl]
        simp [FifoLock.step, Lock.toFifo, hacquired, howner, hqueue]
      · rw [Sched.enqueueForLock, lockEvents_observe]
        by_cases hi : i = lockId
        · simp [Obs.lockEvent, hi]
          exact ⟨rfl, rfl⟩
        · simp [Obs.lockEvent, hi, Ne.symm hi]
          rfl }
  exact hinv.switch hparked fun _ _ => ⟨hready, hcur⟩

/-! ## Exit, fork and wait -/

/-- At the end of its loop, `KernelExit` has released every lock of the process. -/
theorem releaseOwnedLocks_owned {fuel : Nat} (h : s.releaseOwnedLocks fuel = .ok s') :
    s'.owned s'.currentProc = [] := by
  have hnil : ∀ {s₁ : Sched}, (∀ i rest, (s₁.pcb s₁.currentProc).map PCB.ownedLockIds
      ≠ some (i :: rest)) → s₁.owned s₁.currentProc = [] := by
    intro s₁ hne
    rw [owned]
    cases hmap : (s₁.pcb s₁.currentProc).map PCB.ownedLockIds with
    | none => rfl
    | some ids =>
        cases ids with
        | nil => rfl
        | cons i rest => exact absurd hmap (hne i rest)
  induction fuel generalizing s with
  | zero =>
      unfold releaseOwnedLocks at h
      split at h
      · cases h
      · rename_i hne
        cases h
        exact hnil hne
  | succ fuel ih =>
      unfold releaseOwnedLocks at h
      split at h
      · obtain ⟨⟨rc, s₁⟩, -, hrest⟩ := bind_eq_ok.mp h
        exact ih hrest
      · rename_i hne
        cases h
        exact hnil hne

theorem leaveFamily_mode (s : Sched) (status : Int) : (s.leaveFamily status).mode = s.mode := by
  unfold leaveFamily
  split
  · rfl
  · dsimp only
    split
    · rfl
    · unfold becomeZombie
      dsimp only
      split <;> rfl

theorem exited_of_leaveFamily {status : Int} {p : Pid}
    (h : (s.leaveFamily status).exited p = true) : s.exited p = true ∨ p = s.currentProc := by
  have hobserve : ∀ {s₁ : Sched}, s₁.history = s.history →
      (s₁.observe (.exited s.currentProc status)).exited p = true →
      s.exited p = true ∨ p = s.currentProc := by
    intro s₁ hhistory hex
    rw [exited_observe_exited, Bool.or_eq_true, beq_iff_eq, Sched.exited, hhistory] at hex
    exact hex.imp id Eq.symm
  unfold leaveFamily at h
  split at h
  · exact .inl h
  · dsimp only at h
    split at h
    · exact hobserve rfl h
    · unfold becomeZombie at h
      dsimp only at h
      split at h
      · exact hobserve rfl h
      · exact hobserve rfl h

/-- The PCBs that `KernelExit` frees are those of processes that have exited. -/
theorem pcb_of_leaveFamily_none {status : Int} {p : Pid} (hset : s.Settled parked)
    (h : (s.leaveFamily status).pcb p = none) :
    s.pcb p = none ∨ s.exited p = true ∨ p = s.currentProc := by
  unfold leaveFamily at h
  split at h
  · exact .inl h
  rename_i pcb hpcb
  have habandon : (s.abandonChildren pcb).pcb p = none → s.pcb p = none ∨ s.exited p = true := by
    intro hnone
    simp only [abandonChildren] at hnone
    split at hnone
    · exact .inr (hset.zombies _ _ hpcb p ‹_›)
    · split at hnone
      · exact .inl (by simpa using hnone)
      · exact .inl hnone
  have hmid : ∀ f : PCB → PCB, ((s.abandonChildren pcb).updCurrent f).pcb p = none →
      s.pcb p = none ∨ s.exited p = true ∨ p = s.currentProc := by
    intro f hnone
    rw [updCurrent, updPcb_pcb, Option.map_eq_none_iff] at hnone
    exact (habandon hnone).imp id .inl
  dsimp only at h
  split at h
  · simp only [freePcb] at h
    split at h
    · exact .inr (.inr ‹_›)
    · exact hmid _ h
  · unfold becomeZombie at h
    dsimp only at h
    split at h
    · simp only [Sched.ready, updPcb_pcb, Option.map_eq_none_iff] at h
      exact hmid _ h
    · rw [updPcb_pcb, Option.map_eq_none_iff] at h
      exact hmid _ h

/-- `KernelExit`, with the switch at its end. -/
theorem LockInv.kernelExit {status : Int} (h : s.LockInv) (hset : s.Running)
    (hcur : s.currentProc ≠ IDLE_PID)
    (hnot : ∀ i, s.mode = .kernel → ¬ s.InAcquire s.currentProc i)
    (hok : s.kernelExit status = .ok s') : (s'.switchToNextProc .kernelExit).LockInv := by
  unfold Sched.kernelExit at hok
  rcases ite_eq_ok hok with ⟨-, hok⟩ | ⟨-, hok⟩
  · cases hok
  obtain ⟨s₁, hrelease, hret⟩ := bind_eq_ok.mp hok
  cases hret
  have hnot₁ : ∀ {s₁ : Sched}, SameLives s s₁ →
      ∀ i, s₁.mode = .kernel → ¬ s₁.InAcquire s₁.currentProc i := by
    intro s₁ hl i hmode hctx
    have hctx := hl.inAcquire hctx
    rw [hl.currentProc] at hctx
    exact hnot i (hl.kernelMode hmode) hctx
  obtain ⟨h₁, hset₁, hl₁⟩ := releaseOwnedLocks_rule
    (P := fun s₁ => s₁.LockInv ∧ s₁.Running ∧ SameLives s s₁)
    (fun _ _ _ _ hP hr => ⟨hP.1.kernelRelease hP.2.1 (hnot₁ hP.2.2) hr,
      (hP.2.1.kernelRelease hr).1, hP.2.2.trans (hP.2.1.kernelRelease hr).2⟩)
    ⟨h, hset, .refl s⟩ hrelease
  have hcur₁ : s₁.currentProc ≠ IDLE_PID := by rwa [hl₁.currentProc]
  have hempty := releaseOwnedLocks_owned hrelease
  obtain ⟨hparked, -, hcur₂⟩ := hset₁.leaveFamily hcur₁ status
  obtain ⟨-, -, hlock, -, hevents⟩ := leaveFamily_keeps s₁ status
  have hcores := leaveFamily_sameCores s₁ status
  have hctx : ∀ {p i}, (s₁.leaveFamily status).InAcquire p i → s₁.InAcquire p i := by
    rintro p i ⟨a', ha', hctx⟩
    obtain ⟨a, ha, hcore⟩ := hcores p a' ha'
    exact ⟨a, ha, (congrArg (fun c => c.1.2) hcore).trans hctx⟩
  have hsame : SameLocks s₁ (s₁.leaveFamily status) := {
    fifoLock := fun i => by rw [Sched.fifoLock, hlock, Sched.fifoLock]
    lockEvents := fun i => by rw [Sched.lockEvents, hevents .locks (by simp), Sched.lockEvents]
    owned := fun p => by
      cases ha' : (s₁.leaveFamily status).pcb p with
      | some a' =>
          obtain ⟨a, ha, hcore⟩ := hcores p a' ha'
          have howned : a.ownedLockIds = a'.ownedLockIds := congrArg (fun c => c.2.1) hcore
          simp [Sched.owned, ha', ha, howned]
      | none =>
          -- Who is freed has exited, and owns nothing.
          have hnil : s₁.owned p = [] := by
            rcases pcb_of_leaveFamily_none hset₁ ha' with hp | hp | hp
            · simp [Sched.owned, hp]
            · refine List.eq_nil_iff_forall_not_mem.mpr fun i hi => ?_
              have hcount := h₁.owned p i
              rw [if_neg (h₁.exited p i hp)] at hcount
              exact List.count_eq_zero.mp hcount hi
            · rw [hp, hempty]
          rw [hnil]
          simp [Sched.owned, ha'] }
  have h₂ : (s₁.leaveFamily status).LockInv := by
    refine h₁.frame hsame (fun p hp => ?_) (fun p i hp hready hp' => ?_) fun i hmode hp' => ?_
    · rcases exited_of_leaveFamily hp with hp | rfl
      · exact .inl hp
      · exact .inr hempty
    · rw [hcur₂] at hp
      refine ⟨hp, ?_, hctx hp'⟩
      rcases hset₁.dequeued hparked live_of_leaveFamily hp hready (hctx hp') with
        hready | ⟨hin, hout⟩
      · exact hready
      · rw [hsame.fifoLock] at hout
        exact absurd hin hout
    · rw [leaveFamily_mode] at hmode
      rw [hcur₂] at hp'
      exact absurd (hctx hp') (hnot₁ hl₁ i hmode)
  exact h₂.switch hparked fun i hc => by cases hc

/-- A process that has exited owns nothing. -/
theorem LockInv.owned_exited {p : Pid} (h : s.LockInv) (hp : s.exited p = true) :
    s.owned p = [] := by
  refine List.eq_nil_iff_forall_not_mem.mpr fun i hi => ?_
  have hcount := h.owned p i
  rw [if_neg (h.exited p i hp)] at hcount
  exact List.count_eq_zero.mp hcount hi

/-- `KernelWait` frees a child that has exited. -/
theorem LockInv.collect {pcb : PCB} {child : Pid} {rest : List Pid} {status : Int}
    (h : s.LockInv) (hset : s.Running) (hcurrent : s.pcb s.currentProc = some pcb)
    (hz : pcb.zombieChildren = child :: rest) :
    (((s.updCurrent fun p => { p with zombieChildren := rest }).freePcb child).observe
      (.waited s.currentProc child status)).toUser.LockInv := by
  have hexited := hset.zombies _ _ hcurrent child (hz ▸ List.mem_cons_self)
  have hpcb : ∀ p, (((s.updCurrent fun p => { p with zombieChildren := rest }).freePcb
      child).observe (.waited s.currentProc child status)).toUser.pcb p =
        if p = child then none else (s.pcb p).map fun a =>
          if p = s.currentProc then { a with zombieChildren := rest } else a := by
    intro p
    simp only [toUser, observe, freePcb, updCurrent, updPcb_pcb]
  refine h.frame { fifoLock := fun _ => rfl, owned := fun p => ?_, lockEvents := fun i => ?_ }
    (fun p hp => .inl ?_) (fun p i hp hready hctx => ⟨hp, hready, ?_⟩) fun i hmode => by cases hmode
  · rw [Sched.owned, hpcb]
    by_cases hp : p = child
    · rw [if_pos hp, hp, h.owned_exited hexited]
      rfl
    · rw [if_neg hp, Sched.owned]
      cases s.pcb p with
      | none => rfl
      | some a => by_cases hpc : p = s.currentProc <;> simp [hpc]
  · have hobserve := lockEvents_observe (i := i) (o := .waited s.currentProc child status)
      (s := (s.updCurrent fun p => { p with zombieChildren := rest }).freePcb child)
    rw [show (Obs.waited s.currentProc child status).lockEvent i = none from rfl] at hobserve
    exact hobserve.trans (List.append_nil _)
  · simpa [Sched.exited, toUser, observe, freePcb, updCurrent, Sched.updPcb, Obs.isExitOf] using hp
  · obtain ⟨a', ha', hctx⟩ := hctx
    rw [hpcb] at ha'
    split at ha'
    · cases ha'
    · obtain ⟨a, ha, rfl⟩ := Option.map_eq_some_iff.mp ha'
      refine ⟨a, ha, ?_⟩
      split at hctx <;> exact hctx

/-- `KernelFork` switches to the child. -/
theorem LockInv.fork {child : Pid} (h : s.LockInv) (hset : s.Running)
    (hchild : child = s.nextPid) :
    (((({ s with nextPid := s.nextPid + 1 } : Sched).addChild child).ready
      s.currentProc).switchToProc child (.kernelFork child)).LockInv := by
  subst hchild
  have hnone := hset.nextPid_pcb
  let s₁ := (({ s with nextPid := s.nextPid + 1 } : Sched).addChild s.nextPid).ready s.currentProc
  have hpcb : ∀ p, s₁.pcb p = (if p = s.nextPid then some { liveParent := some s.currentProc }
      else s.pcb p).map fun a => if p = s.currentProc then
        { a with liveChildren := a.liveChildren ++ [s.nextPid] } else a := by
    intro p
    simp only [s₁, Sched.ready, addChild, Sched.observe, updCurrent, updPcb_pcb]
  have hctx : ∀ {p i}, s₁.InAcquire p i → p ≠ s.nextPid ∧ s.InAcquire p i := by
    rintro p i ⟨a', ha', hctx⟩
    rw [hpcb] at ha'
    obtain ⟨a, ha, rfl⟩ := Option.map_eq_some_iff.mp ha'
    split at ha
    · cases ha
      split at hctx <;> cases hctx
    · rename_i hp
      refine ⟨hp, a, ha, ?_⟩
      split at hctx <;> exact hctx
  have h₁ : s₁.LockInv := by
    have hexited : ∀ p, s₁.exited p = s.exited p := fun p => exited_addChild
    refine h.frame ((addChild_sameBut hset).ready _ |>.locks (by simp))
      (fun p hp => .inl (hexited p ▸ hp))
      (fun p i hp hready hp' => ⟨hp, ?_, (hctx hp').2⟩) fun i hmode hp => ⟨hmode, rfl, (hctx hp).2⟩
    rcases List.mem_append.mp hready with hready | hready
    · exact hready
    · exact absurd (List.mem_singleton.mp hready) hp
  exact h₁.switchToProc (fun _ hp => hp)
    (fun i _ hp => absurd rfl (hctx hp).1) fun i hc => by cases hc

end

/-! ## Runs -/

section
variable {s : Sched}

/-- A process that resumes in some other context is not in `KernelAcquire`. -/
theorem ResumesIn.not_inAcquire {c : KernelContext} (h : s.ResumesIn c)
    (hc : ∀ i, c ≠ .kernelAcquire i) (i : Nat) : ¬ s.InAcquire s.currentProc i := by
  rintro ⟨a, ha, hctx⟩
  have hresumes := h.2
  rw [ha, Option.getD_some, hctx] at hresumes
  exact hc i hresumes.symm

theorem Calls.not_inAcquire (h : s.Calls) (i : Nat) (hmode : s.mode = .kernel) :
    ¬ s.InAcquire s.currentProc i :=
  by cases h.1.symm.trans hmode

theorem TransmitContext.ne_kernelAcquire {c : KernelContext} (h : TransmitContext c) (i : Nat) :
    c ≠ .kernelAcquire i := by
  cases h <;> simp

end

end Sched

open Sched

/-- Every step keeps the locks in order. -/
theorem SchedStep.lockInv {c : Cause} {s s' : Sched} (h : s.LockInv) (hrun : s.Running) (hobj : s.Objects)
    (hstep : SchedStep s c s') : s'.LockInv := by
  have hrun' := hstep.running hrun hobj
  have hl := SameLives.refl s
  have hs : ∀ part, SameBut part s s := fun part => .refl part s
  cases hstep with
  | quiet => exact h
  | finish _ _ => exact h.same hrun hrun' hl.toUser ((hs .other).toUser.locks (by simp))
  | forkFailed calls =>
      have hsame : SameBut .other s ({ s with nextPid := s.nextPid + 1 } : Sched).toUser :=
        (hs .other).keep rfl
      exact h.frame (hsame.locks (by simp)) (fun _ hp => .inl hp)
        (fun _ _ hp hready hctx => ⟨hp, hready, hctx⟩) fun _ hmode => by cases hmode
  | fork calls => exact h.fork hrun rfl
  | exit entry run =>
      have hcur : s.currentProc ≠ IDLE_PID := entry.elim And.right (hrun.ne_idle · (by simp))
      refine h.kernelExit hrun hcur (fun i hmode => ?_) run
      rcases entry with calls | entry
      · exact calls.not_inAcquire i hmode
      · exact entry.not_inAcquire (fun _ => by simp) i
  | collect _ current zombies _ => exact h.collect hrun current zombies
  | wait calls current _ _ =>
      have hnot := hrun.placed.nowhere (a := s.currentProc)
        (fun hi => (hi.2.2.resolve_left id) rfl) .wait
      have hflag : ‹PCB›.waitingOnChildren = false := by
        simpa [occ, current] using hnot
      exact h.block hrun calls.2 (hl.updPcb (by intro; rfl) (by intro; rfl)) (adds_wait_in current hflag rfl)
        (((hs .other).updRest (by intro; rfl) (by intro; rfl) (by intro; rfl)).locks (by simp)) fun _ => by simp
  | delay calls _ =>
      exact h.block hrun calls.2 (enqueueForClock_sameLives _ _) (adds_enqueueForClock _)
        ((enqueueForClock_sameBut _ _).locks (by simp)) fun _ => by simp
  | clock _ _ run =>
      obtain ⟨hparked, hl₁⟩ := hrun.trapClock run
      exact (h.same hrun hparked hl₁ ((trapClock_sameBut run).locks (by simp))).switch hparked
        fun _ hc => by cases hc
  | consumeLine _ _ _ _ =>
      exact h.same hrun hrun' ((hl.updTty _ _).observe (by intro; rfl)).toUser
        ((((hs .ttyInput).updInput _ (by intro; rfl)).observe (by exact .inl rfl)).toUser.locks (by simp))
  | ttyReadBlock _ calls _ =>
      exact h.block hrun calls.2 (enqueueToReceive_sameLives _ _ _) (adds_enqueueToReceive _ _)
        ((enqueueToReceive_sameBut _ _ _).locks (by simp)) fun _ => by simp
  | ttyReceive _ _ run =>
      exact h.same hrun hrun' (hrun.trapTtyRecieve run).2
        ((trapTtyRecieve_sameBut run).locks (by simp))
  | ttyWrite calls transmits =>
      exact h.block hrun calls.2 (enqueueToTransmit_sameLives _ _ _) (adds_enqueueToTransmit _ _)
        ((enqueueToTransmit_sameBut _ _ _).locks (by simp)) transmits.ne_kernelAcquire
  | ttyTransmit _ _ run =>
      exact h.same hrun hrun' (hrun.trapTtyTransmit run).2
        ((trapTtyTransmit_sameBut run).locks (by simp))
  | pipeInit _ =>
      refine h.same hrun hrun' (pipeNewPipe_sameLives s).toUser ?_
      have hsame : SameBut .pipes s s.pipeNewPipe :=
        { hs .pipes with pipe := fun hp => absurd rfl hp }
      exact hsame.toUser.locks (by simp)
  | lockInit _ =>
      refine h.same hrun hrun' (lockNewLock_sameLives s).toUser
        { fifoLock := fun i => ?_, owned := fun _ => rfl, lockEvents := fun _ => rfl }
      -- A new lock is available, as the lock that did not exist was.
      by_cases hi : i = s.nextSynchResourceId
      · simp [fifoLock, toUser, lockNewLock, hi, hobj.lockFresh _ (Nat.le_refl _), Lock.toFifo]
      · simp [fifoLock, toUser, lockNewLock, hi]
  | cvarInit _ =>
      have hsame : SameBut .other s s.cVarNewCVar.toUser := (hs .other).keep rfl
      exact h.same hrun hrun' (cVarNewCVar_sameLives s).toUser (hsame.locks (by simp))
  | pipeReadBlock reads pipe _ =>
      exact h.block hrun (hrun.ne_idle_of_readsPipe reads) (hl.updPipe _ _)
        (adds_pipe_in pipe rfl) (((hs .pipes).updPipe _ _).locks (by simp)) fun _ => by simp
  | pipeRead _ _ _ =>
      exact h.same hrun hrun' ((hl.updPipe _ _).observe (by intro; rfl)).toUser
        ((((hs .pipes).updPipe _ _).observe (by exact .inl rfl)).toUser.locks (by simp))
  | pipeWrite _ _ pipe run =>
      exact h.same hrun hrun'
        (hrun.afterPipeWrite (mem_of_findPipe pipe).2 (Pipe.write_waitingToRead run) _).2.toUser
        ((afterPipeWrite_sameBut _ _ _ _).toUser.locks (by simp))
  | acquireOwned _ found acquired owner =>
      refine h.returned ?_
      rw [fifoLock_of_lock (mem_of_findLock found).2]
      simp [Lock.toFifo, acquired, owner]
  | @acquireFree lockId lock acquires found free =>
      have htaken := h.takeLock hrun (mem_of_findLock found).2 free
      have hholder : ((s.takeLock lockId).toUser.fifoLock lockId).holder
          = some (s.takeLock lockId).toUser.currentProc := by
        have hupd := fifoLock_updLock (j := lockId)
          (f := fun l => { l with acquired := true, ownerId := s.currentProc })
          (mem_of_findLock found).2
        rw [show (s.takeLock lockId).toUser.fifoLock lockId = (s.updLock lockId fun l =>
          { l with acquired := true, ownerId := s.currentProc }).fifoLock lockId from rfl, hupd]
        simp [Lock.toFifo]
        rfl
      exact htaken.returned hholder
  | acquireBlock acquires found acquired owner =>
      exact h.acquireBlock hrun found acquired owner (hrun.ne_idle_of_acquires acquires)
  | acquireMissing _ _ => exact h.same hrun hrun' hl.toUser ((hs .other).toUser.locks (by simp))
  | acquireReturn _ found owner acquired =>
      refine h.returned ?_
      rw [fifoLock_of_lock found]
      simp [Lock.toFifo, acquired, owner]
  | release calls run =>
      obtain ⟨hset₁, -⟩ := hrun.kernelRelease run
      exact (h.kernelRelease hrun calls.not_inAcquire run).same hset₁ hrun'
        (SameLives.refl _).toUser ((SameBut.refl .other _).toUser.locks (by simp))
  | cvarSignal _ =>
      exact h.same hrun hrun' (hrun.kernelCvarSignal _).2.toUser
        ((kernelCvarSignal_sameBut _ _).toUser.locks (by simp))
  | cvarBroadcast _ =>
      exact h.same hrun hrun' (hrun.kernelCvarBroadcast _).2.toUser
        ((kernelCvarBroadcast_sameBut _ _).toUser.locks (by simp))
  | cvarWait calls found run _ =>
      obtain ⟨hset₁, hl₁⟩ := hrun.kernelRelease run
      have hcvar := (mem_of_findCvar found).2
      rw [← kernelRelease_cvar run] at hcvar
      exact (h.kernelRelease hrun calls.not_inAcquire run).block hset₁
        (hl₁.currentProc ▸ calls.2) ((SameLives.refl _).updCvar _ _)
        (adds_enqueueForCvar hcvar) (((SameBut.refl .other _).updCvar _ _).locks (by simp))
        fun _ => by simp
  | reclaim _ =>
      exact h.same hrun hrun' (kernelReclaim_keeps s _).1.toUser
        ((kernelReclaim_sameBut _ _).toUser.locks (by simp))

theorem bootSched_lockInv : Kernel.bootSched.LockInv := by
  refine ⟨fun p i => ?_, fun p i hp => ?_, fun p i _ _ hctx => ?_, fun i hmode => (by cases hmode),
    fun i => rfl⟩
  · simp only [owned, Kernel.bootSched]
    by_cases h₀ : p = IDLE_PID <;> by_cases h₁ : p = INIT_PID <;> simp [h₀, h₁, fifoLock]
  · simp [Sched.exited, Kernel.bootSched] at hp
  · obtain ⟨a, ha, hctx⟩ := hctx
    simp only [Kernel.bootSched] at ha
    split at ha
    · cases ha
      cases hctx
    · split at ha
      · cases ha
        cases hctx
      · cases ha

/-- In every state of every run the locks are in order. -/
theorem reachable_lockInv {b : BootImage} {k : Kernel} (h : Reachable b k) :
    k.toSched.Objects ∧ k.toSched.Running ∧ k.toSched.LockInv :=
  h.schedInvariant (I := fun s => s.Objects ∧ s.Running ∧ s.LockInv)
    ⟨bootSched_objects, bootSched_running, bootSched_lockInv⟩
    fun _ _ _ hinv hstep => ⟨hstep.objects hinv.1, hstep.running hinv.2.1 hinv.1,
      hstep.lockInv hinv.2.2 hinv.2.1 hinv.1⟩

end Theynix
