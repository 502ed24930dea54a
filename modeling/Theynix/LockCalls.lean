import Theynix.Locks

/-!
# `Theynix.LockCalls`: what `KernelAcquire` and `KernelCvarWait` promise

The invariant of `Theynix.Locks` in the terms of the kernel. `locks_exclusive_fifo` is the
result: mutual exclusion, hand-over in FIFO order, and success only for the holder.
-/

set_option autoImplicit false

namespace Theynix

open Theynix.Lib (FifoLock LockEvent bind_eq_ok ite_eq_ok)

open Sched

/-! ## What the lock calls promise -/

/-- The step runs `KernelAcquire` for the lock: for a system call, for a process that was
woken from the queue of the lock, or at the end of `KernelCvarWait`. -/
inductive RunsAcquire (k : Kernel) (lockId : Nat) : Event → Prop
  | call {uc : UserContext} {env : Env} (vector : uc.vector = TRAP_KERNEL)
      (code : uc.code = YALNIX_LOCK_ACQUIRE) (arg : uc.regs 0 = lockId) :
      RunsAcquire k lockId (.trap uc env)
  | woken (entry : k.toSched.ResumesIn (.kernelAcquire lockId)) : RunsAcquire k lockId .resume
  | signalled (entry : k.toSched.ResumesIn (.kernelCvarWait lockId)) :
      RunsAcquire k lockId .resume

/-- The process holds the lock. -/
def Sched.HoldsLock (s : Sched) (p : Pid) (lockId : Nat) : Prop :=
  ∃ l, s.lock lockId = some l ∧ l.acquired = true ∧ l.ownerId = p

theorem UserContext.setResult_error_ne (uc : UserContext) :
    (uc.setResult ERROR).regs 0 ≠ (0 : Nat) := by
  simp [UserContext.setResult, asUnsigned, ERROR]

theorem Kernel.trapKernel_acquire {k : Kernel} {env : Env}
    (code : k.userContext.code = YALNIX_LOCK_ACQUIRE) :
    k.trapKernel env = k.kernelAcquire (k.userContext.regs 0) := by
  unfold Kernel.trapKernel
  repeat rw [if_neg (by rw [code]; decide)]
  rw [if_pos code]

/-- `KernelAcquire` returns `SUCCESS` to the holder of the lock only. -/
theorem Kernel.kernelAcquire_success {k k' : Kernel} {lockId : Nat}
    (h : k.kernelAcquire lockId = .ok k') (hmode : k'.mode = .user)
    (hrc : k'.userContext.regs 0 = 0) :
    k'.currentProc = k.currentProc ∧ k'.toSched.HoldsLock k.currentProc lockId := by
  unfold Kernel.kernelAcquire at h
  split at h
  · cases h
    exact absurd hrc (UserContext.setResult_error_ne _)
  · rename_i lock hfound
    have hlock := (mem_of_findLock hfound).2
    rcases ite_eq_ok h with ⟨howned, h⟩ | ⟨-, h⟩
    · simp only [Bool.and_eq_true, beq_iff_eq] at howned
      cases h
      exact ⟨rfl, lock, hlock, howned.1, howned.2⟩
    rcases ite_eq_ok h with ⟨-, h⟩ | ⟨-, h⟩
    · cases h
      refine ⟨rfl, { lock with acquired := true, ownerId := k.currentProc }, ?_, rfl, rfl⟩
      simp [Kernel.ret, Kernel.withSched, observe, takeLock, updCurrent, Sched.updPcb,
        Sched.updLock, hlock]
    · have hmode' : k'.toSched.mode = .kernel := by
        rw [Kernel.switchToNextProc_sched h]
        unfold Sched.switchToNextProc
        split <;> rfl
      cases (hmode'.symm.trans hmode)

/-- A process that was woken from the queue of a lock holds it, so the assertions after the
switch in `KernelAcquire` hold. -/
theorem Kernel.kernelAcquireReturn_ok {k : Kernel} {lockId : Nat} (h : k.toSched.LockInv)
    (entry : k.toSched.ResumesIn (.kernelAcquire lockId)) :
    k.kernelAcquireReturn lockId
        = .ok ((k.withSched (k.toSched.observe (.lockReturned lockId k.currentProc))).ret SUCCESS) ∧
      k.toSched.HoldsLock k.currentProc lockId := by
  have hctx : k.toSched.InAcquire k.currentProc lockId := by
    cases ha : k.pcb k.currentProc with
    | none => simp [ResumesIn, ha] at entry
    | some a => exact ⟨a, ha, by simpa [ResumesIn, ha] using entry.2⟩
  have hholder := h.resuming lockId entry.1 hctx
  cases hlock : k.lock lockId with
  | none => simp [fifoLock, hlock] at hholder
  | some lock =>
      rw [fifoLock_of_lock hlock] at hholder
      have hacquired : lock.acquired = true := by
        by_contra hnot
        simp [Lock.toFifo, hnot] at hholder
      have howner : lock.ownerId = k.currentProc := by
        simpa [Lock.toFifo, hacquired] using hholder
      have howned : lockId ∈ k.currentPcb.ownedLockIds := by
        have hcount := h.owned k.currentProc lockId
        rw [fifoLock_of_lock hlock, if_pos (by simp [Lock.toFifo, hacquired, howner])] at hcount
        have hmem : lockId ∈ k.toSched.owned k.currentProc :=
          List.count_pos_iff.mp (by omega)
        obtain ⟨a, ha, -⟩ := hctx
        simpa [Kernel.currentPcb, owned, ha] using hmem
      refine ⟨?_, lock, hlock, hacquired, howner⟩
      simp [Kernel.kernelAcquireReturn, hlock, hacquired, howner, howned, cAssert]

theorem Step.holdsLock {k k' : Kernel} {e : Event} {lockId : Nat} (h : k.toSched.LockInv)
    (hruns : RunsAcquire k lockId e) (hstep : Step k e k') (hmode : k'.mode = .user)
    (hrc : k'.userContext.regs 0 = 0) :
    k'.currentProc = k.currentProc ∧ k'.toSched.HoldsLock k.currentProc lockId := by
  cases hruns with
  | call vector code arg =>
      cases hstep with
      | trap mode idle run =>
          rename_i uc env
          rw [Kernel.trap_call vector, Kernel.trapKernel_acquire code, arg] at run
          exact Kernel.kernelAcquire_success (k := { k with userContext := uc }) run hmode hrc
  | woken entry =>
      cases hstep with
      | resume _ run =>
          have hctx : k.restoreUserContext.currentPcb.kernelContext = .kernelAcquire lockId :=
            entry.2
          rw [Kernel.resume] at run
          dsimp only at run
          rw [hctx] at run
          obtain ⟨hok, hholds⟩ := Kernel.kernelAcquireReturn_ok (k := k.restoreUserContext) h entry
          cases hok.symm.trans run
          exact ⟨rfl, hholds⟩
  | signalled entry =>
      cases hstep with
      | resume _ run =>
          have hctx : k.restoreUserContext.currentPcb.kernelContext = .kernelCvarWait lockId :=
            entry.2
          rw [Kernel.resume] at run
          dsimp only at run
          rw [hctx] at run
          exact Kernel.kernelAcquire_success (k := k.restoreUserContext) run hmode hrc

/-- A lock of the table: its owner, and nobody else, has it in its list, and who waits for
it gets it in order. -/
theorem Sched.LockInv.lock {s : Sched} (h : s.LockInv) {lockId : Nat} {l : Lock}
    (hl : s.lock lockId = some l) :
    (l.acquired = true ↔ ∃ p, s.live p ∧ p = l.ownerId ∧ (s.owned p).count lockId = 1 ∧
      ∀ q, s.live q → lockId ∈ s.owned q → q = p) ∧
    (l.waitingProcs ≠ [] → l.acquired = true) ∧ l.waitingProcs.Nodup ∧
    l.ownerId ∉ l.waitingProcs := by
  have hwf := h.wellFormed lockId
  have howned := fun p => h.owned p lockId
  have hexited := fun p => h.exited p lockId
  rw [fifoLock_of_lock hl] at hwf
  simp only [fifoLock_of_lock hl] at howned hexited
  have hmem : ∀ q, lockId ∈ s.owned q → l.toFifo.holder = some q := by
    intro q hq
    by_contra hne
    have hcount := howned q
    rw [if_neg hne] at hcount
    exact List.count_eq_zero.mp hcount hq
  have hwaiting : l.waitingProcs ≠ [] → l.acquired = true := by
    intro hne
    by_contra hnot
    exact hwf.waiting hne (by simp [Lock.toFifo, hnot])
  refine ⟨⟨fun hacquired => ?_, fun hp => ?_⟩, hwaiting, hwf.nodup, fun hin => ?_⟩
  · have hholder : l.toFifo.holder = some l.ownerId := by simp [Lock.toFifo, hacquired]
    have hcount := howned l.ownerId
    rw [if_pos hholder] at hcount
    refine ⟨l.ownerId, ?_, rfl, hcount, fun q _ hq => ?_⟩
    · have hsome : (s.pcb l.ownerId).isSome := by
        cases hp : s.pcb l.ownerId with
        | none => simp [Sched.owned, hp] at hcount
        | some a => rfl
      have hnot : s.exited l.ownerId = false := by
        rw [Bool.eq_false_iff]
        exact fun he => hexited _ he hholder
      simp [Sched.live, hsome, hnot]
    · exact Option.some.inj ((hmem q hq).symm.trans hholder)
  · obtain ⟨p, -, -, hcount, -⟩ := hp
    have hholder := hmem p (List.count_pos_iff.mp (by omega))
    by_contra hnot
    simp [Lock.toFifo, hnot] at hholder
  · exact hwf.holder l.ownerId
      (by simp [Lock.toFifo, hwaiting (List.ne_nil_of_mem hin)]) hin

/-- Locks exclude each other's owners and are handed over in the order in which processes
started to wait, in every state of every run. -/
theorem locks_exclusive_fifo {b : BootImage} {k : Kernel} (h : Reachable b k) :
    (∀ lockId l, lockId ∈ k.locks → k.lock lockId = some l →
      (l.acquired = true ↔ ∃ p, k.live p ∧ p = l.ownerId ∧ (k.owned p).count lockId = 1 ∧
        ∀ q, k.live q → lockId ∈ k.owned q → q = p) ∧
      (l.waitingProcs ≠ [] → l.acquired = true) ∧ l.waitingProcs.Nodup ∧
      l.ownerId ∉ l.waitingProcs ∧
      FifoLock.run {} (k.lockEvents lockId) = some l.toFifo ∧
      FifoLock.blocks (k.lockEvents lockId)
        = FifoLock.grants (k.lockEvents lockId) ++ l.waitingProcs) ∧
    (∀ lockId, k.toSched.ResumesIn (.kernelAcquire lockId) → ∃ k', k.resume = .ok k') ∧
    ∀ lockId e k', RunsAcquire k lockId e → Step k e k' → k'.mode = .user →
      k'.userContext.regs 0 = 0 →
      k'.currentProc = k.currentProc ∧ k'.toSched.HoldsLock k.currentProc lockId := by
  obtain ⟨-, -, hinv⟩ := reachable_lockInv h
  refine ⟨fun lockId l _ hl => ?_, fun lockId entry => ?_, fun lockId e k' hruns hstep => ?_⟩
  · obtain ⟨hacquired, hwaiting, hnodup, howner⟩ := hinv.lock hl
    have hrun := hinv.fifo lockId
    rw [fifoLock_of_lock hl] at hrun
    exact ⟨hacquired, hwaiting, hnodup, howner, hrun, FifoLock.run_blocks hrun⟩
  · have hctx : k.restoreUserContext.currentPcb.kernelContext = .kernelAcquire lockId := entry.2
    obtain ⟨hok, -⟩ := Kernel.kernelAcquireReturn_ok (k := k.restoreUserContext) hinv entry
    rw [Kernel.resume]
    dsimp only
    rw [hctx]
    exact ⟨_, hok⟩
  · exact hstep.holdsLock hinv hruns

/-- Init takes a lock and forks, and its child blocks on the lock. -/
def lockRuns : List Event := initRuns ++
  [systemCall YALNIX_LOCK_INIT stackBuffer 0 0, systemCall YALNIX_LOCK_ACQUIRE 1 0 0,
    systemCall YALNIX_FORK 0 0 0, .resume, systemCall YALNIX_LOCK_ACQUIRE 1 0 0]

/-- The lock that init holds and its child waits for. -/
theorem locks_exclusive_fifo_child : ∃ k l, Kernel.run smallImage lockRuns = some k ∧
    k.lock 1 = some l ∧ l = { ownerId := INIT_PID, waitingProcs := [2], acquired := true } ∧
    FifoLock.blocks (k.lockEvents 1) = FifoLock.grants (k.lockEvents 1) ++ l.waitingProcs := by
  have hsome : ((Kernel.run smallImage lockRuns).map fun k => (k.lock 1, decide (1 ∈ k.locks)))
      = some (some { ownerId := INIT_PID, waitingProcs := [2], acquired := true }, true) := by
    decide +kernel
  obtain ⟨k, hrun, hlock⟩ := Option.map_eq_some_iff.mp hsome
  simp only [Prod.mk.injEq, decide_eq_true_eq] at hlock
  exact ⟨k, _, hrun, hlock.1, rfl,
    ((locks_exclusive_fifo (.of_run hrun)).1 1 _ hlock.2 hlock.1).2.2.2.2.2⟩

end Theynix
