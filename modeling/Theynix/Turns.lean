import Theynix.Footprint
import Theynix.Fork

/-!
# `Theynix.Turns`: what a step does to the running process

`SchedStep` says what a step does to the scheduler. `Turn` says what it does to the rest: the
page tables, the `Space` of each process and the user context. Nearly every kernel function
does one of three things. It returns a value, perhaps after storing bytes in the memory of
the running process; it goes back to user mode; or it switches to another process.

`Turn` takes two predicates, the contexts in which the function may be suspended and the
values that it may return, so that a call can be followed through its switches. The five
functions that do more are listed in `Effect`. The principal results are `trap_effect` and
`resume_effect`.
-/

set_option autoImplicit false

namespace Theynix

open Theynix.Lib (bind_eq_ok ite_eq_ok)

namespace Sched

/-- The running process is the same, every PCB was there before, and no process has been
suspended or resumed. -/
structure SameContexts (s s' : Sched) : Prop where
  currentProc : s'.currentProc = s.currentProc
  mode : s.mode = .user → s'.mode = .user
  pcb : ∀ p a', s'.pcb p = some a' → ∃ a, s.pcb p = some a ∧ a.life = a'.life

theorem SameLives.contexts {s s' : Sched} (h : SameLives s s') : SameContexts s s' where
  currentProc := h.currentProc
  mode := h.mode
  pcb p a' ha' := by
    obtain ⟨a, ha, hinit, hctx⟩ := h.pcb_some ha'
    exact ⟨a, ha, Prod.ext hinit hctx⟩

theorem SameContexts.refl (s : Sched) : SameContexts s s := (SameLives.refl s).contexts

end Sched

open Sched (SameLives SameContexts)

/-! ## Turns -/

/-- What a kernel function does to the terminal buffers, unless it is `KernelExit`. -/
inductive Kernel.HeapUse (k : Kernel) : TtyHeap → Prop
  | same : HeapUse k k.ttyHeap
  | calloc (f : TtyField) : HeapUse k (k.ttyHeap.calloc k.currentProc f)
  /-- `KernelTtyRead` goes on after the switch. -/
  | received {buf : Nat} (entry : k.toSched.ResumesIn (.kernelTtyRead buf)) :
      HeapUse k (k.ttyHeap.free k.currentProc .ttyReceiveBuffer)
  /-- `TrapTtyTransmit` ends a write. -/
  | transmitted {p : Pid} (mode : k.mode = .user)
      (vector : k.userContext.vector = TRAP_TTY_TRANSMIT)
      (done : k.transmitDone k.userContext.code = some p) :
      HeapUse k (k.ttyHeap.free p .ttyTransmitBuffer)

/-- The running process is not in a system call: it has trapped for another reason, or goes on
after a clock trap. -/
def Kernel.OutsideCall (k : Kernel) : Prop :=
  k.mode = .user ∧ k.userContext.vector ≠ TRAP_KERNEL ∨
    k.mode = .kernel ∧ k.currentPcb.kernelContext = .trapClock

/-- What a kernel function does that maps no pages and neither makes nor ends a process. -/
inductive Turn (suspends : KernelContext → Prop) (returns : Int → Prop) (k : Kernel) :
    Kernel → Prop
  /-- It returns a value, and stores bytes for the process before that. -/
  | ret {s : Sched} {h : TtyHeap} {m : Machine} {rc : Int} {va : Nat} {bytes : List Byte}
      (result : returns rc) (contexts : SameContexts k.toSched s)
      (store : k.machine.storeBytes va bytes = .ok m) (buffers : k.HeapUse h) :
      Turn suspends returns k
        (({ (k.withHeap h).withSched s with machine := m } : Kernel).ret rc)
  /-- It goes back to the process, which was not in a system call. -/
  | back {s : Sched} {h : TtyHeap} (outside : k.OutsideCall)
      (contexts : SameContexts k.toSched s) (mode : s.mode = .user) (buffers : k.HeapUse h) :
      Turn suspends returns k ((k.withHeap h).withSched s)
  /-- It is suspended. -/
  | switch {s : Sched} {h : TtyHeap} {c : KernelContext} {k' : Kernel} (context : suspends c)
      (run : ((k.withHeap h).withSched s).switchToNextProc c = .ok k')
      (contexts : SameContexts k.toSched s) (buffers : k.HeapUse h) :
      Turn suspends returns k k'

namespace Turn

variable {suspends suspends' : KernelContext → Prop} {returns returns' : Int → Prop}
  {k k' : Kernel}

theorem mono (h : Turn suspends returns k k') (hs : ∀ c, suspends c → suspends' c)
    (hr : ∀ rc, returns rc → returns' rc) : Turn suspends' returns' k k' := by
  cases h with
  | ret result contexts store buffers => exact .ret (hr _ result) contexts store buffers
  | back outside contexts mode buffers => exact .back outside contexts mode buffers
  | switch context run contexts buffers => exact .switch (hs _ context) run contexts buffers

/-- A return that changes nothing but the scheduler. -/
theorem retSched {s : Sched} {rc : Int} (result : returns rc)
    (contexts : SameContexts k.toSched s) :
    Turn suspends returns k ((k.withSched s).ret rc) :=
  .ret result contexts (show k.machine.storeBytes 0 [] = .ok k.machine from rfl) .same

/-- A return that changes nothing. -/
theorem done {rc : Int} (result : returns rc) : Turn suspends returns k (k.ret rc) :=
  retSched (s := k.toSched) result (.refl _)

end Turn

/-! ## The system calls -/

namespace Kernel

section
variable {k k' : Kernel}

theorem kernelDelay_turn {clockTicks : Int} (h : k.kernelDelay clockTicks = .ok k') :
    Turn (· = .kernelDelay) (fun rc => rc = ERROR ∨ rc = SUCCESS) k k' := by
  unfold Kernel.kernelDelay at h
  rcases ite_eq_ok h with ⟨-, h⟩ | ⟨-, h⟩
  · cases h
    exact .done (.inl rfl)
  rcases ite_eq_ok h with ⟨-, h⟩ | ⟨-, h⟩
  · cases h
    exact .done (.inr rfl)
  · exact .switch rfl h (Sched.enqueueForClock_sameLives _ _).contexts .same

theorem collectZombie_turn {suspends : KernelContext → Prop} {statusPtr : Nat}
    (h : k.collectZombie statusPtr = .ok k') : Turn suspends (· = SUCCESS) k k' := by
  unfold Kernel.collectZombie at h
  split at h
  · cases h
  split at h
  · cases h
  · obtain ⟨m, hstore, hret⟩ := bind_eq_ok.mp h
    cases hret
    refine .ret rfl ⟨rfl, id, fun p a' ha' => ?_⟩ hstore .same
    -- The PCB of the child is freed, and the list of the parent changes.
    simp only [Sched.observe, Sched.freePcb, Sched.updCurrent, Sched.updPcb_pcb] at ha'
    split at ha'
    · cases ha'
    · obtain ⟨a, ha, rfl⟩ := Option.map_eq_some_iff.mp ha'
      refine ⟨a, ha, ?_⟩
      split <;> rfl

theorem kernelWait_turn {statusPtr : Nat} (h : k.kernelWait statusPtr = .ok k') :
    Turn (· = .kernelWait statusPtr) (fun rc => rc = ERROR ∨ rc = SUCCESS) k k' := by
  unfold Kernel.kernelWait at h
  rcases ite_eq_ok h with ⟨-, h⟩ | ⟨-, h⟩
  · cases h
    exact .done (.inl rfl)
  rcases ite_eq_ok h with ⟨-, h⟩ | ⟨-, h⟩
  · exact (collectZombie_turn h).mono (fun _ hc => hc) fun _ => .inr
  rcases ite_eq_ok h with ⟨-, h⟩ | ⟨-, h⟩
  · cases h
    exact .done (.inl rfl)
  · exact .switch rfl h (SameLives.updPcb (.refl _) (by intro; rfl) (by intro; rfl)).contexts
      .same

theorem kernelTtyRead_turn {ttyId len : Int} {buf : Nat} {env : Env}
    (h : k.kernelTtyRead ttyId buf len env = .ok k') :
    Turn (· = .kernelTtyRead buf) (fun rc => rc = ERROR ∨ 0 ≤ rc) k k' := by
  unfold Kernel.kernelTtyRead at h
  rcases ite_eq_ok h with ⟨-, h⟩ | ⟨-, h⟩
  · cases h
    exact .done (.inl rfl)
  rcases ite_eq_ok h with ⟨-, h⟩ | ⟨-, h⟩
  · cases h
    exact .done (.inl rfl)
  rcases ite_eq_ok h with ⟨-, h⟩ | ⟨-, h⟩
  · cases h
    exact .done (.inl rfl)
  split at h
  · obtain ⟨m, hstore, hret⟩ := bind_eq_ok.mp h
    cases hret
    exact .ret (.inr (Int.natCast_nonneg _))
      (((SameLives.refl _).updTty _ _).observe (by intro; rfl)).contexts hstore .same
  · exact .switch rfl h (Sched.enqueueToReceive_sameLives _ _ _).contexts (.calloc _)

theorem kernelTtyWriteInternal_turn {returns : Int → Prop} {ttyId : Nat} {bytes : List Byte}
    {c : KernelContext} (h : k.kernelTtyWriteInternal ttyId bytes c = .ok k') :
    Turn (· = c) returns k k' :=
  .switch rfl h (Sched.enqueueToTransmit_sameLives _ _ _).contexts (.calloc _)

theorem kernelTtyWrite_turn {ttyId len : Int} {buf : Nat}
    (h : k.kernelTtyWrite ttyId buf len = .ok k') :
    Turn (· = .kernelTtyWrite len.toNat) (· = ERROR) k k' := by
  unfold Kernel.kernelTtyWrite at h
  rcases ite_eq_ok h with ⟨-, h⟩ | ⟨-, h⟩
  · cases h
    exact .done rfl
  rcases ite_eq_ok h with ⟨-, h⟩ | ⟨-, h⟩
  · cases h
    exact .done rfl
  rcases ite_eq_ok h with ⟨-, h⟩ | ⟨-, h⟩
  · cases h
    exact .done rfl
  · obtain ⟨bytes, -, h⟩ := bind_eq_ok.mp h
    exact kernelTtyWriteInternal_turn h

/-- `KernelPipeInit`, `KernelLockInit` and `KernelCvarInit`. -/
theorem storeNewId_turn {suspends : KernelContext → Prop} {s : Sched} {idp p : Nat}
    (hl : SameLives k.toSched s)
    (h : (if !k.validateUserArg idp 4 p then .ok (k.ret ERROR)
      else k.storeNewId s idp : Except Stop Kernel) = .ok k') :
    Turn suspends (fun rc => rc = ERROR ∨ rc = SUCCESS) k k' := by
  rcases ite_eq_ok h with ⟨-, h⟩ | ⟨-, h⟩
  · cases h
    exact .done (.inl rfl)
  · obtain ⟨m, hstore, hret⟩ := bind_eq_ok.mp h
    cases hret
    exact .ret (.inr rfl) hl.contexts hstore .same

theorem pipeReadLoop_turn {pipeId buf len : Nat} (h : k.pipeReadLoop pipeId buf len = .ok k') :
    Turn (· = .kernelPipeRead pipeId buf len) (· = len) k k' := by
  unfold Kernel.pipeReadLoop at h
  split at h
  · cases h
  rcases ite_eq_ok h with ⟨-, h⟩ | ⟨-, h⟩
  · exact .switch rfl h ((SameLives.refl _).updPipe _ _).contexts .same
  · obtain ⟨⟨bytes, p⟩, -, h⟩ := bind_eq_ok.mp h
    obtain ⟨m, hstore, hret⟩ := bind_eq_ok.mp h
    cases hret
    exact .ret rfl (((SameLives.refl _).updPipe _ _).observe (by intro; rfl)).contexts hstore
      .same

theorem kernelPipeRead_turn {pipeId buf : Nat} {len : Int}
    (h : k.kernelPipeRead pipeId buf len = .ok k') :
    Turn (· = .kernelPipeRead pipeId buf len.toNat) (fun rc => rc = ERROR ∨ rc = len.toNat) k
      k' := by
  unfold Kernel.kernelPipeRead at h
  rcases ite_eq_ok h with ⟨-, h⟩ | ⟨-, h⟩
  · cases h
    exact .done (.inl rfl)
  rcases ite_eq_ok h with ⟨hlen, h⟩ | ⟨-, h⟩
  · cases h
    exact .done (.inr (by rw [hlen]; rfl))
  rcases ite_eq_ok h with ⟨-, h⟩ | ⟨-, h⟩
  · cases h
    exact .done (.inl rfl)
  split at h
  · cases h
    exact .done (.inl rfl)
  · exact (pipeReadLoop_turn h).mono (fun _ hc => hc) fun _ => .inr

theorem kernelPipeWrite_turn {suspends : KernelContext → Prop} {pipeId buf : Nat} {len : Int}
    (hrun : k.toSched.Running) (h : k.kernelPipeWrite pipeId buf len = .ok k') :
    Turn suspends (fun rc => rc = ERROR ∨ rc = len.toNat) k k' := by
  unfold Kernel.kernelPipeWrite at h
  rcases ite_eq_ok h with ⟨-, h⟩ | ⟨hneg, h⟩
  · cases h
    exact .done (.inl rfl)
  rcases ite_eq_ok h with ⟨hlen, h⟩ | ⟨-, h⟩
  · cases h
    exact .done (.inr (by rw [hlen]; rfl))
  rcases ite_eq_ok h with ⟨-, h⟩ | ⟨-, h⟩
  · cases h
    exact .done (.inl rfl)
  split at h
  · cases h
    exact .done (.inl rfl)
  · rename_i p hfound
    obtain ⟨bytes, -, h⟩ := bind_eq_ok.mp h
    obtain ⟨p', hwrite, hret⟩ := bind_eq_ok.mp h
    cases hret
    have hlen : (len.toNat : Int) = len := by omega
    have hw := hrun.afterPipeWrite (Sched.mem_of_findPipe hfound).2
      (Pipe.write_waitingToRead hwrite) bytes
    exact .retSched (.inr hlen.symm) hw.2.contexts

theorem kernelAcquire_turn {lockId : Nat} (h : k.kernelAcquire lockId = .ok k') :
    Turn (· = .kernelAcquire lockId) (fun rc => rc = ERROR ∨ rc = SUCCESS) k k' := by
  unfold Kernel.kernelAcquire at h
  split at h
  · cases h
    exact .done (.inl rfl)
  rcases ite_eq_ok h with ⟨-, h⟩ | ⟨-, h⟩
  · cases h
    exact .retSched (.inr rfl) ((SameLives.refl _).observe (by intro; rfl)).contexts
  rcases ite_eq_ok h with ⟨-, h⟩ | ⟨-, h⟩
  · cases h
    exact .retSched (.inr rfl) ((Sched.takeLock_sameLives _ _).observe (by intro; rfl)).contexts
  · exact .switch rfl h (Sched.enqueueForLock_sameLives _ _).contexts .same

theorem kernelAcquireReturn_turn {suspends : KernelContext → Prop} {lockId : Nat}
    (h : k.kernelAcquireReturn lockId = .ok k') : Turn suspends (· = SUCCESS) k k' := by
  unfold Kernel.kernelAcquireReturn at h
  split at h
  · cases h
  · obtain ⟨_, -, h⟩ := bind_eq_ok.mp h
    obtain ⟨_, -, h⟩ := bind_eq_ok.mp h
    obtain ⟨_, -, hret⟩ := bind_eq_ok.mp h
    cases hret
    exact .retSched rfl ((SameLives.refl _).observe (by intro; rfl)).contexts

theorem kernelRelease_result {s s' : Sched} {lockId : Nat} {rc : Int}
    (h : s.kernelRelease lockId = .ok (rc, s')) : rc = ERROR ∨ rc = SUCCESS := by
  cases Sched.kernelRelease_cases h with
  | error => exact .inl rfl
  | available => exact .inr rfl
  | handOver => exact .inr rfl

theorem kernelCvarSignal_result (s : Sched) (cvarId : Nat) :
    (s.kernelCvarSignal cvarId).1 = ERROR ∨ (s.kernelCvarSignal cvarId).1 = SUCCESS := by
  unfold Sched.kernelCvarSignal
  split
  · exact .inl rfl
  split
  · exact .inr rfl
  · exact .inr rfl

theorem kernelCvarBroadcast_result (s : Sched) (cvarId : Nat) :
    (s.kernelCvarBroadcast cvarId).1 = ERROR ∨ (s.kernelCvarBroadcast cvarId).1 = SUCCESS := by
  unfold Sched.kernelCvarBroadcast
  split
  · exact .inl rfl
  · exact .inr rfl

theorem kernelReclaim_result (s : Sched) (id : Nat) :
    (s.kernelReclaim id).1 = ERROR ∨ (s.kernelReclaim id).1 = SUCCESS := by
  unfold Sched.kernelReclaim
  dsimp only
  repeat' split
  all_goals first | exact .inl rfl | exact .inr rfl

theorem kernelCvarWait_turn {cvarId lockId : Nat} (hrun : k.toSched.Running)
    (h : k.kernelCvarWait cvarId lockId = .ok k') :
    Turn (· = .kernelCvarWait lockId) (· = ERROR) k k' := by
  unfold Kernel.kernelCvarWait at h
  split at h
  · cases h
    exact .done rfl
  · obtain ⟨⟨rc, s⟩, hrelease, h⟩ := bind_eq_ok.mp h
    have hl := (hrun.kernelRelease hrelease).2
    rcases ite_eq_ok h with ⟨-, h⟩ | ⟨-, h⟩
    · cases h
      exact .retSched rfl hl.contexts
    · exact .switch rfl h (hl.updCvar _ _).contexts .same

end

end Kernel

/-! ## The call that a process is in -/

/-- A process that has trapped with this user context may be suspended in this kernel
context. -/
inductive UserContext.SuspendsIn (uc : UserContext) : KernelContext → Prop
  | trapClock (vector : uc.vector = TRAP_CLOCK) : uc.SuspendsIn .trapClock
  | fatalTrap (vector : uc.vector = TRAP_ILLEGAL ∨ uc.vector = TRAP_MEMORY ∨
      uc.vector = TRAP_MATH) : uc.SuspendsIn .fatalTrap
  | protectionTrap (vector : uc.vector = TRAP_MEMORY) : uc.SuspendsIn .protectionTrap
  | kernelFork {childPid : Pid} (call : uc.Calls YALNIX_FORK) :
      uc.SuspendsIn (.kernelFork childPid)
  | kernelWait (call : uc.Calls YALNIX_WAIT) : uc.SuspendsIn (.kernelWait (uc.regs 0))
  | kernelDelay (call : uc.Calls YALNIX_DELAY) : uc.SuspendsIn .kernelDelay
  | kernelTtyRead (call : uc.Calls YALNIX_TTY_READ) : uc.SuspendsIn (.kernelTtyRead (uc.regs 1))
  | kernelTtyWrite (call : uc.Calls YALNIX_TTY_WRITE) :
      uc.SuspendsIn (.kernelTtyWrite (asInt (uc.regs 2)).toNat)
  | kernelPipeRead (call : uc.Calls YALNIX_PIPE_READ) :
      uc.SuspendsIn (.kernelPipeRead (uc.regs 0) (uc.regs 1) (asInt (uc.regs 2)).toNat)
  | kernelAcquire (call : uc.Calls YALNIX_LOCK_ACQUIRE) :
      uc.SuspendsIn (.kernelAcquire (uc.regs 0))
  | kernelCvarWait (call : uc.Calls YALNIX_CVAR_WAIT) :
      uc.SuspendsIn (.kernelCvarWait (uc.regs 1))
  /-- `KernelCvarWait` takes the lock again at its end. -/
  | acquireAgain (call : uc.Calls YALNIX_CVAR_WAIT) : uc.SuspendsIn (.kernelAcquire (uc.regs 1))

/-- The system call of process `p`, made with this user context, may return this value. -/
inductive UserContext.Returns (p : Pid) (uc : UserContext) : Int → Prop
  | getPid (call : uc.Calls YALNIX_GETPID) : uc.Returns p p
  | forkedChild {childPid : Pid} (call : uc.Calls YALNIX_FORK) (other : childPid ≠ p) :
      uc.Returns p childPid
  | forked (call : uc.Calls YALNIX_FORK) : uc.Returns p 0
  | ttyRead {rc : Int} (call : uc.Calls YALNIX_TTY_READ) (nonneg : 0 ≤ rc) : uc.Returns p rc
  | length (call : uc.Calls YALNIX_TTY_WRITE ∨ uc.Calls YALNIX_PIPE_READ ∨
      uc.Calls YALNIX_PIPE_WRITE) : uc.Returns p (asInt (uc.regs 2)).toNat
  | success (vector : uc.vector = TRAP_KERNEL) (code : uc.code ∉ [YALNIX_GETPID, YALNIX_FORK,
      YALNIX_TTY_READ, YALNIX_TTY_WRITE, YALNIX_PIPE_READ, YALNIX_PIPE_WRITE]) :
      uc.Returns p SUCCESS
  | error (vector : uc.vector = TRAP_KERNEL) (code : uc.code ≠ YALNIX_GETPID) :
      uc.Returns p ERROR

/-- A process that goes on in the first context may be suspended again in the second. -/
inductive KernelContext.SuspendsIn : KernelContext → KernelContext → Prop
  | kernelPipeRead {pipe buf len : Nat} :
      KernelContext.SuspendsIn (.kernelPipeRead pipe buf len) (.kernelPipeRead pipe buf len)
  | kernelCvarWait {lockId : Nat} :
      KernelContext.SuspendsIn (.kernelCvarWait lockId) (.kernelAcquire lockId)

/-- Process `p`, which goes on in this context, may return this value. -/
inductive KernelContext.Returns (p : Pid) : KernelContext → Int → Prop
  | forkedChild {childPid : Pid} (other : childPid ≠ p) :
      KernelContext.Returns p (.kernelFork childPid) childPid
  | forked : KernelContext.Returns p (.kernelFork p) 0
  | kernelWait {statusPtr : Nat} : KernelContext.Returns p (.kernelWait statusPtr) SUCCESS
  | kernelDelay : KernelContext.Returns p .kernelDelay SUCCESS
  | kernelTtyRead {buf : Nat} {rc : Int} (nonneg : 0 ≤ rc) :
      KernelContext.Returns p (.kernelTtyRead buf) rc
  | kernelTtyWrite {len : Nat} : KernelContext.Returns p (.kernelTtyWrite len) len
  | kernelPipeRead {pipe buf len : Nat} :
      KernelContext.Returns p (.kernelPipeRead pipe buf len) len
  | kernelAcquire {lockId : Nat} : KernelContext.Returns p (.kernelAcquire lockId) SUCCESS
  | kernelCvarWait {lockId : Nat} {rc : Int} (result : rc = ERROR ∨ rc = SUCCESS) :
      KernelContext.Returns p (.kernelCvarWait lockId) rc

/-- What a call does after a switch is still part of the call. -/
theorem UserContext.SuspendsIn.again {uc : UserContext} {c c' : KernelContext}
    (h : uc.SuspendsIn c) (h' : c.SuspendsIn c') : uc.SuspendsIn c' := by
  cases h' with
  | kernelPipeRead => exact h
  | kernelCvarWait =>
      cases h with
      | kernelCvarWait call => exact .acquireAgain call

theorem UserContext.SuspendsIn.returns {uc : UserContext} {c : KernelContext} {p : Pid} {rc : Int}
    (h : uc.SuspendsIn c) (h' : c.Returns p rc) : uc.Returns p rc := by
  cases h' with
  | forkedChild other =>
      cases h with
      | kernelFork call => exact .forkedChild call other
  | forked =>
      cases h with
      | kernelFork call => exact .forked call
  | kernelWait =>
      cases h with
      | kernelWait call => exact .success call.1 (by rw [call.2]; decide)
  | kernelDelay =>
      cases h with
      | kernelDelay call => exact .success call.1 (by rw [call.2]; decide)
  | kernelTtyRead nonneg =>
      cases h with
      | kernelTtyRead call => exact .ttyRead call nonneg
  | kernelTtyWrite =>
      cases h with
      | kernelTtyWrite call => exact .length (.inl call)
  | kernelPipeRead =>
      cases h with
      | kernelPipeRead call => exact .length (.inr (.inl call))
  | kernelAcquire =>
      cases h with
      | kernelAcquire call => exact .success call.1 (by rw [call.2]; decide)
      | acquireAgain call => exact .success call.1 (by rw [call.2]; decide)
  | kernelCvarWait result =>
      cases h with
      | kernelCvarWait call =>
          rcases result with rfl | rfl
          · exact .error call.1 (by rw [call.2]; decide)
          · exact .success call.1 (by rw [call.2]; decide)

/-! ## Traps -/

/-- The page of a memory fault. -/
def Kernel.faultPage (k : Kernel) : Nat := addrToPage (k.userContext.addr - VMEM_1_BASE)

/-- `TrapMemory` grows the stack. -/
structure Kernel.GrowsStack (k : Kernel) : Prop where
  base : VMEM_1_BASE ≤ k.userContext.addr
  limit : k.userContext.addr ≤ VMEM_1_LIMIT
  invalid : (k.table k.faultPage).valid = false
  belowStack : (k.faultPage : Int) < (k.space k.currentProc).lowestUserStackPage
  aboveHeap : (k.space k.currentProc).userBrkPage < k.faultPage

/-- The pages that `TrapMemory` maps. -/
def Kernel.growStack (k : Kernel) : Except Stop (Int × Machine) :=
  k.machine.growStack k.currentProc k.faultPage
    ((k.space k.currentProc).lowestUserStackPage - k.faultPage).toNat

/-- What a trap does, up to the next return to user mode or switch. -/
inductive Effect (k : Kernel) (env : Env) (k' : Kernel) : Prop
  | turn (turn : Turn k.userContext.SuspendsIn (k.userContext.Returns k.currentProc) k k')
  | fork (call : k.userContext.Calls YALNIX_FORK) (run : k.kernelFork = .ok k')
  | exec {rc : Int} {k₁ : Kernel} (call : k.userContext.Calls YALNIX_EXEC)
      (run : k.kernelExec (k.userContext.regs 0) (k.userContext.regs 1) env = .ok (rc, k₁))
      (ret : k' = k₁.ret rc)
  | brk {rc : Int} {k₁ : Kernel} (call : k.userContext.Calls YALNIX_BRK)
      (run : k.kernelBrk (k.userContext.regs 0) = .ok (rc, k₁)) (ret : k' = k₁.ret rc)
  | grow {m : Machine} (vector : k.userContext.vector = TRAP_MEMORY) (grows : k.GrowsStack)
      (run : k.growStack = .ok (SUCCESS, m))
      (back : k' = ({ k with machine := m } : Kernel).setSpace k.currentProc
        { k.space k.currentProc with lowestUserStackPage := k.faultPage })
  | outOfFrames {m : Machine} {msg : String} (vector : k.userContext.vector = TRAP_MEMORY)
      (grows : k.GrowsStack) (run : k.growStack = .ok (ERROR, m))
      (fatal : ({ k with machine := m } : Kernel).fatal msg = .ok k')
  | exit {status : Int} (vector : ¬ IsDeviceTrap k.userContext.vector)
      (run : k.kernelExit status = .ok k')

namespace Kernel

section
variable {k k' : Kernel}

theorem trapKernel_effect {env : Env} (hrun : k.toSched.Running)
    (vector : k.userContext.vector = TRAP_KERNEL)
    (h : k.trapKernel env = .ok k') : Effect k env k' := by
  have hcall : ∀ {code : Nat}, k.userContext.code = code → k.userContext.Calls code :=
    fun hcode => ⟨vector, hcode⟩
  -- A call that returns `SUCCESS` or `ERROR`.
  have hturn : ∀ {suspends : KernelContext → Prop} {returns : Int → Prop},
      Turn suspends returns k k' → (∀ c, suspends c → k.userContext.SuspendsIn c) →
      (∀ rc, returns rc → rc = ERROR ∨ rc = SUCCESS) →
      k.userContext.code ∉ [YALNIX_GETPID, YALNIX_FORK, YALNIX_TTY_READ, YALNIX_TTY_WRITE,
        YALNIX_PIPE_READ, YALNIX_PIPE_WRITE] → Effect k env k' := by
    intro suspends returns h hs hr hcode
    refine .turn (h.mono hs fun rc hrc => ?_)
    rcases hr rc hrc with rfl | rfl
    · exact .error vector fun he => hcode (he ▸ List.mem_cons_self)
    · exact .success vector hcode
  have hexit : ∀ {status : Int}, k.kernelExit status = .ok k' → Effect k env k' :=
    .exit (by rw [vector]; decide)
  unfold Kernel.trapKernel at h
  rcases ite_eq_ok h with ⟨hcode, h⟩ | ⟨-, h⟩
  · exact hturn (kernelDelay_turn h) (by rintro _ rfl; exact .kernelDelay (hcall hcode))
      (fun _ => id) (by rw [hcode]; decide)
  rcases ite_eq_ok h with ⟨hcode, h⟩ | ⟨-, h⟩
  · exact .fork (hcall hcode) h
  rcases ite_eq_ok h with ⟨hcode, h⟩ | ⟨-, h⟩
  · cases h
    exact .turn (.done (.getPid (hcall hcode)))
  rcases ite_eq_ok h with ⟨hcode, h⟩ | ⟨-, h⟩
  · obtain ⟨⟨rc, k₁⟩, hrun, hret⟩ := bind_eq_ok.mp h
    cases hret
    exact .exec (hcall hcode) hrun rfl
  rcases ite_eq_ok h with ⟨hcode, h⟩ | ⟨-, h⟩
  · exact hturn (kernelWait_turn h) (by rintro _ rfl; exact .kernelWait (hcall hcode))
      (fun _ => id) (by rw [hcode]; decide)
  rcases ite_eq_ok h with ⟨-, h⟩ | ⟨-, h⟩
  · exact hexit h
  rcases ite_eq_ok h with ⟨hcode, h⟩ | ⟨-, h⟩
  · obtain ⟨⟨rc, k₁⟩, hrun, hret⟩ := bind_eq_ok.mp h
    cases hret
    exact .brk (hcall hcode) hrun rfl
  rcases ite_eq_ok h with ⟨hcode, h⟩ | ⟨-, h⟩
  · refine .turn ((kernelTtyRead_turn h).mono (by rintro _ rfl; exact .kernelTtyRead (hcall hcode))
      fun rc hrc => ?_)
    rcases hrc with rfl | hrc
    · exact .error vector (by rw [hcode]; decide)
    · exact .ttyRead (hcall hcode) hrc
  rcases ite_eq_ok h with ⟨hcode, h⟩ | ⟨-, h⟩
  · exact .turn ((kernelTtyWrite_turn h).mono
      (by rintro _ rfl; exact .kernelTtyWrite (hcall hcode))
      (by rintro _ rfl; exact .error vector (by rw [hcode]; decide)))
  rcases ite_eq_ok h with ⟨hcode, h⟩ | ⟨-, h⟩
  · exact hturn (storeNewId_turn (s := k.toSched.pipeNewPipe) (p := PROT_WRITE) (Sched.pipeNewPipe_sameLives _) h) (fun _ (hc : False) => hc.elim)
      (fun _ => id) (by rw [hcode]; decide)
  rcases ite_eq_ok h with ⟨hcode, h⟩ | ⟨-, h⟩
  · refine .turn ((kernelPipeRead_turn h).mono
      (by rintro _ rfl; exact .kernelPipeRead (hcall hcode)) fun rc hrc => ?_)
    rcases hrc with rfl | rfl
    · exact .error vector (by rw [hcode]; decide)
    · exact .length (.inr (.inl (hcall hcode)))
  rcases ite_eq_ok h with ⟨hcode, h⟩ | ⟨-, h⟩
  · refine .turn ((kernelPipeWrite_turn hrun h).mono
      (fun _ (hc : False) => hc.elim) fun rc hrc => ?_)
    rcases hrc with rfl | rfl
    · exact .error vector (by rw [hcode]; decide)
    · exact .length (.inr (.inr (hcall hcode)))
  rcases ite_eq_ok h with ⟨hcode, h⟩ | ⟨-, h⟩
  · exact hturn (storeNewId_turn (s := k.toSched.lockNewLock) (p := PROT_WRITE) (Sched.lockNewLock_sameLives _) h) (fun _ (hc : False) => hc.elim)
      (fun _ => id) (by rw [hcode]; decide)
  rcases ite_eq_ok h with ⟨hcode, h⟩ | ⟨-, h⟩
  · exact hturn (kernelAcquire_turn h) (by rintro _ rfl; exact .kernelAcquire (hcall hcode))
      (fun _ => id) (by rw [hcode]; decide)
  rcases ite_eq_ok h with ⟨hcode, h⟩ | ⟨-, h⟩
  · obtain ⟨⟨rc, s⟩, hrelease, hret⟩ := bind_eq_ok.mp h
    cases hret
    exact hturn (.retSched (kernelRelease_result hrelease)
      (hrun.kernelRelease hrelease).2.contexts) (fun _ (hc : False) => hc.elim)
      (fun _ => id) (by rw [hcode]; decide)
  rcases ite_eq_ok h with ⟨hcode, h⟩ | ⟨-, h⟩
  · exact hturn (storeNewId_turn (s := k.toSched.cVarNewCVar)
      (p := PROT_READ ||| PROT_WRITE) (Sched.cVarNewCVar_sameLives _) h) (fun _ (hc : False) => hc.elim)
      (fun _ => id) (by rw [hcode]; decide)
  rcases ite_eq_ok h with ⟨hcode, h⟩ | ⟨-, h⟩
  · cases h
    exact hturn (.retSched (kernelCvarSignal_result _ _)
      (hrun.kernelCvarSignal _).2.contexts) (fun _ (hc : False) => hc.elim)
      (fun _ => id) (by rw [hcode]; decide)
  rcases ite_eq_ok h with ⟨hcode, h⟩ | ⟨-, h⟩
  · cases h
    exact hturn (.retSched (kernelCvarBroadcast_result _ _)
      (hrun.kernelCvarBroadcast _).2.contexts) (fun _ (hc : False) => hc.elim)
      (fun _ => id) (by rw [hcode]; decide)
  rcases ite_eq_ok h with ⟨hcode, h⟩ | ⟨-, h⟩
  · exact hturn (kernelCvarWait_turn hrun h) (by rintro _ rfl; exact .kernelCvarWait (hcall hcode))
      (fun _ => .inl) (by rw [hcode]; decide)
  rcases ite_eq_ok h with ⟨hcode, h⟩ | ⟨-, h⟩
  · cases h
    exact hturn (.retSched (kernelReclaim_result _ _)
      (Sched.kernelReclaim_keeps _ _).1.contexts) (fun _ (hc : False) => hc.elim)
      (fun _ => id) (by rw [hcode]; decide)
  · exact hexit h

/-- The loop of `TrapMemory` ends with `SUCCESS` or `ERROR`. -/
theorem growStack_result {m m' : Machine} {pid addrPage n : Nat} {rc : Int}
    (h : m.growStack pid addrPage n = .ok (rc, m')) : rc = ERROR ∨ rc = SUCCESS := by
  induction n generalizing m with
  | zero =>
      rcases ite_eq_ok h with ⟨-, h⟩ | ⟨-, h⟩
      · cases h
      · cases h
        exact .inr rfl
  | succ n ih =>
      rcases ite_eq_ok h with ⟨-, h⟩ | ⟨-, h⟩
      · cases h
        exact .inl rfl
      · obtain ⟨_, -, h⟩ := bind_eq_ok.mp h
        exact ih h

/-- A fatal trap prints its message before the process exits. -/
theorem fatal_turn {msg : String} (h : k.fatal msg = .ok k') :
    Turn (· = .fatalTrap) (fun _ => False) k k' := kernelTtyWriteInternal_turn h

/-- `TrapMemory` grows the stack, or kills the process. -/
theorem trapMemory_effect {env : Env} (vector : k.userContext.vector = TRAP_MEMORY)
    (h : k.trapMemory = .ok k') : Effect k env k' := by
  have hkill : ∀ {msg : String}, k.fatal msg = .ok k' → Effect k env k' := fun hrun =>
    .turn ((fatal_turn hrun).mono (by rintro _ rfl; exact .fatalTrap (.inr (.inl vector)))
      fun _ => False.elim)
  unfold Kernel.trapMemory at h
  rcases ite_eq_ok h with ⟨-, h⟩ | ⟨hrange, h⟩
  · exact hkill h
  rcases ite_eq_ok h with ⟨hvalid, h⟩ | ⟨-, h⟩
  · rcases ite_eq_ok h with ⟨hgap, h⟩ | ⟨-, h⟩
    · have hgrows : k.GrowsStack :=
        ⟨Nat.not_lt.mp fun hlt => hrange (.inr hlt), Nat.not_lt.mp fun hlt => hrange (.inl hlt),
          by simpa [faultPage] using hvalid, hgap.1, hgap.2⟩
      obtain ⟨⟨rc, m⟩, hgrow, h⟩ := bind_eq_ok.mp h
      rcases ite_eq_ok h with ⟨hrc, h⟩ | ⟨hrc, h⟩
      · subst hrc
        exact .outOfFrames vector hgrows hgrow h
      · cases h
        obtain rfl := (growStack_result hgrow).resolve_left hrc
        exact .grow vector hgrows hgrow rfl
    · rcases ite_eq_ok h with ⟨-, h⟩ | ⟨-, h⟩
      · exact hkill h
      · exact hkill h
  · exact .turn ((kernelTtyWriteInternal_turn h).mono
      (by rintro _ rfl; exact .protectionTrap vector) fun _ hrc => hrc)

/-- What a trap does. -/
theorem trap_effect {env : Env} (hrun : k.toSched.Running) (mode : k.mode = .user)
    (h : k.trap env = .ok k') :
    Effect k env k' := by
  have hfatal : ∀ {msg : String}, (k.userContext.vector = TRAP_ILLEGAL ∨
      k.userContext.vector = TRAP_MEMORY ∨ k.userContext.vector = TRAP_MATH) →
      k.fatal msg = .ok k' → Effect k env k' := fun hvector hrun =>
    .turn ((fatal_turn hrun).mono (by rintro _ rfl; exact .fatalTrap hvector) fun _ => False.elim)
  unfold Kernel.trap at h
  rcases ite_eq_ok h with ⟨hvector, h⟩ | ⟨-, h⟩
  · exact trapKernel_effect hrun hvector h
  rcases ite_eq_ok h with ⟨hvector, h⟩ | ⟨hclock, h⟩
  · obtain ⟨s, hs, h⟩ := bind_eq_ok.mp h
    exact .turn (.switch (.trapClock hvector) h (hrun.trapClock hs).2.contexts .same)
  rcases ite_eq_ok h with ⟨hvector, h⟩ | ⟨-, h⟩
  · exact hfatal (.inl hvector) h
  rcases ite_eq_ok h with ⟨hvector, h⟩ | ⟨-, h⟩
  · exact trapMemory_effect hvector h
  rcases ite_eq_ok h with ⟨hvector, h⟩ | ⟨-, h⟩
  · exact hfatal (.inr (.inr hvector)) h
  rcases ite_eq_ok h with ⟨hvector, h⟩ | ⟨hreceive, h⟩
  · obtain ⟨s, hs, hret⟩ := bind_eq_ok.mp h
    cases hret
    have hl := (hrun.trapTtyRecieve hs).2
    exact .turn (.back (.inl ⟨mode, by rw [hvector]; decide⟩) hl.contexts (hl.mode mode) .same)
  rcases ite_eq_ok h with ⟨hvector, h⟩ | ⟨htransmit, h⟩
  · obtain ⟨s, hs, hret⟩ := bind_eq_ok.mp h
    cases hret
    have hl := (hrun.trapTtyTransmit hs).2
    refine .turn (.back (.inl ⟨mode, by rw [hvector]; decide⟩) hl.contexts (hl.mode mode) ?_)
    cases hdone : k.transmitDone k.userContext.code with
    | none => exact .same
    | some p => exact .transmitted mode hvector hdone
  · exact .exit (by rintro (hv | hv | hv); exacts [hclock hv, hreceive hv, htransmit hv]) h

/-- What a process does that was switched to, from its kernel context on. -/
theorem resume_effect (mode : k.mode = .kernel) (h : k.resume = .ok k') :
    Turn k.currentPcb.kernelContext.SuspendsIn (k.currentPcb.kernelContext.Returns k.currentProc)
        k.restoreUserContext k' ∨
      k.currentPcb.kernelContext = .fatalTrap ∧
        k.restoreUserContext.kernelExit ERROR = .ok k' := by
  have hpcb : k.restoreUserContext.currentPcb = k.currentPcb := rfl
  unfold Kernel.resume at h
  dsimp only at h
  rw [hpcb] at h
  split at h <;> rename_i hc <;> rw [hc]
  · cases h
    exact .inl (.back (s := k.toSched.toUser) (.inr ⟨mode, hc⟩) (SameLives.refl _).toUser.contexts
      rfl .same)
  · rename_i childPid
    rcases ite_eq_ok h with ⟨hchild, h⟩ | ⟨hchild, h⟩
    · cases h
      have hself : childPid = k.currentProc := hchild
      rw [hself]
      exact .inl (.done .forked)
    · cases h
      exact .inl (.done (.forkedChild hchild))
  · cases h
  · exact .inl ((collectZombie_turn h).mono (fun _ hs => hs) (by rintro _ rfl; exact .kernelWait))
  · cases h
    exact .inl (.done .kernelDelay)
  · obtain ⟨m, hstore, hret⟩ := bind_eq_ok.mp h
    cases hret
    exact .inl (.ret (s := k.toSched) (h := k.ttyHeap.free k.currentProc .ttyReceiveBuffer)
      (.kernelTtyRead (Int.natCast_nonneg _)) (.refl _) hstore (.received ⟨mode, hc⟩))
  · cases h
    exact .inl (.done .kernelTtyWrite)
  · exact .inr ⟨rfl, h⟩
  · cases h
  · exact .inl ((pipeReadLoop_turn h).mono (by rintro _ rfl; exact .kernelPipeRead)
      (by rintro _ rfl; exact .kernelPipeRead))
  · exact .inl ((kernelAcquireReturn_turn h).mono (fun _ hs => hs)
      (by rintro _ rfl; exact .kernelAcquire))
  · exact .inl ((kernelAcquire_turn h).mono (by rintro _ rfl; exact .kernelCvarWait)
      fun _ => .kernelCvarWait)

end

/-! ## What a switch changes -/

section
variable {k k' : Kernel} {c : KernelContext}

/-- What a switch does to memory and to the user contexts. -/
structure Switched (k k' : Kernel) : Prop where
  mode : k'.mode = .kernel
  ttyHeap : k'.ttyHeap = k.ttyHeap
  space : k'.space = k.saveUserContext.space
  userContext : k'.userContext = (k'.space k'.currentProc).userContext
  tables : Machine.OnlyTable .region0 { k.machine with ptbr1 := k'.machine.ptbr1 } k'.machine
  tlb : k'.machine.tlb = fun _ => []

theorem switchToProc_switched {next : Pid} (h : k.switchToProc next c = .ok k') :
    Switched k k' := by
  have hsched := switchToProc_sched h
  have hcur : k'.currentProc = next := by rw [hsched]; rfl
  have hmode : k'.mode = .kernel := by rw [hsched]; rfl
  unfold Kernel.switchToProc at h
  split at h
  · cases h
  obtain ⟨m, hm, hret⟩ : ∃ m, Machine.OnlyTable .region0
      ({ k.machine with ptbr1 := .region1 next } : Machine).flushRegion1 m ∧
      ({ toSched := k.toSched.switchToProc next c
         machine := (m.useKernelStackForProc next).flushRegion1
         space := k.saveUserContext.space
         userContext := (k.saveUserContext.space next).userContext
         ttyHeap := k.ttyHeap } : Kernel) = k' := by
    rcases ite_eq_ok h with ⟨-, h⟩ | ⟨-, h⟩
    · obtain ⟨m, hm, hret⟩ := bind_eq_ok.mp h
      cases hm
      cases hret
      exact ⟨_, .refl, rfl⟩
    · obtain ⟨m, hcopy, hret⟩ := bind_eq_ok.mp h
      cases hret
      exact ⟨m, Machine.copyKernelStack_onlyTable hcopy, rfl⟩
  subst hret
  have honly := hm.trans (m.useKernelStack_onlyTable next)
  refine ⟨hmode, rfl, rfl, by rw [hcur], ⟨honly.pte, rfl, honly.kernelBrkPage,
    honly.virtualMemoryEnabled⟩, rfl⟩

theorem switchToNextProc_switched (h : k.switchToNextProc c = .ok k') : Switched k k' := by
  unfold Kernel.switchToNextProc at h
  split at h
  · rename_i next rest hq
    have hs := switchToProc_switched
      (k := k.withSched { k.toSched with readyQueue := rest }) h
    exact ⟨hs.mode, hs.ttyHeap, hs.space, hs.userContext, hs.tables, hs.tlb⟩
  · exact switchToProc_switched h

end

end Kernel

/-! ## What a turn keeps -/

section
variable {suspends : KernelContext → Prop} {returns : Int → Prop} {k k' : Kernel}

/-- A turn changes no region 1 table. -/
theorem Turn.region1 (h : Turn suspends returns k k') (p : Pid) :
    k'.machine.pte (.region1 p) = k.machine.pte (.region1 p) := by
  cases h with
  | ret result contexts store buffers =>
      show _ = k.machine.pte (.region1 p)
      rw [← (Machine.storeBytes_sameTables store).pte]
      rfl
  | back outside contexts mode buffers => rfl
  | switch context run contexts buffers =>
      funext i
      exact (Kernel.switchToNextProc_switched run).tables.pte (by simp) i

/-- A turn changes no bound of a heap or stack. -/
theorem Turn.bounds (h : Turn suspends returns k k') (p : Pid) :
    (k'.space p).userBrkPage = (k.space p).userBrkPage ∧
      (k'.space p).lowestUserStackPage = (k.space p).lowestUserStackPage := by
  cases h with
  | ret result contexts store buffers => exact ⟨rfl, rfl⟩
  | back outside contexts mode buffers => exact ⟨rfl, rfl⟩
  | @switch s _ _ _ context run contexts buffers =>
      rw [(Kernel.switchToNextProc_switched run).space]
      simp only [Kernel.saveUserContext, Kernel.setSpace]
      split
      · rename_i hp
        rw [hp]
        exact ⟨rfl, rfl⟩
      · exact ⟨rfl, rfl⟩

end

/-! ## Where suspended processes go on -/

namespace Sched

variable {s s' : Sched} {c : KernelContext} {p : Pid} {a a' : PCB}

/-- The PCBs after a switch to the next process. -/
theorem switchToNextProc_pcb (s : Sched) (c : KernelContext) (p : Pid) :
    (s.switchToNextProc c).pcb p = (s.pcb p).map fun a =>
      { a with
        kernelContext :=
          if p = s.currentProc ∨
              p = (s.switchToNextProc c).currentProc ∧ a.kernelContextInitialized = false then c
          else a.kernelContext
        kernelContextInitialized :=
          a.kernelContextInitialized || decide (p = (s.switchToNextProc c).currentProc) } := by
  unfold Sched.switchToNextProc
  split
  · rename_i next rest _
    exact switchToProc_pcb { s with readyQueue := rest } next c p
  · exact switchToProc_pcb s IDLE_PID c p

/-- A switch suspends the running process and no other. -/
theorem switchToNextProc_life (hp : p ≠ s.currentProc) (ha : s.pcb p = some a)
    (hinit : a.kernelContextInitialized = true) (ha' : (s.switchToNextProc c).pcb p = some a') :
    a'.life = a.life := by
  rw [switchToNextProc_pcb, ha] at ha'
  cases ha'
  simp [PCB.life, hp, hinit]

/-- The running process goes on in the context in which it is suspended. -/
theorem switchToNextProc_current (ha' : (s.switchToNextProc c).pcb s.currentProc = some a') :
    a'.kernelContext = c := by
  rw [switchToNextProc_pcb] at ha'
  obtain ⟨a, -, rfl⟩ := Option.map_eq_some_iff.mp ha'
  simp

/-- The running process is suspended when the kernel switches. -/
theorem switchToNextProc_suspends (ha : s.pcb s.currentProc = some a)
    (hinit : a.kernelContextInitialized = true) :
    ∃ a', (s.switchToNextProc c).pcb s.currentProc = some a' ∧ a'.life = (true, c) := by
  rw [switchToNextProc_pcb, ha]
  refine ⟨_, rfl, ?_⟩
  simp [PCB.life, hinit]

/-- A process that runs has been switched to before, or is idle. -/
theorem Settled.current_initialized {parked : Prop} (h : s.Settled parked)
    (ha : s.pcb s.currentProc = some a) : a.kernelContextInitialized = true := by
  by_contra hinit
  obtain ⟨hidle, -, -⟩ := h.started _ a ha (by simpa using hinit)
  exact hinit (h.idleContext a (hidle ▸ ha)).1

end Sched

section
variable {k k' : Kernel} {p : Pid} {a a' : PCB}

/-- A process that does not run goes on where it was suspended. -/
theorem Turn.life {suspends : KernelContext → Prop} {returns : Int → Prop}
    (h : Turn suspends returns k k') (hp : p ≠ k.currentProc) (ha : k.pcb p = some a)
    (hinit : a.kernelContextInitialized = true) (ha' : k'.pcb p = some a') :
    a'.life = a.life := by
  have hkeep : ∀ {s : Sched}, SameContexts k.toSched s → ∀ {b}, s.pcb p = some b →
      b.life = a.life := by
    intro s hs b hb
    obtain ⟨a₀, ha₀, hlife⟩ := hs.pcb p b hb
    rw [ha] at ha₀
    cases ha₀
    exact hlife.symm
  cases h with
  | ret result contexts store buffers => exact hkeep contexts ha'
  | back outside contexts mode buffers => exact hkeep contexts ha'
  | @switch s _ _ _ context run contexts buffers =>
      rw [Kernel.switchToNextProc_sched run] at ha'
      -- The PCB before the switch.
      obtain ⟨b, hb, -⟩ := Option.map_eq_some_iff.mp
        ((Sched.switchToNextProc_pcb s _ p).symm.trans ha')
      have hlife := hkeep contexts hb
      have hinit' : b.kernelContextInitialized = true := (congrArg Prod.fst hlife).trans hinit
      have hp' : p ≠ s.currentProc := by rwa [contexts.currentProc]
      exact (Sched.switchToNextProc_life hp' hb hinit' ha').trans hlife

/-- The PCBs after a fork. -/
theorem Kernel.forked_pcb {m : Machine} (hp : p ≠ k.nextPid) (ha' : (k.forked m).pcb p = some a') :
    ∃ a, k.pcb p = some a ∧ a.life = a'.life := by
  simp only [Kernel.forked, Sched.addChild, Sched.ready, Sched.observe, Sched.updCurrent,
    Sched.updPcb_pcb, Kernel.withSched, Kernel.setSpace, Kernel.saveUserContext,
    Nat.add_sub_cancel, hp, if_false] at ha'
  obtain ⟨a, ha, rfl⟩ := Option.map_eq_some_iff.mp ha'
  refine ⟨a, ha, ?_⟩
  split <;> rfl

/-- A fork fails, or switches to the child. -/
theorem Kernel.kernelFork_cases (h : k.kernelFork = .ok k') :
    (∃ m, k' = k.afterFailedFork m) ∨
      ∃ m, (k.machine.newPageTables k.nextPid).1 ≠ ERROR ∧
        (k.machine.newPageTables k.nextPid).2.copyRegion1PageTableAndData k.currentProc
          k.nextPid = .ok (SUCCESS, m) ∧
        (k.forked m).switchToProc k.nextPid (.kernelFork k.nextPid) = .ok k' := by
  rw [Kernel.kernelFork_eq] at h
  rcases ite_eq_ok h with ⟨-, h⟩ | ⟨hnew, h⟩
  · exact .inl ⟨_, (Except.ok.inj h).symm⟩
  · obtain ⟨⟨rc, m⟩, hcopy, h⟩ := bind_eq_ok.mp h
    rcases ite_eq_ok h with ⟨-, h⟩ | ⟨hrc, h⟩
    · exact .inl ⟨_, (Except.ok.inj h).symm⟩
    · obtain rfl := (Machine.copyRegion1_result hcopy).resolve_left hrc
      exact .inr ⟨m, hnew, hcopy, h⟩

/-- What `KernelExit` does before the switch. -/
theorem Kernel.kernelExit_cases {status : Int} (hrun : k.toSched.Running)
    (hcur : k.currentProc ≠ IDLE_PID) (h : k.kernelExit status = .ok k') :
    ∃ k₁ : Kernel, k₁.switchToNextProc .kernelExit = .ok k' ∧
      k₁.currentProc = k.currentProc ∧ k₁.exited k.currentProc = true ∧
      (∀ p a', k₁.pcb p = some a' → ∃ a, k.pcb p = some a ∧ a.life = a'.life) ∧
      k₁.machine = (k.machine.freeRegion1PageTable k.currentProc).freeRegion0StackPages
        k.currentProc ∧
      k₁.space = k.space := by
  obtain ⟨k₁, hs, hmachine, hspace, -, hswitch⟩ := Kernel.kernelExit_eq_ok h
  suffices h : k₁.currentProc = k.currentProc ∧ k₁.exited k.currentProc = true ∧
      ∀ p a', k₁.pcb p = some a' → ∃ a, k.pcb p = some a ∧ a.life = a'.life from
    ⟨k₁, hswitch, h.1, h.2.1, h.2.2, hmachine, hspace⟩
  generalize k₁.toSched = s at hs
  unfold Sched.kernelExit at hs
  rcases ite_eq_ok hs with ⟨-, hs⟩ | ⟨-, hs⟩
  · cases hs
  obtain ⟨s₁, hrelease, hret⟩ := bind_eq_ok.mp hs
  cases hret
  obtain ⟨hrun₁, hl₁⟩ := hrun.releaseOwnedLocks hrelease
  have hcur₁ : s₁.currentProc ≠ IDLE_PID := by rwa [hl₁.currentProc]
  obtain ⟨-, hexited, hcur₂⟩ := hrun₁.leaveFamily hcur₁ status
  refine ⟨hcur₂.trans hl₁.currentProc, ?_, fun p a' ha' => ?_⟩
  · rwa [hcur₂, hl₁.currentProc] at hexited
  · obtain ⟨a₁, ha₁, hcore⟩ := Sched.leaveFamily_sameCores s₁ status p a' ha'
    obtain ⟨a, ha, hlife⟩ := hl₁.contexts.pcb p a₁ ha₁
    exact ⟨a, ha, hlife.trans (congrArg Prod.fst hcore)⟩

/-- No step changes where a process goes on that does not run. -/
theorem Step.life {e : Event} (hrun : k.toSched.Running) (hstep : Step k e k')
    (hp : p ≠ k.currentProc) (ha : k.pcb p = some a)
    (hinit : a.kernelContextInitialized = true) (ha' : k'.pcb p = some a') :
    a'.life = a.life := by
  have hsame : ∀ {s : Sched}, s.pcb = k.pcb → s.pcb p = some a' → a'.life = a.life := by
    intro s hs hb
    rw [hs, ha] at hb
    cases hb
    rfl
  -- Before a switch every PCB is what it was.
  have hswitch : ∀ {s : Sched} {c : KernelContext}, s.currentProc = k.currentProc →
      (∀ b', s.pcb p = some b' → ∃ b, k.pcb p = some b ∧ b.life = b'.life) →
      (s.switchToNextProc c).pcb p = some a' → a'.life = a.life := by
    intro s c hcur hs hb
    obtain ⟨b', hb', -⟩ := Option.map_eq_some_iff.mp
      ((Sched.switchToNextProc_pcb s c p).symm.trans hb)
    obtain ⟨b, hb₀, hlife⟩ := hs b' hb'
    rw [ha] at hb₀
    cases hb₀
    have hinit' : b'.kernelContextInitialized = true := (congrArg Prod.fst hlife).symm.trans hinit
    exact (Sched.switchToNextProc_life (by rwa [hcur]) hb' hinit' hb).trans hlife.symm
  have hexit : ∀ {k₀ : Kernel} {status : Int}, k₀.kernelExit status = .ok k' →
      k₀.toSched = k.toSched → k.currentProc ≠ IDLE_PID → a'.life = a.life := by
    intro k₀ status hok hk₀ hidle
    obtain ⟨k₁, hsw, hcur, -, hlife, -, -⟩ := Kernel.kernelExit_cases (by rwa [hk₀])
      (by rwa [hk₀]) hok
    rw [Kernel.switchToNextProc_sched hsw] at ha'
    rw [hk₀] at hcur hlife
    exact hswitch hcur (hlife p) ha'
  have hturn : ∀ {suspends : KernelContext → Prop} {returns : Int → Prop} {k₀ : Kernel},
      Turn suspends returns k₀ k' → k₀.toSched = k.toSched → a'.life = a.life := by
    intro suspends returns k₀ h hk₀
    exact h.life (by rwa [hk₀]) (by rwa [hk₀]) hinit ha'
  cases hstep with
  | @trap _ uc env mode idle run =>
      have hidle : ¬ IsDeviceTrap uc.vector → k.currentProc ≠ IDLE_PID :=
        fun hdev hcur => hdev (idle hcur)
      cases Kernel.trap_effect (k := { k with userContext := uc }) hrun mode run with
      | turn turn => exact hturn turn rfl
      | fork call run =>
          have hchild : p ≠ k.nextPid := by
            rintro rfl
            exact Nat.lt_irrefl _ (hrun.pcbLt k.nextPid (by rw [ha]; rfl))
          rcases Kernel.kernelFork_cases run with ⟨m, rfl⟩ | ⟨m, -, -, hsw⟩
          · exact hsame rfl ha'
          · rw [Kernel.switchToProc_sched hsw, Sched.switchToProc_pcb] at ha'
            obtain ⟨b', hb', rfl⟩ := Option.map_eq_some_iff.mp ha'
            obtain ⟨b, hb, hlife⟩ := Kernel.forked_pcb (k := { k with userContext := uc }) hchild hb'
            have hb₀ : k.pcb p = some b := hb
            rw [ha] at hb₀
            cases hb₀
            have hcur : p ≠ (({ k with userContext := uc } : Kernel).forked m).currentProc := hp
            simp only [PCB.life, hcur, hchild, false_and, or_false, if_false, decide_false,
              Bool.or_false]
            exact hlife.symm
      | exec call run ret =>
          have hs := Kernel.kernelExec_sched run
          rw [ret] at ha'
          exact hsame (congrArg Sched.pcb hs) ha'
      | brk call run ret =>
          have hs := Kernel.kernelBrk_sched run
          rw [ret] at ha'
          exact hsame (congrArg Sched.pcb hs) ha'
      | grow vector grows run back =>
          rw [back] at ha'
          exact hsame rfl ha'
      | outOfFrames vector grows run fatal => exact hturn (Kernel.fatal_turn fatal) rfl
      | exit vector run => exact hexit run rfl (hidle vector)
  | resume mode run =>
      rcases Kernel.resume_effect mode run with turn | ⟨hc, hexit'⟩
      · exact hturn turn rfl
      · exact hexit hexit' rfl (hrun.ne_idle ⟨mode, hc⟩ (by simp))
  | userLoad | userStore | cachedStore => exact hsame rfl ha'
  | setKernelBrk run => exact hsame rfl ha'

end

end Theynix
