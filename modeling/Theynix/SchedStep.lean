import Theynix.Boot

/-!
# `Theynix.SchedStep`: what one step does to the scheduler

`SchedStep s s'` lists, one constructor per path through the kernel, everything a step can
do to the state without memory. `Step.sched` says that the list is complete: every step of
the kernel is one of them. The invariants of queues, locks, terminals and pipes are proved
by cases on `SchedStep` and never look at the system calls again.
-/

set_option autoImplicit false

namespace Theynix

open Theynix.Lib (bind_eq_ok ite_eq_ok)

namespace Sched

/-- A user process, not idle, is running. -/
def Calls (s : Sched) : Prop := s.mode = .user ∧ s.currentProc ≠ IDLE_PID

/-- The current process has been switched to and goes on in `context`. -/
def ResumesIn (s : Sched) (context : KernelContext) : Prop :=
  s.mode = .kernel ∧ ((s.pcb s.currentProc).getD {}).kernelContext = context

/-- The kernel returns to user mode. -/
def toUser (s : Sched) : Sched := { s with mode := .user }

/-- The contexts after which the kernel only returns a value. -/
inductive ReturnsOnly : KernelContext → Prop
  | trapClock : ReturnsOnly .trapClock
  | kernelFork (childPid : Pid) : ReturnsOnly (.kernelFork childPid)
  | kernelDelay : ReturnsOnly .kernelDelay
  | kernelTtyRead (buf : Nat) : ReturnsOnly (.kernelTtyRead buf)
  | kernelTtyWrite (len : Nat) : ReturnsOnly (.kernelTtyWrite len)

/-- The contexts in which `KernelTtyWriteInternal` suspends a process. -/
inductive TransmitContext : KernelContext → Prop
  | kernelTtyWrite (len : Nat) : TransmitContext (.kernelTtyWrite len)
  | fatalTrap : TransmitContext .fatalTrap
  | protectionTrap : TransmitContext .protectionTrap

/-- The loop of `KernelPipeRead` runs for `len` bytes: the system call has just been made,
or the process was woken. -/
def ReadsPipe (s : Sched) (pipeId buf len : Nat) : Prop :=
  s.Calls ∧ pipeId ∈ s.pipes ∧ 0 < len ∨ s.ResumesIn (.kernelPipeRead pipeId buf len)

/-- `KernelAcquire` runs: for a system call, or at the end of `KernelCvarWait`. -/
def Acquires (s : Sched) (lockId : Nat) : Prop :=
  s.Calls ∨ s.ResumesIn (.kernelCvarWait lockId)

end Sched

namespace Sched

/-! ## Looking an object up -/

theorem mem_of_findLock {s : Sched} {lockId : Nat} {l : Lock} (h : s.findLock lockId = some l) :
    lockId ∈ s.locks ∧ s.lock lockId = some l := by
  unfold findLock at h
  split at h
  · exact ⟨‹_›, h⟩
  · cases h

theorem mem_of_findCvar {s : Sched} {cvarId : Nat} {c : CVar} (h : s.findCvar cvarId = some c) :
    cvarId ∈ s.cvars ∧ s.cvar cvarId = some c := by
  unfold findCvar at h
  split at h
  · exact ⟨‹_›, h⟩
  · cases h

theorem mem_of_findPipe {s : Sched} {pipeId : Nat} {p : Pipe}
    (h : s.findPipe pipeId = some p) : pipeId ∈ s.pipes ∧ s.pipe pipeId = some p := by
  unfold findPipe at h
  split at h
  · exact ⟨‹_›, h⟩
  · cases h

/-! ## What a release does -/

/-- The cases of `KernelRelease`: it fails, makes the lock available, or hands it over. -/
inductive Releases (s : Sched) (lockId : Nat) : Int → Sched → Prop
  | error : Releases s lockId ERROR s
  | available {lock : Lock} {pcb : PCB} (found : s.findLock lockId = some lock)
      (acquired : lock.acquired = true) (owner : lock.ownerId = s.currentProc)
      (current : s.pcb s.currentProc = some pcb) (owned : lockId ∈ pcb.ownedLockIds)
      (waiting : lock.waitingProcs = []) :
      Releases s lockId SUCCESS ((s.disown lockId).makeAvailable lockId)
  | handOver {lock : Lock} {pcb : PCB} {proc : Pid} {rest : List Pid}
      (found : s.findLock lockId = some lock)
      (acquired : lock.acquired = true) (owner : lock.ownerId = s.currentProc)
      (current : s.pcb s.currentProc = some pcb) (owned : lockId ∈ pcb.ownedLockIds)
      (waiting : lock.waitingProcs = proc :: rest) :
      Releases s lockId SUCCESS ((s.disown lockId).handOver lockId proc rest)

theorem kernelRelease_cases {s s' : Sched} {lockId : Nat} {rc : Int}
    (h : s.kernelRelease lockId = .ok (rc, s')) : s.Releases lockId rc s' := by
  unfold kernelRelease at h
  split at h
  · cases h
    exact .error
  rename_i lock hfound
  rcases ite_eq_ok h with ⟨-, h⟩ | ⟨hheld, h⟩
  · cases h
    exact .error
  simp only [Bool.or_eq_true, Bool.not_eq_true', bne_iff_ne, ne_eq, not_or, Bool.not_eq_false,
    not_not] at hheld
  obtain ⟨_, hassert, h⟩ := bind_eq_ok.mp h
  cases hpcb : s.pcb s.currentProc with
  | none => simp [hpcb, cAssert] at hassert
  | some pcb =>
      have howned : lockId ∈ pcb.ownedLockIds := by
        simp only [hpcb, cAssert] at hassert
        split at hassert
        · rename_i hmem
          simpa using hmem
        · cases hassert
      dsimp only at h
      split at h
      · rename_i hw
        cases h
        exact .available hfound hheld.1 hheld.2 hpcb howned hw
      · rename_i hw
        cases h
        exact .handOver hfound hheld.1 hheld.2 hpcb howned hw

/-! ## What a trap of a terminal does that has transmitted -/

/-- The first process of `waiting_to_transmit` has more than a line left to transmit. -/
def advanceTransmit (s : Sched) (ttyId : Nat) (proc : Pid) : Sched :=
  (s.observe (.ttyTransmitted ttyId)).updPcb proc fun p =>
    { p with
      ttyTransmitPointer := p.ttyTransmitPointer + TERMINAL_MAX_LINE
      ttyTransmitLen := p.ttyTransmitLen - TERMINAL_MAX_LINE }

/-- The first process of `waiting_to_transmit`, before `rest`, has transmitted everything. -/
def finishTransmit (s : Sched) (ttyId : Nat) (proc : Pid) (rest : List Pid) : Sched :=
  (((s.observe (.ttyTransmitted ttyId)).updTty ttyId fun t =>
    { t with waitingToTransmit := rest }).ready proc).observe (.ttyFinished ttyId proc)

/-- The cases of `TrapTtyTransmit`: the first process goes on, it is the last one and done,
or it is done and the next one begins. -/
inductive Transmits (s : Sched) (ttyId : Nat) : Sched → Prop
  | advance {proc : Pid} {rest : List Pid} {pcb : PCB}
      (waiting : (s.ttys ttyId).waitingToTransmit = proc :: rest) (first : s.pcb proc = some pcb)
      (long : pcb.ttyTransmitLen > TERMINAL_MAX_LINE) :
      Transmits s ttyId ((s.advanceTransmit ttyId proc).transmitNext ttyId proc)
  | last {proc : Pid} {pcb : PCB} (waiting : (s.ttys ttyId).waitingToTransmit = [proc])
      (first : s.pcb proc = some pcb) (short : pcb.ttyTransmitLen ≤ TERMINAL_MAX_LINE) :
      Transmits s ttyId (s.finishTransmit ttyId proc [])
  | finish {proc next : Pid} {rest : List Pid} {pcb : PCB}
      (waiting : (s.ttys ttyId).waitingToTransmit = proc :: next :: rest)
      (first : s.pcb proc = some pcb) (short : pcb.ttyTransmitLen ≤ TERMINAL_MAX_LINE) :
      Transmits s ttyId ((s.finishTransmit ttyId proc (next :: rest)).transmitNext ttyId next)

theorem trapTtyTransmit_cases {s s' : Sched} {ttyId : Nat}
    (h : s.trapTtyTransmit ttyId = .ok s') : s.Transmits ttyId s' := by
  unfold trapTtyTransmit at h
  rcases ite_eq_ok h with ⟨-, h⟩ | ⟨-, h⟩
  · cases h
  dsimp only at h
  split at h
  · cases h
  rename_i proc rest hw
  split at h
  · cases h
  rename_i pcb hpcb
  rcases ite_eq_ok h with ⟨hlen, h⟩ | ⟨hlen, h⟩
  · cases h
    exact .advance hw hpcb hlen
  · split at h <;> cases h
    · exact .last hw hpcb (Nat.not_lt.mp hlen)
    · exact .finish hw hpcb (Nat.not_lt.mp hlen)

end Sched

open Sched

/-- What a step comes from, where what it does depends on it. -/
inductive Cause
  /-- `KernelTtyRead` of `len` bytes. -/
  | readsLine (ttyId len : Nat)
  /-- `KernelPipeWrite` of `len` bytes. -/
  | writesPipe (pipeId len : Nat)
  /-- `TrapClock`, with what `ListMap` finds in the freed nodes. -/
  | clock (afterFree : List FreedNext)
  /-- `TrapTtyTransmit`. -/
  | transmitted (ttyId : Nat)
  /-- `TrapTtyRecieve`, with what the terminal delivers. -/
  | received (ttyId : Nat) (input : List Byte)
  | other

/-- The cause of a `KernelTtyRead`. One that fails a check has no effect that depends on it. -/
def Kernel.ttyReadCause (k : Kernel) (ttyId : Int) (buf : Nat) (len : Int) : Cause :=
  if ttyId < 0 ∨ ttyId ≥ NUM_TERMINALS then .other
  else if len < 0 then .other
  else if !k.validateUserArg buf len PROT_WRITE then .other
  else .readsLine ttyId.toNat len.toNat

/-- The cause of a `KernelPipeWrite`. -/
def Kernel.pipeWriteCause (k : Kernel) (pipeId buf : Nat) (len : Int) : Cause :=
  if len < 0 then .other
  else if len = 0 then .other
  else if !k.validateUserArg buf len PROT_READ then .other
  else if (k.findPipe pipeId).isNone then .other
  else .writesPipe pipeId len.toNat

/-- The cause of a system call. -/
def Kernel.callCause (k : Kernel) : Cause :=
  let reg := k.userContext.regs
  if k.userContext.code = YALNIX_TTY_READ then
    k.ttyReadCause (asInt (reg 0)) (reg 1) (asInt (reg 2))
  else if k.userContext.code = YALNIX_PIPE_WRITE then
    k.pipeWriteCause (reg 0) (reg 1) (asInt (reg 2))
  else .other

/-- The cause of the step on an event. -/
def Kernel.cause (k : Kernel) : Event → Cause
  | .trap uc env =>
    if uc.vector = TRAP_KERNEL then { k with userContext := uc }.callCause
    else if uc.vector = TRAP_CLOCK then .clock env.afterFree
    else if uc.vector = TRAP_TTY_TRANSMIT then .transmitted uc.code
    else if uc.vector = TRAP_TTY_RECEIVE then .received uc.code env.ttyInput
    else .other
  | _ => .other

/-- What one step can do to the scheduler. -/
inductive SchedStep (s : Sched) (c : Cause) : Sched → Prop
  /-- A step of memory only, or a system call that returns at once. -/
  | quiet : SchedStep s c s
  | finish {context : KernelContext} (entry : s.ResumesIn context)
      (returns : ReturnsOnly context) : SchedStep s c s.toUser
  | forkFailed (calls : s.Calls) :
      SchedStep s c ({ s with nextPid := s.nextPid + 1 } : Sched).toUser
  | fork (calls : s.Calls) :
      SchedStep s c (((({ s with nextPid := s.nextPid + 1 } : Sched).addChild s.nextPid).ready
        s.currentProc).switchToProc s.nextPid (.kernelFork s.nextPid))
  | exit {status : Int} {s₁ : Sched} (entry : s.Calls ∨ s.ResumesIn .fatalTrap)
      (run : s.kernelExit status = .ok s₁) : SchedStep s c (s₁.switchToNextProc .kernelExit)
  | collect {pcb childPcb : PCB} {child : Pid} {rest : List Pid}
      (entry : s.Calls ∨ ∃ statusPtr, s.ResumesIn (.kernelWait statusPtr))
      (current : s.pcb s.currentProc = some pcb) (zombies : pcb.zombieChildren = child :: rest)
      (zombie : s.pcb child = some childPcb) :
      SchedStep s c (((s.updCurrent fun p => { p with zombieChildren := rest }).freePcb
        child).observe (.waited s.currentProc child childPcb.exitStatus)).toUser
  | wait {pcb : PCB} {statusPtr : Nat} (calls : s.Calls)
      (current : s.pcb s.currentProc = some pcb) (zombies : pcb.zombieChildren = [])
      (children : pcb.liveChildren ≠ []) :
      SchedStep s c ((s.updCurrent fun p =>
        { p with waitingOnChildren := true }).switchToNextProc (.kernelWait statusPtr))
  | delay {clockTicks : Int} (calls : s.Calls) (positive : 0 < clockTicks) :
      SchedStep s c ((s.enqueueForClock clockTicks).switchToNextProc .kernelDelay)
  | clock {afterFree : List FreedNext} {s₁ : Sched} (cause : c = .clock afterFree)
      (mode : s.mode = .user) (run : s.trapClock afterFree = .ok s₁) :
      SchedStep s c (s₁.switchToNextProc .trapClock)
  | consumeLine {ttyId len : Nat} {lb : LineBuffer} {rest : List LineBuffer}
      (cause : c = .readsLine ttyId len) (behind : List Byte) (calls : s.Calls)
      (lines : (s.ttys ttyId).lineBuffers = lb :: rest) :
      SchedStep s c ((s.updTty ttyId fun t =>
        { t with lineBuffers := (lb.afterRead len).1.toList ++ rest }).observe
          (.ttyServed ttyId s.currentProc
            (((lb.buffer ++ behind).take len).take (lb.afterRead len).2))).toUser
  | ttyReadBlock {ttyId len buf : Nat} (cause : c = .readsLine ttyId len) (calls : s.Calls)
      (lines : (s.ttys ttyId).lineBuffers = []) :
      SchedStep s c ((s.enqueueToReceive ttyId len).switchToNextProc (.kernelTtyRead buf))
  | ttyReceive {ttyId : Nat} {input : List Byte} {s' : Sched}
      (cause : c = .received ttyId input) (mode : s.mode = .user)
      (run : s.trapTtyRecieve ttyId input = .ok s') : SchedStep s c s'
  | ttyWrite {ttyId : Nat} {bytes : List Byte} {context : KernelContext} (calls : s.Calls)
      (transmits : TransmitContext context) :
      SchedStep s c ((s.enqueueToTransmit ttyId bytes).switchToNextProc context)
  | ttyTransmit {ttyId : Nat} {s' : Sched} (cause : c = .transmitted ttyId)
      (mode : s.mode = .user) (run : s.trapTtyTransmit ttyId = .ok s') : SchedStep s c s'
  | pipeInit (calls : s.Calls) : SchedStep s c s.pipeNewPipe.toUser
  | lockInit (calls : s.Calls) : SchedStep s c s.lockNewLock.toUser
  | cvarInit (calls : s.Calls) : SchedStep s c s.cVarNewCVar.toUser
  | pipeReadBlock {pipeId buf len : Nat} {p : Pipe} (reads : s.ReadsPipe pipeId buf len)
      (pipe : s.pipe pipeId = some p) (short : p.numCharsAvailable < len) :
      SchedStep s c ((s.updPipe pipeId fun p =>
        { p with waitingToRead := p.waitingToRead ++ [(len, s.currentProc)] }).switchToNextProc
          (.kernelPipeRead pipeId buf len))
  | pipeRead {pipeId buf len : Nat} {p p' : Pipe} {bytes : List Byte}
      (reads : s.ReadsPipe pipeId buf len) (pipe : s.pipe pipeId = some p)
      (run : p.pipeCopyIntoUserBuffer len = .ok (bytes, p')) :
      SchedStep s c ((s.updPipe pipeId fun _ => p').observe
        (.pipeRead pipeId s.currentProc len bytes)).toUser
  | pipeWrite {pipeId : Nat} {p p' : Pipe} {bytes : List Byte}
      (cause : c = .writesPipe pipeId bytes.length) (calls : s.Calls)
      (pipe : s.findPipe pipeId = some p) (run : p.write bytes = .ok p') :
      SchedStep s c (s.afterPipeWrite pipeId p' bytes).toUser
  | acquireOwned {lockId : Nat} {lock : Lock} (acquires : s.Acquires lockId)
      (found : s.findLock lockId = some lock) (acquired : lock.acquired = true)
      (owner : lock.ownerId = s.currentProc) :
      SchedStep s c (s.observe (.lockReturned lockId s.currentProc)).toUser
  | acquireFree {lockId : Nat} {lock : Lock} (acquires : s.Acquires lockId)
      (found : s.findLock lockId = some lock) (free : lock.acquired = false) :
      SchedStep s c ((s.takeLock lockId).observe (.lockReturned lockId s.currentProc)).toUser
  | acquireBlock {lockId : Nat} {lock : Lock} (acquires : s.Acquires lockId)
      (found : s.findLock lockId = some lock) (acquired : lock.acquired = true)
      (owner : lock.ownerId ≠ s.currentProc) :
      SchedStep s c ((s.enqueueForLock lockId).switchToNextProc (.kernelAcquire lockId))
  | acquireMissing {lockId : Nat} (entry : s.ResumesIn (.kernelCvarWait lockId))
      (missing : s.findLock lockId = none) : SchedStep s c s.toUser
  | acquireReturn {lockId : Nat} {lock : Lock} (entry : s.ResumesIn (.kernelAcquire lockId))
      (found : s.lock lockId = some lock) (owner : lock.ownerId = s.currentProc)
      (acquired : lock.acquired = true) :
      SchedStep s c (s.observe (.lockReturned lockId s.currentProc)).toUser
  | release {lockId : Nat} {rc : Int} {s' : Sched} (calls : s.Calls)
      (run : s.kernelRelease lockId = .ok (rc, s')) : SchedStep s c s'.toUser
  | cvarSignal {cvarId : Nat} (calls : s.Calls) : SchedStep s c (s.kernelCvarSignal cvarId).2.toUser
  | cvarBroadcast {cvarId : Nat} (calls : s.Calls) :
      SchedStep s c (s.kernelCvarBroadcast cvarId).2.toUser
  | cvarWait {cvarId lockId : Nat} {cvar : CVar} {rc : Int} {s₁ : Sched} (calls : s.Calls)
      (found : s.findCvar cvarId = some cvar) (run : s.kernelRelease lockId = .ok (rc, s₁))
      (released : rc ≠ ERROR) :
      SchedStep s c ((s₁.enqueueForCvar cvarId).switchToNextProc (.kernelCvarWait lockId))
  | reclaim {id : Nat} (calls : s.Calls) : SchedStep s c (s.kernelReclaim id).2.toUser

/-! ## Rules for the loops

Each rule says that what one iteration keeps, the loop keeps. The predicate may speak of
the processes that are still to be visited. -/

section
variable {s s' : Sched}

/-- What holds at the end of the walk of `TrapClock` holds with some processes left. -/
theorem Sched.mapTicks_rule {P : List Pid → Sched → Prop}
    (tick : ∀ s proc rest, P (proc :: rest) s → P rest (s.decrementTicksRemaining proc).2)
    {procs : List Pid} {afterFree : List FreedNext} (start : P procs s)
    (h : s.mapTicks procs afterFree = .ok s') : ∃ left, P left s' := by
  induction procs generalizing s afterFree with
  | nil =>
      cases h
      exact ⟨[], start⟩
  | cons proc rest ih =>
      have hnext := tick s proc rest start
      unfold mapTicks at h
      dsimp only at h
      split at h
      · split at h
        · exact ih hnext h
        · exact ih hnext h
        · cases h
          exact ⟨rest, hnext⟩
        · cases h
      · exact ih hnext h

theorem Sched.serveReaders_rule {ttyId : Nat} {P : List Pid → List Byte → Sched → Prop}
    (serve : ∀ (s : Sched) proc rest input pcb buffer, P (proc :: rest) input s → input ≠ [] →
      s.pcb proc = some pcb → pcb.ttyReceiveBuffer = some buffer →
      P rest (input.drop pcb.ttyReceiveLen) (s.serveReader ttyId proc rest pcb buffer input))
    {procs : List Pid} {input left : List Byte} (start : P procs input s)
    (h : s.serveReaders ttyId procs input = .ok (left, s')) :
    ∃ procs', P procs' left s' ∧ (procs' = [] ∨ left = []) := by
  induction procs generalizing s input with
  | nil =>
      cases h
      exact ⟨[], start, .inl rfl⟩
  | cons proc rest ih =>
      unfold serveReaders at h
      split at h
      · rename_i hinput
        cases h
        exact ⟨_, start, .inr hinput⟩
      · rename_i hinput
        split at h
        · cases h
        · rename_i pcb hpcb
          split at h
          · cases h
          · rename_i buffer hbuffer
            exact ih (serve s proc rest input pcb buffer start hinput hpcb hbuffer) h

theorem Sched.releaseOwnedLocks_rule {P : Sched → Prop}
    (release : ∀ s lockId rc s', P s → s.kernelRelease lockId = .ok (rc, s') → P s')
    {fuel : Nat} (start : P s) (h : s.releaseOwnedLocks fuel = .ok s') : P s' := by
  induction fuel generalizing s with
  | zero =>
      unfold releaseOwnedLocks at h
      split at h
      · cases h
      · cases h
        exact start
  | succ fuel ih =>
      unfold releaseOwnedLocks at h
      split at h
      · obtain ⟨⟨rc, s₁⟩, hrelease, hrest⟩ := bind_eq_ok.mp h
        exact ih (release _ _ _ _ start hrelease) hrest
      · cases h
        exact start

end

/-! ## Every step is one of these -/

section
variable {k k' : Kernel} {c : Cause}

theorem Kernel.switchToProc_sched {next : Pid} {context : KernelContext}
    (h : k.switchToProc next context = .ok k') :
    k'.toSched = k.toSched.switchToProc next context := by
  unfold Kernel.switchToProc at h
  cases hnext : k.pcb next with
  | none => simp [hnext] at h
  | some pcb =>
      simp only [hnext] at h
      split at h
      · cases h
        rfl
      · obtain ⟨m, -, hret⟩ := bind_eq_ok.mp h
        cases hret
        rfl

theorem Kernel.switchToNextProc_sched {context : KernelContext}
    (h : k.switchToNextProc context = .ok k') :
    k'.toSched = k.toSched.switchToNextProc context := by
  unfold Kernel.switchToNextProc at h
  unfold Sched.switchToNextProc
  cases hq : k.readyQueue with
  | nil =>
      simp only [hq] at h
      exact Kernel.switchToProc_sched h
  | cons next rest =>
      simp only [hq] at h
      exact Kernel.switchToProc_sched h

theorem Sched.toUser_eq {s : Sched} (mode : s.mode = .user) : s.toUser = s := by
  unfold Sched.toUser
  rw [← mode]

/-- Returning from a system call that changed nothing. -/
theorem SchedStep.ret (calls : k.toSched.Calls) (rc : Int) :
    SchedStep k.toSched c (k.ret rc).toSched := by
  have hsame : (k.ret rc).toSched = k.toSched := Sched.toUser_eq calls.1
  rw [hsame]
  exact .quiet

theorem Sched.currentPcb_of_ne_nil {α : Type} {f : PCB → List α} (hf : f {} = [])
    (h : f k.currentPcb ≠ []) : k.pcb k.currentProc = some k.currentPcb := by
  unfold Kernel.currentPcb at h ⊢
  cases hp : k.pcb k.currentProc with
  | none => simp [hp, hf] at h
  | some pcb => rfl

theorem Kernel.kernelFork_sched (calls : k.toSched.Calls) (h : k.kernelFork = .ok k') :
    SchedStep k.toSched c k'.toSched := by
  unfold Kernel.kernelFork at h
  dsimp only at h
  split at h
  · cases h
    exact .forkFailed calls
  obtain ⟨⟨rc, m⟩, -, hrest⟩ := bind_eq_ok.mp h
  dsimp only at hrest
  split at hrest
  · cases hrest
    exact .forkFailed calls
  · rw [Kernel.switchToProc_sched hrest]
    exact .fork calls

theorem Kernel.kernelExec_sched {filename argvec : Nat} {env : Env} {rc : Int}
    (h : k.kernelExec filename argvec env = .ok (rc, k')) : k'.toSched = k.toSched := by
  obtain ⟨prepared, -, hrest⟩ := bind_eq_ok.mp h
  cases prepared with
  | none =>
      cases hrest
      rfl
  | some prepared =>
      obtain ⟨r, -, hrest⟩ := bind_eq_ok.mp hrest
      dsimp only at hrest
      split at hrest <;> cases hrest <;> rfl

theorem Kernel.kernelBrk_sched {addr : Nat} {rc : Int} (h : k.kernelBrk addr = .ok (rc, k')) :
    k'.toSched = k.toSched := by
  unfold Kernel.kernelBrk at h
  dsimp only at h
  split at h
  · cases h
    rfl
  split at h
  · obtain ⟨⟨rc₁, m⟩, -, hrest⟩ := bind_eq_ok.mp h
    dsimp only at hrest
    split at hrest <;> cases hrest <;> rfl
  split at h
  · obtain ⟨m, -, hrest⟩ := bind_eq_ok.mp h
    cases hrest
    rfl
  · cases h
    rfl

/-- The state in which `KernelExit` switches. -/
theorem Kernel.kernelExit_eq_ok {status : Int} (h : k.kernelExit status = .ok k') :
    ∃ k₁ : Kernel, k.toSched.kernelExit status = .ok k₁.toSched ∧
      k₁.machine = (k.machine.freeRegion1PageTable k.currentProc).freeRegion0StackPages
        k.currentProc ∧
      k₁.space = k.space ∧
      k₁.ttyHeap = (k.ttyHeap.free k.currentProc .ttyReceiveBuffer).free k.currentProc
        .ttyTransmitBuffer ∧
      k₁.switchToNextProc .kernelExit = .ok k' := by
  obtain ⟨s, hs, hswitch⟩ := bind_eq_ok.mp h
  dsimp only at hswitch
  generalize (k.machine.freeRegion1PageTable k.currentProc).freeRegion0StackPages
    k.currentProc = m at hswitch
  exact ⟨({ k.withSched s with machine := m } : Kernel).withHeap _, hs, rfl, rfl, rfl, hswitch⟩

theorem Kernel.kernelExit_sched {status : Int}
    (entry : k.toSched.Calls ∨ k.toSched.ResumesIn .fatalTrap)
    (h : k.kernelExit status = .ok k') : SchedStep k.toSched c k'.toSched := by
  obtain ⟨s, hs, hrest⟩ := bind_eq_ok.mp h
  rw [Kernel.switchToNextProc_sched hrest]
  exact .exit entry hs

theorem Kernel.collectZombie_sched {statusPtr : Nat}
    (entry : k.toSched.Calls ∨ ∃ statusPtr, k.toSched.ResumesIn (.kernelWait statusPtr))
    (h : k.collectZombie statusPtr = .ok k') : SchedStep k.toSched c k'.toSched := by
  unfold Kernel.collectZombie at h
  split at h
  case h_1 => cases h
  case h_2 child rest hz =>
      cases hchild : k.pcb child with
      | none => simp [hchild] at h
      | some childPcb =>
          simp only [hchild] at h
          obtain ⟨m, -, hret⟩ := bind_eq_ok.mp h
          cases hret
          exact .collect entry
            (Sched.currentPcb_of_ne_nil (f := PCB.zombieChildren) rfl (by rw [hz]; simp)) hz hchild

theorem Kernel.kernelWait_sched {statusPtr : Nat} (calls : k.toSched.Calls)
    (h : k.kernelWait statusPtr = .ok k') : SchedStep k.toSched c k'.toSched := by
  unfold Kernel.kernelWait at h
  split at h
  · cases h
    exact .ret calls _
  split at h
  · exact Kernel.collectZombie_sched (.inl calls) h
  rename_i hz
  split at h
  · cases h
    exact .ret calls _
  · rename_i hc
    rw [Kernel.switchToNextProc_sched h]
    exact .wait calls (Sched.currentPcb_of_ne_nil (f := PCB.liveChildren) rfl hc)
      (not_not.mp hz) hc

theorem Kernel.kernelDelay_sched {clockTicks : Int} (calls : k.toSched.Calls)
    (h : k.kernelDelay clockTicks = .ok k') : SchedStep k.toSched c k'.toSched := by
  unfold Kernel.kernelDelay at h
  split at h
  · cases h
    exact .ret calls _
  split at h
  · cases h
    exact .ret calls _
  · rw [Kernel.switchToNextProc_sched h]
    exact .delay calls (by omega)

theorem Kernel.kernelTtyRead_sched {ttyId len : Int} {buf : Nat} {env : Env}
    (calls : k.toSched.Calls) (h : k.kernelTtyRead ttyId buf len env = .ok k') :
    SchedStep k.toSched (k.ttyReadCause ttyId buf len) k'.toSched := by
  unfold Kernel.kernelTtyRead at h
  rcases ite_eq_ok h with ⟨-, h⟩ | ⟨hterminal, h⟩
  · cases h
    exact .ret calls _
  rcases ite_eq_ok h with ⟨-, h⟩ | ⟨hlen, h⟩
  · cases h
    exact .ret calls _
  rcases ite_eq_ok h with ⟨-, h⟩ | ⟨hvalid, h⟩
  · cases h
    exact .ret calls _
  have hcause : k.ttyReadCause ttyId buf len = .readsLine ttyId.toNat len.toNat := by
    rw [ttyReadCause, if_neg hterminal, if_neg hlen, if_neg hvalid]
  split at h
  · rename_i hlines
    obtain ⟨m, -, hret⟩ := bind_eq_ok.mp h
    cases hret
    have hstep := SchedStep.consumeLine hcause
      (env.heapBehind ++ List.replicate len.toNat 0) calls hlines
    rw [← List.append_assoc] at hstep
    exact hstep
  · rename_i hlines
    rw [Kernel.switchToNextProc_sched h]
    exact .ttyReadBlock hcause calls hlines

theorem Kernel.kernelTtyWriteInternal_sched {ttyId : Nat} {bytes : List Byte}
    {context : KernelContext} (calls : k.toSched.Calls) (transmits : TransmitContext context)
    (h : k.kernelTtyWriteInternal ttyId bytes context = .ok k') :
    SchedStep k.toSched c k'.toSched := by
  rw [Kernel.switchToNextProc_sched h]
  exact .ttyWrite calls transmits

theorem Kernel.kernelTtyWrite_sched {ttyId len : Int} {buf : Nat} (calls : k.toSched.Calls)
    (h : k.kernelTtyWrite ttyId buf len = .ok k') : SchedStep k.toSched c k'.toSched := by
  unfold Kernel.kernelTtyWrite at h
  split at h
  · cases h
    exact .ret calls _
  split at h
  · cases h
    exact .ret calls _
  split at h
  · cases h
    exact .ret calls _
  · obtain ⟨bytes, -, hrest⟩ := bind_eq_ok.mp h
    exact Kernel.kernelTtyWriteInternal_sched calls (.kernelTtyWrite _) hrest

/-- `KernelPipeInit`, `KernelLockInit` and `KernelCvarInit` make a new object, or nothing. -/
theorem Kernel.storeNewId_sched {s : Sched} {idp : Nat} (h : k.storeNewId s idp = .ok k') :
    k'.toSched = s.toUser := by
  obtain ⟨m, -, hret⟩ := bind_eq_ok.mp h
  cases hret
  rfl

theorem Kernel.kernelPipeInit_sched {idp : Nat} (calls : k.toSched.Calls)
    (h : k.kernelPipeInit idp = .ok k') : SchedStep k.toSched c k'.toSched := by
  unfold Kernel.kernelPipeInit at h
  split at h
  · cases h
    exact .ret calls _
  · rw [Kernel.storeNewId_sched h]
    exact .pipeInit calls

theorem Kernel.kernelLockInit_sched {idp : Nat} (calls : k.toSched.Calls)
    (h : k.kernelLockInit idp = .ok k') : SchedStep k.toSched c k'.toSched := by
  unfold Kernel.kernelLockInit at h
  split at h
  · cases h
    exact .ret calls _
  · rw [Kernel.storeNewId_sched h]
    exact .lockInit calls

theorem Kernel.kernelCvarInit_sched {idp : Nat} (calls : k.toSched.Calls)
    (h : k.kernelCvarInit idp = .ok k') : SchedStep k.toSched c k'.toSched := by
  unfold Kernel.kernelCvarInit at h
  split at h
  · cases h
    exact .ret calls _
  · rw [Kernel.storeNewId_sched h]
    exact .cvarInit calls

theorem Kernel.pipeReadLoop_sched {pipeId buf len : Nat}
    (reads : k.toSched.ReadsPipe pipeId buf len) (h : k.pipeReadLoop pipeId buf len = .ok k') :
    SchedStep k.toSched c k'.toSched := by
  unfold Kernel.pipeReadLoop at h
  cases hp : k.pipe pipeId with
  | none => simp [hp] at h
  | some p =>
      simp only [hp] at h
      split at h
      · rename_i hshort
        rw [Kernel.switchToNextProc_sched h]
        exact .pipeReadBlock reads hp hshort
      · obtain ⟨⟨bytes, p'⟩, hcopy, hrest⟩ := bind_eq_ok.mp h
        obtain ⟨m, -, hret⟩ := bind_eq_ok.mp hrest
        cases hret
        exact .pipeRead reads hp hcopy

theorem Kernel.kernelPipeRead_sched {pipeId buf : Nat} {len : Int} (calls : k.toSched.Calls)
    (h : k.kernelPipeRead pipeId buf len = .ok k') : SchedStep k.toSched c k'.toSched := by
  unfold Kernel.kernelPipeRead at h
  split at h
  · cases h
    exact .ret calls _
  split at h
  · cases h
    exact .ret calls _
  split at h
  · cases h
    exact .ret calls _
  split at h
  · cases h
    exact .ret calls _
  · rename_i hfound
    exact Kernel.pipeReadLoop_sched
      (.inl ⟨calls, (Sched.mem_of_findPipe hfound).1, by omega⟩) h

theorem Machine.loadBytes_length {m : Machine} {va n : Nat} {bytes : List Byte}
    (h : m.loadBytes va n = .ok bytes) : bytes.length = n := by
  induction n generalizing va bytes with
  | zero =>
      cases h
      rfl
  | succ n ih =>
      obtain ⟨b, -, hrest⟩ := bind_eq_ok.mp h
      obtain ⟨bs, hload, hret⟩ := bind_eq_ok.mp hrest
      cases hret
      rw [List.length_cons, ih hload]

theorem Kernel.kernelPipeWrite_sched {pipeId buf : Nat} {len : Int} (calls : k.toSched.Calls)
    (h : k.kernelPipeWrite pipeId buf len = .ok k') :
    SchedStep k.toSched (k.pipeWriteCause pipeId buf len) k'.toSched := by
  unfold Kernel.kernelPipeWrite at h
  rcases ite_eq_ok h with ⟨-, h⟩ | ⟨hneg, h⟩
  · cases h
    exact .ret calls _
  rcases ite_eq_ok h with ⟨-, h⟩ | ⟨hzero, h⟩
  · cases h
    exact .ret calls _
  rcases ite_eq_ok h with ⟨-, h⟩ | ⟨hvalid, h⟩
  · cases h
    exact .ret calls _
  split at h
  · cases h
    exact .ret calls _
  · rename_i p hfound
    obtain ⟨bytes, hload, hrest⟩ := bind_eq_ok.mp h
    obtain ⟨p', hwrite, hret⟩ := bind_eq_ok.mp hrest
    cases hret
    have hcause : k.pipeWriteCause pipeId buf len = .writesPipe pipeId bytes.length := by
      rw [pipeWriteCause, if_neg hneg, if_neg hzero, if_neg hvalid, hfound,
        Machine.loadBytes_length hload]
      rfl
    exact .pipeWrite hcause calls hfound hwrite

theorem Kernel.kernelAcquire_sched {lockId : Nat} (acquires : k.toSched.Acquires lockId)
    (h : k.kernelAcquire lockId = .ok k') : SchedStep k.toSched c k'.toSched := by
  unfold Kernel.kernelAcquire at h
  split at h
  · rename_i hmissing
    cases h
    rcases acquires with calls | entry
    · exact .ret calls _
    · exact .acquireMissing entry hmissing
  · rename_i lock hfound
    split at h
    · rename_i howned
      simp only [Bool.and_eq_true, beq_iff_eq] at howned
      cases h
      exact .acquireOwned acquires hfound howned.1 howned.2
    · rename_i howned
      split at h
      · rename_i hfree
        cases h
        exact .acquireFree acquires hfound (by simpa using hfree)
      · rename_i hfree
        have hacq : lock.acquired = true := by simpa using hfree
        rw [Kernel.switchToNextProc_sched h]
        exact .acquireBlock acquires hfound hacq (by simpa [hacq] using howned)

theorem Kernel.kernelAcquireReturn_sched {lockId : Nat}
    (entry : k.toSched.ResumesIn (.kernelAcquire lockId))
    (h : k.kernelAcquireReturn lockId = .ok k') : SchedStep k.toSched c k'.toSched := by
  unfold Kernel.kernelAcquireReturn at h
  split at h
  · cases h
  · rename_i lock hfound
    obtain ⟨_, howner, hrest⟩ := bind_eq_ok.mp h
    obtain ⟨_, hacq, hrest⟩ := bind_eq_ok.mp hrest
    obtain ⟨_, -, hret⟩ := bind_eq_ok.mp hrest
    cases hret
    exact .acquireReturn entry hfound (beq_iff_eq.mp (cAssert_eq_ok howner)) (cAssert_eq_ok hacq)

/-- A release that fails changes nothing. -/
theorem Sched.kernelRelease_error {s s' : Sched} {lockId : Nat}
    (h : s.kernelRelease lockId = .ok (ERROR, s')) : s' = s := by
  have hcases := Sched.kernelRelease_cases h
  generalize hrc : (ERROR : Int) = rc at hcases
  cases hcases with
  | error => rfl
  | available => cases hrc
  | handOver => cases hrc

theorem Kernel.kernelCvarWait_sched {cvarId lockId : Nat} (calls : k.toSched.Calls)
    (h : k.kernelCvarWait cvarId lockId = .ok k') : SchedStep k.toSched c k'.toSched := by
  unfold Kernel.kernelCvarWait at h
  split at h
  · cases h
    exact .ret calls _
  · rename_i cvar hfound
    obtain ⟨⟨rc, s⟩, hrelease, hrest⟩ := bind_eq_ok.mp h
    dsimp only at hrest
    split at hrest
    · rename_i hrc
      subst hrc
      rw [Sched.kernelRelease_error hrelease] at hrest
      cases hrest
      exact .ret calls _
    · rename_i hrc
      rw [Kernel.switchToNextProc_sched hrest]
      exact .cvarWait calls hfound hrelease hrc

theorem Kernel.fatal_sched {msg : String} (calls : k.toSched.Calls)
    (h : k.fatal msg = .ok k') : SchedStep k.toSched c k'.toSched :=
  Kernel.kernelTtyWriteInternal_sched calls .fatalTrap h

theorem Kernel.trapMemory_sched (calls : k.toSched.Calls) (h : k.trapMemory = .ok k') :
    SchedStep k.toSched c k'.toSched := by
  unfold Kernel.trapMemory at h
  dsimp only at h
  split at h
  · exact Kernel.fatal_sched calls h
  split at h
  · split at h
    · obtain ⟨⟨rc, m⟩, -, hrest⟩ := bind_eq_ok.mp h
      dsimp only at hrest
      split at hrest
      · exact Kernel.fatal_sched (k := { k with machine := m }) calls hrest
      · cases hrest
        exact .quiet
    split at h
    · exact Kernel.fatal_sched calls h
    · exact Kernel.fatal_sched calls h
  · exact Kernel.kernelTtyWriteInternal_sched calls .protectionTrap h

theorem Kernel.trapKernel_sched {env : Env} (calls : k.toSched.Calls)
    (h : k.trapKernel env = .ok k') :
    SchedStep k.toSched k.callCause k'.toSched := by
  have hretOf : ∀ {x : Except Stop (Int × Kernel)},
      (∀ rc k₁, x = .ok (rc, k₁) → k₁.toSched = k.toSched) →
      (x >>= fun r => .ok (r.2.ret r.1)) = .ok k' →
      ∀ {c}, SchedStep k.toSched c k'.toSched := by
    intro x hx hrun c
    obtain ⟨⟨rc, k₁⟩, hr, hret⟩ := bind_eq_ok.mp hrun
    cases hret
    have hs := hx rc k₁ hr
    rw [← hs]
    exact .ret (hs ▸ calls) rc
  unfold Kernel.trapKernel at h
  rcases ite_eq_ok h with ⟨-, h⟩ | ⟨-, h⟩
  · exact Kernel.kernelDelay_sched calls h
  rcases ite_eq_ok h with ⟨-, h⟩ | ⟨-, h⟩
  · exact Kernel.kernelFork_sched calls h
  rcases ite_eq_ok h with ⟨-, h⟩ | ⟨-, h⟩
  · cases h
    exact .ret calls _
  rcases ite_eq_ok h with ⟨-, h⟩ | ⟨-, h⟩
  · exact hretOf (fun _ _ hr => Kernel.kernelExec_sched hr) h
  rcases ite_eq_ok h with ⟨-, h⟩ | ⟨-, h⟩
  · exact Kernel.kernelWait_sched calls h
  rcases ite_eq_ok h with ⟨-, h⟩ | ⟨-, h⟩
  · exact Kernel.kernelExit_sched (.inl calls) h
  rcases ite_eq_ok h with ⟨-, h⟩ | ⟨-, h⟩
  · exact hretOf (fun _ _ hr => Kernel.kernelBrk_sched hr) h
  rcases ite_eq_ok h with ⟨hcode, h⟩ | ⟨-, h⟩
  · rw [Kernel.callCause, if_pos hcode]
    exact Kernel.kernelTtyRead_sched calls h
  rcases ite_eq_ok h with ⟨-, h⟩ | ⟨-, h⟩
  · exact Kernel.kernelTtyWrite_sched calls h
  rcases ite_eq_ok h with ⟨-, h⟩ | ⟨-, h⟩
  · exact Kernel.kernelPipeInit_sched calls h
  rcases ite_eq_ok h with ⟨-, h⟩ | ⟨-, h⟩
  · exact Kernel.kernelPipeRead_sched calls h
  rcases ite_eq_ok h with ⟨hcode, h⟩ | ⟨-, h⟩
  · rw [Kernel.callCause, if_neg (by rw [hcode]; decide), if_pos hcode]
    exact Kernel.kernelPipeWrite_sched calls h
  rcases ite_eq_ok h with ⟨-, h⟩ | ⟨-, h⟩
  · exact Kernel.kernelLockInit_sched calls h
  rcases ite_eq_ok h with ⟨-, h⟩ | ⟨-, h⟩
  · exact Kernel.kernelAcquire_sched (.inl calls) h
  rcases ite_eq_ok h with ⟨-, h⟩ | ⟨-, h⟩
  · obtain ⟨⟨rc, s⟩, hrelease, hret⟩ := bind_eq_ok.mp h
    cases hret
    exact .release calls hrelease
  rcases ite_eq_ok h with ⟨-, h⟩ | ⟨-, h⟩
  · exact Kernel.kernelCvarInit_sched calls h
  rcases ite_eq_ok h with ⟨-, h⟩ | ⟨-, h⟩
  · cases h
    exact .cvarSignal calls
  rcases ite_eq_ok h with ⟨-, h⟩ | ⟨-, h⟩
  · cases h
    exact .cvarBroadcast calls
  rcases ite_eq_ok h with ⟨-, h⟩ | ⟨-, h⟩
  · exact Kernel.kernelCvarWait_sched calls h
  rcases ite_eq_ok h with ⟨-, h⟩ | ⟨-, h⟩
  · cases h
    exact .reclaim calls
  · exact Kernel.kernelExit_sched (.inl calls) h

/-- A trap for a system call. -/
theorem Kernel.trap_call {k : Kernel} {env : Env} (vector : k.userContext.vector = TRAP_KERNEL) :
    k.trap env = k.trapKernel env := by
  rw [Kernel.trap, if_pos vector]

/-- The process has made the system call with this code. -/
def UserContext.Calls (uc : UserContext) (code : Nat) : Prop :=
  uc.vector = TRAP_KERNEL ∧ uc.code = code

instance (uc : UserContext) (code : Nat) : Decidable (uc.Calls code) :=
  inferInstanceAs (Decidable (_ ∧ _))

/-- A system call is made by a process in user mode, not idle, and handled by `TrapKernel`. -/
theorem Step.of_call {uc : UserContext} {env : Env} {code : Nat} (hcall : uc.Calls code)
    (hstep : Step k (.trap uc env) k') :
    k.toSched.Calls ∧ ({ k with userContext := uc } : Kernel).trapKernel env = .ok k' := by
  cases hstep with
  | trap mode idle run =>
      rw [Kernel.trap_call hcall.1] at run
      refine ⟨⟨mode, fun hidle => ?_⟩, run⟩
      have hdevice := idle hidle
      rw [hcall.1] at hdevice
      exact absurd hdevice (by decide)

/-- A step after a switch is what the process does that was switched to. -/
theorem Step.of_resume {context : KernelContext} (hentry : k.toSched.ResumesIn context)
    (hstep : Step k .resume k') :
    k.restoreUserContext.currentPcb.kernelContext = context ∧ k.resume = .ok k' := by
  cases hstep with
  | resume mode run => exact ⟨hentry.2, run⟩

/-- The cause of a system call. -/
theorem Kernel.cause_trap {env : Env} (h : k.userContext.vector = TRAP_KERNEL) :
    k.cause (.trap k.userContext env) = k.callCause :=
  if_pos h

theorem Kernel.trap_sched {env : Env} (mode : k.mode = .user)
    (idle : k.currentProc = IDLE_PID → IsDeviceTrap k.userContext.vector)
    (h : k.trap env = .ok k') :
    SchedStep k.toSched (k.cause (.trap k.userContext env)) k'.toSched := by
  -- A trap that no device raises is raised by a process, which is not idle.
  have hcalls : ¬ IsDeviceTrap k.userContext.vector → k.toSched.Calls := fun hdev =>
    ⟨mode, fun hidle => hdev (idle hidle)⟩
  simp only [IsDeviceTrap, TRAP_CLOCK, TRAP_TTY_RECEIVE, TRAP_TTY_TRANSMIT] at hcalls
  unfold Kernel.trap TRAP_KERNEL TRAP_CLOCK TRAP_ILLEGAL TRAP_MEMORY TRAP_MATH
    TRAP_TTY_RECEIVE TRAP_TTY_TRANSMIT at h
  dsimp only at h
  split at h
  · rename_i hvector
    rw [Kernel.cause_trap hvector]
    exact Kernel.trapKernel_sched (hcalls (by omega)) h
  split at h
  · rename_i hvector
    obtain ⟨s, hs, hrest⟩ := bind_eq_ok.mp h
    rw [Kernel.switchToNextProc_sched hrest]
    exact .clock (by simp [Kernel.cause, hvector]) mode hs
  split at h
  · exact Kernel.fatal_sched (hcalls (by omega)) h
  split at h
  · exact Kernel.trapMemory_sched (hcalls (by omega)) h
  split at h
  · exact Kernel.fatal_sched (hcalls (by omega)) h
  split at h
  · rename_i hvector
    obtain ⟨s, hs, hret⟩ := bind_eq_ok.mp h
    cases hret
    exact .ttyReceive (by simp [Kernel.cause, hvector, TRAP_CLOCK, TRAP_TTY_TRANSMIT]) mode hs
  split at h
  · rename_i hvector
    obtain ⟨s, hs, hret⟩ := bind_eq_ok.mp h
    cases hret
    have hcause : k.cause (.trap k.userContext env) = .transmitted k.userContext.code := by
      rw [Kernel.cause, if_neg (by omega), if_neg (by omega), if_pos hvector]
    exact .ttyTransmit hcause mode hs
  · exact Kernel.kernelExit_sched (.inl (hcalls (by omega))) h

theorem Kernel.resume_sched (mode : k.mode = .kernel) (h : k.resume = .ok k') :
    SchedStep k.toSched c k'.toSched := by
  have hctx : ∀ {c : KernelContext}, k.restoreUserContext.currentPcb.kernelContext = c →
      k.toSched.ResumesIn c := fun hc => ⟨mode, hc⟩
  unfold Kernel.resume at h
  dsimp only at h
  split at h
  · rename_i hc
    cases h
    exact .finish (hctx hc) .trapClock
  · rename_i childPid hc
    split at h <;> cases h <;> exact .finish (hctx hc) (.kernelFork childPid)
  · cases h
  · rename_i hc
    exact Kernel.collectZombie_sched (k := k.restoreUserContext) (.inr ⟨_, hctx hc⟩) h
  · rename_i hc
    cases h
    exact .finish (hctx hc) .kernelDelay
  · rename_i buf hc
    obtain ⟨m, -, hret⟩ := bind_eq_ok.mp h
    cases hret
    exact .finish (hctx hc) (.kernelTtyRead buf)
  · rename_i len hc
    cases h
    exact .finish (hctx hc) (.kernelTtyWrite len)
  · rename_i hc
    exact Kernel.kernelExit_sched (k := k.restoreUserContext) (.inr (hctx hc)) h
  · cases h
  · rename_i hc
    exact Kernel.pipeReadLoop_sched (k := k.restoreUserContext) (.inr (hctx hc)) h
  · rename_i hc
    exact Kernel.kernelAcquireReturn_sched (k := k.restoreUserContext) (hctx hc) h
  · rename_i hc
    exact Kernel.kernelAcquire_sched (k := k.restoreUserContext) (.inr (hctx hc)) h

/-- Every step of the kernel is, without memory, one of the listed ones. -/
theorem Step.sched {e : Event} (h : Step k e k') :
    SchedStep k.toSched (k.cause e) k'.toSched := by
  cases h with
  | trap mode idle run =>
      rename_i uc env
      exact Kernel.trap_sched (k := { k with userContext := uc }) mode idle run
  | resume mode run => exact Kernel.resume_sched mode run
  | userLoad | userStore | cachedStore => exact .quiet
  | setKernelBrk _ => exact .quiet

end

end Theynix
