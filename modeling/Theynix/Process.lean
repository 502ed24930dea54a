import Mathlib.Algebra.GroupWithZero.Nat
import Theynix.Lib.Except
import Theynix.Hardware

/-!
# `Theynix.Process`: processes, kernel objects and the scheduler

The structures of `PCB.h`, `Lock.h`, `CVar.h`, `Pipe.h`, `Tty.h` and the globals of
`Kernel.h`, but for memory. The state is `Sched`: which processes there are, where each one
waits, and the objects they wait for.

A PCB is reached through a pointer in the source and by its pid here; a lock, cvar or pipe
by its id. `pcb p = none` when no PCB with the pid exists, or when it has been freed. The
three tables of `Kernel.h` are the lists of ids `locks`, `cvars` and `pipes`. An object that
is taken out of its table is not freed, and blocked processes still point to it, so the
objects themselves stay in `lock`, `cvar` and `pipe`.

A process that is switched away from is suspended inside a kernel function.
`KernelContext` names the function and what its frame holds: it stands for the kernel
context and the kernel stack.

`history` is not in the source. It records the events that the properties of terminals,
pipes and locks are about, oldest first.
-/

set_option autoImplicit false

namespace Theynix

abbrev Pid := Nat

abbrev IDLE_PID : Pid := 0
abbrev INIT_PID : Pid := 1

abbrev GREGS : Nat := 8

instance : NeZero GREGS := @Nat.instNeZeroSucc 7

/-- `struct user_context`. The fields are 32-bit words. -/
structure UserContext where
  vector : Nat := 0
  code : Nat := 0
  addr : Nat := 0
  pc : Nat := 0
  sp : Nat := 0
  ebp : Nat := 0
  regs : Fin GREGS → Nat := fun _ => 0

/-- `user_context->regs[0] = rc`. -/
def UserContext.setResult (uc : UserContext) (rc : Int) : UserContext :=
  { uc with regs := fun i => if i = 0 then asUnsigned rc else uc.regs i }

/-- The fields of a PCB that memory management uses, but for the page tables. -/
structure Space where
  userContext : UserContext := {}
  lowestUserStackPage : Int := 0
  userBrkPage : Int := 0

/-- Where a suspended process goes on, with the locals it needs there. -/
inductive KernelContext
  /-- In `TrapClock`, after the switch. -/
  | trapClock
  /-- In `KernelFork`, after the switch to the child. -/
  | kernelFork (childPid : Pid)
  /-- In `KernelExit`. Nothing switches back to here. -/
  | kernelExit
  | kernelWait (statusPtr : Nat)
  | kernelDelay
  | kernelTtyRead (buf : Nat)
  | kernelTtyWrite (len : Nat)
  /-- In `KernelTtyWriteInternal`, called by a trap that calls `KernelExit` next. -/
  | fatalTrap
  /-- In `KernelTtyWriteInternal`, called by the branch of `TrapMemory` that calls `exit`. -/
  | protectionTrap
  | kernelPipeRead (pipe buf len : Nat)
  | kernelAcquire (lockId : Nat)
  /-- In `KernelCvarWait`, before it takes the lock again. -/
  | kernelCvarWait (lockId : Nat)
deriving DecidableEq, Repr

/-- `struct PCB`, without the page tables and the fields of `Space`. -/
@[ext] structure PCB where
  kernelContextInitialized : Bool := false
  kernelContext : KernelContext := .kernelExit
  liveParent : Option Pid := none
  liveChildren : List Pid := []
  zombieChildren : List Pid := []
  ownedLockIds : List Nat := []
  waitingOnChildren : Bool := false
  exitStatus : Int := 0
  clockTicksUntilReady : Int := 0
  ttyReceiveLen : Nat := 0
  /-- `none` is the null pointer. -/
  ttyReceiveBuffer : Option (List Byte) := none
  ttyTransmitLen : Nat := 0
  ttyTransmitBuffer : List Byte := []
  /-- `tty_transmit_pointer - tty_transmit_buffer`. -/
  ttyTransmitPointer : Nat := 0
deriving DecidableEq, Repr

/-- `struct Lock`. -/
structure Lock where
  ownerId : Pid := 0
  waitingProcs : List Pid := []
  acquired : Bool := false
deriving DecidableEq, Repr

/-- `struct CVar`. -/
structure CVar where
  waitingProcs : List Pid := []
deriving DecidableEq, Repr

/-- `struct Pipe`. An element of `waitingToRead` is the id it is listed under, which is the
number of bytes asked for, and the process. -/
structure Pipe where
  numCharsAvailable : Int := 0
  bufferCapacity : Int := 0
  buffer : List Byte := []
  /-- `buffer_ptr - buffer`. -/
  bufferPtr : Int := 0
  waitingToRead : List (Nat × Pid) := []
deriving DecidableEq, Repr

/-- `struct LineBuffer`: the allocated bytes, and how many of them are the line. -/
structure LineBuffer where
  buffer : List Byte
  length : Nat
deriving DecidableEq, Repr

/-- `struct Tty`. -/
structure Tty where
  lineBuffers : List LineBuffer := []
  waitingToReceive : List Pid := []
  waitingToTransmit : List Pid := []
deriving DecidableEq, Repr

/-- Whether a user process is running, or the kernel is inside a process it switched to. -/
inductive Mode
  | user
  | kernel
deriving DecidableEq, Repr

/-- What happened, for the properties that speak of the past. -/
inductive Obs
  /-- A terminal delivered a line. -/
  | ttyReceived (ttyId : Nat) (line : List Byte)
  /-- A reader was given bytes, into its buffer or into its `tty_receive_buffer`. -/
  | ttyServed (ttyId : Nat) (reader : Pid) (bytes : List Byte)
  /-- `KernelTtyWriteInternal` was called. -/
  | ttyWritten (ttyId : Nat) (writer : Pid) (bytes : List Byte)
  /-- `TtyTransmit` was called. -/
  | ttyTransmit (ttyId : Nat) (bytes : List Byte)
  /-- `TrapTtyTransmit` was entered: what was passed to `TtyTransmit` has been transmitted. -/
  | ttyTransmitted (ttyId : Nat)
  /-- `TrapTtyTransmit` moved a writer to the ready queue. -/
  | ttyFinished (ttyId : Nat) (writer : Pid)
  /-- `KernelPipeWrite` completed. -/
  | pipeWritten (pipe : Nat) (bytes : List Byte)
  /-- `KernelPipeRead` completed. -/
  | pipeRead (pipe : Nat) (reader : Pid) (len : Nat) (bytes : List Byte)
  /-- `KernelAcquire` took a free lock. -/
  | lockTaken (lockId : Nat) (proc : Pid)
  /-- `KernelAcquire` put a process on the waiting list of a lock. -/
  | lockBlocked (lockId : Nat) (proc : Pid)
  /-- `KernelRelease` handed a lock over to a waiting process. -/
  | lockGranted (lockId : Nat) (proc : Pid)
  /-- `KernelRelease` made a lock available. -/
  | lockFreed (lockId : Nat)
  /-- `KernelAcquire` or `KernelCvarWait` returned `SUCCESS`. -/
  | lockReturned (lockId : Nat) (proc : Pid)
  /-- `KernelDelay` blocked a process. -/
  | delayed (proc : Pid) (clockTicks : Int)
  /-- `TrapClock` was entered. -/
  | clockTick
  /-- `TrapClock` moved a process to the ready queue. -/
  | delayDone (proc : Pid)
  /-- `KernelFork` linked a child to its parent. -/
  | forked (parent child : Pid)
  /-- `KernelExit` finished with a process. -/
  | exited (proc : Pid) (status : Int)
  /-- `KernelWait` stored the status of a child. -/
  | waited (parent child : Pid) (status : Int)
deriving DecidableEq, Repr

/-- The kernel without memory. -/
structure Sched where
  pcb : Pid → Option PCB
  currentProc : Pid
  readyQueue : List Pid
  clockBlockProcs : List Pid
  ttys : Nat → Tty
  locks : List Nat
  cvars : List Nat
  pipes : List Nat
  lock : Nat → Option Lock
  cvar : Nat → Option CVar
  pipe : Nat → Option Pipe
  nextPid : Pid
  nextSynchResourceId : Nat
  mode : Mode
  history : List Obs

namespace Sched

/-! ## Access -/

/-- Changes a PCB. A write through a pointer to a PCB that has been freed changes nothing
that is still in use. -/
def updPcb (s : Sched) (p : Pid) (f : PCB → PCB) : Sched :=
  { s with pcb := fun q => if q = p then (s.pcb p).map f else s.pcb q }

theorem updPcb_pcb (s : Sched) (p q : Pid) (f : PCB → PCB) :
    (s.updPcb p f).pcb q = (s.pcb q).map fun a => if q = p then f a else a := by
  by_cases hq : q = p
  · simp [updPcb, hq]
  · simp [updPcb, hq]

/-- Changes the PCB of the current process. -/
def updCurrent (s : Sched) (f : PCB → PCB) : Sched := s.updPcb s.currentProc f

/-- `free(pcb)`. -/
def freePcb (s : Sched) (p : Pid) : Sched :=
  { s with pcb := fun q => if q = p then none else s.pcb q }

def updLock (s : Sched) (i : Nat) (f : Lock → Lock) : Sched :=
  { s with lock := fun j => if j = i then (s.lock i).map f else s.lock j }

def updCvar (s : Sched) (i : Nat) (f : CVar → CVar) : Sched :=
  { s with cvar := fun j => if j = i then (s.cvar i).map f else s.cvar j }

def updPipe (s : Sched) (i : Nat) (f : Pipe → Pipe) : Sched :=
  { s with pipe := fun j => if j = i then (s.pipe i).map f else s.pipe j }

def updTty (s : Sched) (t : Nat) (f : Tty → Tty) : Sched :=
  { s with ttys := fun u => if u = t then f (s.ttys t) else s.ttys u }

/-- `ListAppend(ready_queue, proc, proc->pid)`. -/
def ready (s : Sched) (p : Pid) : Sched := { s with readyQueue := s.readyQueue ++ [p] }

/-- Records an event. -/
def observe (s : Sched) (o : Obs) : Sched := { s with history := s.history ++ [o] }

/-- `ListFindById(locks, id)`. -/
def findLock (s : Sched) (lockId : Nat) : Option Lock :=
  if lockId ∈ s.locks then s.lock lockId else none

/-- `ListFindById(cvars, id)`. -/
def findCvar (s : Sched) (cvarId : Nat) : Option CVar :=
  if cvarId ∈ s.cvars then s.cvar cvarId else none

/-- `ListFindById(pipes, id)`. -/
def findPipe (s : Sched) (pipeId : Nat) : Option Pipe :=
  if pipeId ∈ s.pipes then s.pipe pipeId else none

/-- Whether the process has a kernel context to resume. -/
def initialized (s : Sched) (p : Pid) : Bool :=
  ((s.pcb p).map PCB.kernelContextInitialized).getD false

/-! ## Switching -/

/-- `SwitchToProc`, but for memory. The running process is suspended in `context`. A process
that runs for the first time gets a copy of that context. -/
def switchToProc (s : Sched) (nextProc : Pid) (context : KernelContext) : Sched :=
  let first := !s.initialized nextProc
  let s := s.updCurrent fun p => { p with kernelContext := context }
  let s :=
    if first then
      s.updPcb nextProc fun p =>
        { p with kernelContext := context, kernelContextInitialized := true }
    else s
  { s with currentProc := nextProc, mode := .kernel }

/-- `SwitchToNextProc`, but for memory. -/
def switchToNextProc (s : Sched) (context : KernelContext) : Sched :=
  match s.readyQueue with
  | next :: rest => { s with readyQueue := rest }.switchToProc next context
  | [] => s.switchToProc IDLE_PID context

end Sched

end Theynix
