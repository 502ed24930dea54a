import Theynix.LoadProgram

/-!
# `Theynix.Kernel`: the whole state, and switching between processes

`Kernel` is `Sched` together with memory, the `Space` of every process and the `UserContext`
that the trap handlers are passed. A trap runs until the kernel returns to user mode or
switches to another process. After a switch the state is in `Mode.kernel`: the next step
resumes the process that was switched to, inside the kernel function that suspended it.

`KernelContextSwitch` is taken to succeed.
-/

set_option autoImplicit false

namespace Theynix

/-- What `ListMap` reads as the next node when it reads it from a node that was freed. -/
inductive FreedNext
  /-- The node that followed it. -/
  | successor
  /-- A node after which the traversal ends, or the null pointer. -/
  | stop
  /-- Anything else: the traversal goes on outside the list. -/
  | elsewhere
deriving DecidableEq, Repr

/-- What the kernel gets from outside during one step. -/
structure Env where
  /-- The host's files. -/
  files : List Byte → Option Executable := fun _ => none
  /-- The room in the kernel heap for the copies that `KernelExec` makes. -/
  heapBytes : Nat := 0
  /-- Whether `malloc` has room for the argument buffer of `LoadProgram`. -/
  argbufOk : Bool := true
  /-- What `TtyReceive` puts into the buffer, at most `TERMINAL_MAX_LINE` bytes. -/
  ttyInput : List Byte := []
  /-- The bytes behind a line buffer in the kernel heap. -/
  heapBehind : List Byte := []
  /-- What `ListMap` finds in the nodes it reads after they were freed, in order. Where the
  list ends, it finds the node that followed. -/
  afterFree : List FreedNext := []

/-- The fields of a PCB that point to a buffer on the kernel heap. -/
inductive TtyField
  | ttyReceiveBuffer
  | ttyTransmitBuffer
deriving DecidableEq, Repr

/-- The pointers to the terminal buffers, and what `calloc` and `free` have done with them. A
buffer is known by the number of the `calloc` that made it. Its bytes are in the PCB. -/
structure TtyHeap where
  callocs : Nat := 0
  /-- The buffers that were freed, in order. -/
  frees : List Nat := []
  /-- `none` is the null pointer. -/
  pointer : Pid → TtyField → Option Nat := fun _ _ => none

namespace TtyHeap

/-- A field is set to what `calloc` returns. -/
def calloc (h : TtyHeap) (p : Pid) (f : TtyField) : TtyHeap where
  callocs := h.callocs + 1
  frees := h.frees
  pointer := fun q g => if q = p ∧ g = f then some h.callocs else h.pointer q g

/-- `free` of a field, which keeps its value. A buffer may be freed again: that is recorded,
and the kernel goes on. What the allocator does then is not modelled. -/
def free (h : TtyHeap) (p : Pid) (f : TtyField) : TtyHeap :=
  match h.pointer p f with
  | none => h
  | some buffer => { h with frees := h.frees ++ [buffer] }

end TtyHeap

/-- The state of the machine and of the kernel. -/
structure Kernel extends Sched where
  machine : Machine
  space : Pid → Space
  userContext : UserContext
  ttyHeap : TtyHeap := {}

namespace Kernel

/-- The region 1 page table of the current process. -/
def table (k : Kernel) : Nat → Pte := k.machine.pte (.region1 k.currentProc)

def setSpace (k : Kernel) (p : Pid) (sp : Space) : Kernel :=
  { k with space := fun q => if q = p then sp else k.space q }

/-- Changes the scheduler's part of the state. -/
def withSched (k : Kernel) (s : Sched) : Kernel := { k with toSched := s }

/-- Changes what is known of the terminal buffers. -/
def withHeap (k : Kernel) (h : TtyHeap) : Kernel := { k with ttyHeap := h }

/-- The system call returns `rc` to the process. -/
def ret (k : Kernel) (rc : Int) : Kernel :=
  { k with mode := .user, userContext := k.userContext.setResult rc }

/-- `current_proc->user_context = *user_context`. -/
def saveUserContext (k : Kernel) : Kernel :=
  k.setSpace k.currentProc { k.space k.currentProc with userContext := k.userContext }

/-- `SwitchToProc` up to the switch. -/
def switchToProc (k : Kernel) (nextProc : Pid) (context : KernelContext) : Except Stop Kernel :=
  match k.pcb nextProc with
  | none => .error .fault
  | some nextPcb => do
    let k := k.saveUserContext
    let m := { k.machine with ptbr1 := .region1 nextProc }.flushRegion1
    let m ←
      -- A process that has not run yet gets a copy of the current kernel stack.
      if nextPcb.kernelContextInitialized then .ok m
      else m.copyKernelStackPageTableAndData k.currentProc nextProc
    let m := (m.useKernelStackForProc nextProc).flushRegion1
    return {
      toSched := k.toSched.switchToProc nextProc context
      machine := m
      space := k.space
      userContext := (k.space nextProc).userContext
      ttyHeap := k.ttyHeap }

/-- `SwitchToNextProc` up to the switch. -/
def switchToNextProc (k : Kernel) (context : KernelContext) : Except Stop Kernel :=
  match k.readyQueue with
  | next :: rest => (k.withSched { k.toSched with readyQueue := rest }).switchToProc next context
  | [] => k.switchToProc IDLE_PID context

/-- The end of `SwitchToProc`, in the process that was switched to. -/
def restoreUserContext (k : Kernel) : Kernel :=
  { k with userContext := (k.space k.currentProc).userContext }

end Kernel

end Theynix
