import Theynix.SystemCalls

/-!
# `Theynix.Traps`: the trap handlers (`Traps.c`)

`Kernel.trap` is what the kernel does from a trap to the next return to user mode or switch,
and `Kernel.resume` what it does from a switch on, in the process that was switched to.
-/

set_option autoImplicit false

namespace Theynix

/-! ## Numbers -/

abbrev TRAP_KERNEL : Nat := 0
abbrev TRAP_CLOCK : Nat := 1
abbrev TRAP_ILLEGAL : Nat := 2
abbrev TRAP_MEMORY : Nat := 3
abbrev TRAP_MATH : Nat := 4
abbrev TRAP_TTY_RECEIVE : Nat := 5
abbrev TRAP_TTY_TRANSMIT : Nat := 6

abbrev YALNIX_PREFIX : Nat := 0xabcdef00
abbrev YALNIX_FORK : Nat := 0x1 ||| YALNIX_PREFIX
abbrev YALNIX_EXEC : Nat := 0x2 ||| YALNIX_PREFIX
abbrev YALNIX_EXIT : Nat := 0x3 ||| YALNIX_PREFIX
abbrev YALNIX_WAIT : Nat := 0x4 ||| YALNIX_PREFIX
abbrev YALNIX_GETPID : Nat := 0x5 ||| YALNIX_PREFIX
abbrev YALNIX_BRK : Nat := 0x6 ||| YALNIX_PREFIX
abbrev YALNIX_DELAY : Nat := 0x7 ||| YALNIX_PREFIX
abbrev YALNIX_TTY_READ : Nat := 0x21 ||| YALNIX_PREFIX
abbrev YALNIX_TTY_WRITE : Nat := 0x22 ||| YALNIX_PREFIX
abbrev YALNIX_PIPE_INIT : Nat := 0x48 ||| YALNIX_PREFIX
abbrev YALNIX_PIPE_READ : Nat := 0x49 ||| YALNIX_PREFIX
abbrev YALNIX_PIPE_WRITE : Nat := 0x4A ||| YALNIX_PREFIX
abbrev YALNIX_LOCK_INIT : Nat := 0x63 ||| YALNIX_PREFIX
abbrev YALNIX_LOCK_ACQUIRE : Nat := 0x64 ||| YALNIX_PREFIX
abbrev YALNIX_LOCK_RELEASE : Nat := 0x65 ||| YALNIX_PREFIX
abbrev YALNIX_CVAR_INIT : Nat := 0x66 ||| YALNIX_PREFIX
abbrev YALNIX_CVAR_SIGNAL : Nat := 0x67 ||| YALNIX_PREFIX
abbrev YALNIX_CVAR_BROADCAST : Nat := 0x68 ||| YALNIX_PREFIX
abbrev YALNIX_CVAR_WAIT : Nat := 0x69 ||| YALNIX_PREFIX
abbrev YALNIX_RECLAIM : Nat := 0x6A ||| YALNIX_PREFIX

/-! ## Messages -/

/-- The bytes of a message that `sprintf` writes. -/
def message (s : String) : List Byte := s.toList.map fun c => UInt8.ofNat c.toNat

/-- `%d` of a pid. -/
def decimal (n : Nat) : String := String.ofList (Nat.toDigits 10 n)

/-- `%x`. -/
def hexadecimal (n : Nat) : String := String.ofList (Nat.toDigits 16 n)

/-! ## The parts that touch no memory -/

namespace Sched

/-- `DecrementTicksRemaining`: whether the process is done waiting, and the state. -/
def decrementTicksRemaining (s : Sched) (proc : Pid) : Bool × Sched :=
  let s := s.updPcb proc fun p =>
    { p with clockTicksUntilReady := p.clockTicksUntilReady - 1 }
  if ((s.pcb proc).map fun p => decide (p.clockTicksUntilReady ≤ 0)).getD false then
    -- This frees the node that `ListMap` is standing on.
    let s := { s with clockBlockProcs := s.clockBlockProcs.erase proc }
    (true, (s.ready proc).observe (.delayDone proc))
  else (false, s)

/-- `ListMap(clock_block_procs, &DecrementTicksRemaining)` from a node on: the processes
from this node to the end of the list, and what the freed nodes hold. -/
def mapTicks (s : Sched) : List Pid → List FreedNext → Except Stop Sched
  | [], _ => .ok s
  | proc :: rest, afterFree =>
    let (done, s) := s.decrementTicksRemaining proc
    if done then
      match afterFree with
      | [] => s.mapTicks rest []
      | .successor :: afterFree => s.mapTicks rest afterFree
      -- The processes behind this one miss the tick.
      | .stop :: _ => .ok s
      | .elsewhere :: _ => .error .fault
    else s.mapTicks rest afterFree

/-- `TrapClock`, before the switch. -/
def trapClock (s : Sched) (afterFree : List FreedNext) : Except Stop Sched := do
  let s ← (s.observe .clockTick).mapTicks s.clockBlockProcs afterFree
  -- The idle process runs when the ready queue is empty, and is never in it.
  if s.currentProc ≠ IDLE_PID then return s.ready s.currentProc else return s

/-- One round of the loop of `TrapTtyRecieve`: the first waiting process, which `rest` is
waiting behind, gets what it asked for, or all there is. -/
def serveReader (s : Sched) (ttyId : Nat) (waitingProc : Pid) (rest : List Pid) (pcb : PCB)
    (buffer input : List Byte) : Sched :=
  let s := s.updTty ttyId fun t => { t with waitingToReceive := rest }
  let s := s.ready waitingProc
  let bytes := input.take pcb.ttyReceiveLen
  let s := s.updPcb waitingProc fun p =>
    { p with
      ttyReceiveBuffer := some (bytes ++ buffer.drop bytes.length)
      ttyReceiveLen := bytes.length }
  s.observe (.ttyServed ttyId waitingProc bytes)

/-- The loop of `TrapTtyRecieve` over the waiting processes, with the unconsumed input: what
is left of the input. -/
def serveReaders (s : Sched) (ttyId : Nat) : List Pid → List Byte → Except Stop (List Byte × Sched)
  | [], input => .ok (input, s)
  | waitingProc :: rest, input =>
    -- The line is used up: the other readers go on waiting.
    if input = [] then .ok (input, s)
    else
      match s.pcb waitingProc with
      | none => .error .fault
      | some pcb =>
        match pcb.ttyReceiveBuffer with
        | none => .error .assertion
        | some buffer =>
          (s.serveReader ttyId waitingProc rest pcb buffer input).serveReaders ttyId rest
            (input.drop pcb.ttyReceiveLen)

/-- `TrapTtyRecieve`. -/
def trapTtyRecieve (s : Sched) (ttyId : Nat) (input : List Byte) : Except Stop Sched :=
  if ttyId ≥ NUM_TERMINALS then .error .fault
  else
    let input := input.take TERMINAL_MAX_LINE
    let s := s.observe (.ttyReceived ttyId input)
    let tty := s.ttys ttyId
    if tty.waitingToReceive = [] then
      let lb : LineBuffer :=
        { buffer := input ++ List.replicate (TERMINAL_MAX_LINE - input.length) 0
          length := input.length }
      .ok (s.updTty ttyId fun t => { t with lineBuffers := t.lineBuffers ++ [lb] })
    else do
      let (remaining, s) ← s.serveReaders ttyId tty.waitingToReceive input
      -- What no reader asked for becomes a stored line.
      if remaining = [] then return s
      else
        let lb : LineBuffer := { buffer := remaining, length := remaining.length }
        return s.updTty ttyId fun t => { t with lineBuffers := t.lineBuffers ++ [lb] }

/-- `TtyTransmit` with the next part of what a process transmits. -/
def transmitNext (s : Sched) (ttyId : Nat) (proc : Pid) : Sched :=
  match s.pcb proc with
  | none => s
  | some pcb =>
    s.observe (.ttyTransmit ttyId
      ((pcb.ttyTransmitBuffer.drop pcb.ttyTransmitPointer).take
        (min TERMINAL_MAX_LINE pcb.ttyTransmitLen)))

/-- The process that has transmitted everything, when `TrapTtyTransmit` is entered. -/
def transmitDone (s : Sched) (ttyId : Nat) : Option Pid :=
  match (s.ttys ttyId).waitingToTransmit with
  | [] => none
  | waitingProc :: _ =>
    match s.pcb waitingProc with
    | none => none
    | some pcb => if pcb.ttyTransmitLen > TERMINAL_MAX_LINE then none else some waitingProc

/-- `TrapTtyTransmit`, but for the buffer that is freed. -/
def trapTtyTransmit (s : Sched) (ttyId : Nat) : Except Stop Sched :=
  if ttyId ≥ NUM_TERMINALS then .error .fault
  else
    let s := s.observe (.ttyTransmitted ttyId)
    match (s.ttys ttyId).waitingToTransmit with
    | [] => .error .assertion
    | waitingProc :: rest =>
      match s.pcb waitingProc with
      | none => .error .fault
      | some pcb =>
        -- There is more to transmit for this process, which stays at the head of the list.
        if pcb.ttyTransmitLen > TERMINAL_MAX_LINE then
          let s := s.updPcb waitingProc fun p =>
            { p with
              ttyTransmitPointer := p.ttyTransmitPointer + TERMINAL_MAX_LINE
              ttyTransmitLen := p.ttyTransmitLen - TERMINAL_MAX_LINE }
          .ok (s.transmitNext ttyId waitingProc)
        else
          let s := s.updTty ttyId fun t => { t with waitingToTransmit := rest }
          let s := (s.ready waitingProc).observe (.ttyFinished ttyId waitingProc)
          match rest with
          | [] => .ok s
          | nextToTransmit :: _ => .ok (s.transmitNext ttyId nextToTransmit)

end Sched

/-! ## The handlers -/

namespace Kernel

/-- `TrapKernel`, up to the switch. -/
def trapKernel (k : Kernel) (env : Env) : Except Stop Kernel :=
  let reg := k.userContext.regs
  let retOf : Except Stop (Int × Kernel) → Except Stop Kernel := fun r => do
    let (rc, k) ← r
    return k.ret rc
  let code := k.userContext.code
  if code = YALNIX_DELAY then k.kernelDelay (asInt (reg 0))
  else if code = YALNIX_FORK then k.kernelFork
  else if code = YALNIX_GETPID then .ok (k.ret k.currentProc)
  else if code = YALNIX_EXEC then retOf (k.kernelExec (reg 0) (reg 1) env)
  else if code = YALNIX_WAIT then k.kernelWait (reg 0)
  else if code = YALNIX_EXIT then k.kernelExit (asInt (reg 0))
  else if code = YALNIX_BRK then retOf (k.kernelBrk (reg 0))
  else if code = YALNIX_TTY_READ then
    k.kernelTtyRead (asInt (reg 0)) (reg 1) (asInt (reg 2)) env
  else if code = YALNIX_TTY_WRITE then k.kernelTtyWrite (asInt (reg 0)) (reg 1) (asInt (reg 2))
  else if code = YALNIX_PIPE_INIT then k.kernelPipeInit (reg 0)
  else if code = YALNIX_PIPE_READ then k.kernelPipeRead (reg 0) (reg 1) (asInt (reg 2))
  else if code = YALNIX_PIPE_WRITE then k.kernelPipeWrite (reg 0) (reg 1) (asInt (reg 2))
  else if code = YALNIX_LOCK_INIT then k.kernelLockInit (reg 0)
  else if code = YALNIX_LOCK_ACQUIRE then k.kernelAcquire (reg 0)
  else if code = YALNIX_LOCK_RELEASE then do
    let r ← k.toSched.kernelRelease (reg 0)
    return k.retSched r
  else if code = YALNIX_CVAR_INIT then k.kernelCvarInit (reg 0)
  else if code = YALNIX_CVAR_SIGNAL then .ok (k.retSched (k.toSched.kernelCvarSignal (reg 0)))
  else if code = YALNIX_CVAR_BROADCAST then
    .ok (k.retSched (k.toSched.kernelCvarBroadcast (reg 0)))
  else if code = YALNIX_CVAR_WAIT then k.kernelCvarWait (reg 0) (reg 1)
  else if code = YALNIX_RECLAIM then .ok (k.retSched (k.toSched.kernelReclaim (reg 0)))
  -- No such system call.
  else k.kernelExit ERROR

/-- Prints a message on terminal 0; the process exits after that. -/
def fatal (k : Kernel) (msg : String) : Except Stop Kernel :=
  k.kernelTtyWriteInternal 0 ((message msg).take TERMINAL_MAX_LINE) .fatalTrap

/-- `TrapIllegal`, up to the switch. -/
def trapIllegal (k : Kernel) : Except Stop Kernel :=
  k.fatal ("TRAP_ILLEGAL exception for proc " ++ decimal k.currentProc ++ "\n")

/-- `TrapMath`, up to the switch. -/
def trapMath (k : Kernel) : Except Stop Kernel :=
  k.fatal ("TRAP_MATH exception for proc " ++ decimal k.currentProc ++ "\n")

/-- `TrapMemory`, up to the switch. -/
def trapMemory (k : Kernel) : Except Stop Kernel :=
  let addr := k.userContext.addr
  let proc := decimal k.currentProc
  if addr > VMEM_1_LIMIT ∨ addr < VMEM_1_BASE then
    k.fatal ("Out of range memory access at " ++ hexadecimal addr ++ " by proc " ++ proc ++ "\n")
  else
    let addrPage := addrToPage (addr - VMEM_1_BASE)
    let space := k.space k.currentProc
    if !(k.table addrPage).valid then
      let belowCurrentStack := (addrPage : Int) < space.lowestUserStackPage
      let aboveHeap := (addrPage : Int) > space.userBrkPage
      -- The stack grows down to the page that was accessed.
      if belowCurrentStack ∧ aboveHeap then do
        let (rc, m) ← k.machine.growStack k.currentProc addrPage
          (space.lowestUserStackPage - addrPage).toNat
        let k := { k with machine := m }
        if rc = ERROR then
          k.fatal ("Proc " ++ proc ++ " tried to grow stack, but out of free frames\n")
        else return k.setSpace k.currentProc { space with lowestUserStackPage := addrPage }
      -- The stack has met the heap.
      else if ¬ aboveHeap then
        k.fatal ("Proc " ++ proc ++ " tried to grow stack, but out of free frames\n")
      else k.fatal ("Proc " ++ proc ++ " found an unmapped page in its stack. Sorry.\n")
    else
      -- A mapped page: the access broke its protection.
      let msg := "Proc " ++ proc ++ " accessed " ++ hexadecimal addr
        ++ " with invalid permissions\n"
      k.kernelTtyWriteInternal 0 ((message msg).take TERMINAL_MAX_LINE) .protectionTrap

/-- `TrapClock`, up to the switch. -/
def trapClock (k : Kernel) (env : Env) : Except Stop Kernel := do
  let s ← k.toSched.trapClock env.afterFree
  (k.withSched s).switchToNextProc .trapClock

/-- `TrapTtyTransmit`. -/
def trapTtyTransmit (k : Kernel) (ttyId : Nat) : Except Stop Kernel := do
  let s ← k.toSched.trapTtyTransmit ttyId
  let heap :=
    match k.transmitDone ttyId with
    | none => k.ttyHeap
    | some waitingProc => k.ttyHeap.free waitingProc .ttyTransmitBuffer
  return (k.withHeap heap).withSched s

/-- A trap: the handler that `TrapTableInit` puts into the vector table, up to the switch. -/
def trap (k : Kernel) (env : Env) : Except Stop Kernel :=
  let vector := k.userContext.vector
  if vector = TRAP_KERNEL then k.trapKernel env
  else if vector = TRAP_CLOCK then k.trapClock env
  else if vector = TRAP_ILLEGAL then k.trapIllegal
  else if vector = TRAP_MEMORY then k.trapMemory
  else if vector = TRAP_MATH then k.trapMath
  else if vector = TRAP_TTY_RECEIVE then do
    let s ← k.toSched.trapTtyRecieve k.userContext.code env.ttyInput
    return k.withSched s
  else if vector = TRAP_TTY_TRANSMIT then k.trapTtyTransmit k.userContext.code
  -- `TrapNotDefined`.
  else k.kernelExit ERROR

/-- After a switch: the end of `SwitchToProc`, and then the rest of the function that
suspended the process. -/
def resume (k : Kernel) : Except Stop Kernel :=
  let k := k.restoreUserContext
  match k.currentPcb.kernelContext with
  | .trapClock => .ok { k with mode := .user }
  | .kernelFork childPid =>
    -- Parent and child both return from here, the child on its copy of the kernel stack.
    if childPid = k.currentProc then .ok (k.ret 0) else .ok (k.ret childPid)
  | .kernelExit => .error .fault
  | .kernelWait statusPtr => k.collectZombie statusPtr
  | .kernelDelay => .ok (k.ret SUCCESS)
  | .kernelTtyRead buf => do
    let pcb := k.currentPcb
    let m ← k.machine.storeBytes buf ((pcb.ttyReceiveBuffer.getD []).take pcb.ttyReceiveLen)
    let k := k.withHeap (k.ttyHeap.free k.currentProc .ttyReceiveBuffer)
    return ({ k with machine := m }).ret pcb.ttyReceiveLen
  | .kernelTtyWrite len => .ok (k.ret len)
  | .fatalTrap => k.kernelExit ERROR
  -- This branch of `TrapMemory` calls `exit`, not `KernelExit`.
  | .protectionTrap => .error .exit
  | .kernelPipeRead pipe buf len => k.pipeReadLoop pipe buf len
  | .kernelAcquire lockId => k.kernelAcquireReturn lockId
  -- The lock is taken again before the call returns.
  | .kernelCvarWait lockId => k.kernelAcquire lockId

end Kernel

end Theynix
