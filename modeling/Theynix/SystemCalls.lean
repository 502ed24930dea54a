import Theynix.Kernel

/-!
# `Theynix.SystemCalls`: the system calls (`SystemCalls.c`, `Pipe.c`)

Each function of the source is a definition under its name. The parts that touch no memory
are functions on `Sched` (and on `Pipe`), which the functions on `Kernel` call. A system
call ends with `Kernel.ret`, or with `Kernel.switchToNextProc` where the source blocks; what
the source does after the switch is the branch of `Kernel.resume` for the context.

Lengths that have been checked to be nonnegative are natural numbers from then on.
Allocations from the kernel heap succeed, but for those of `KernelExec`.
-/

set_option autoImplicit false

namespace Theynix

open Theynix.Lib (bind_eq_ok ite_eq_ok)

/-! ## Pipes -/

namespace Pipe

/-- `PipeSpotsRemaining`. -/
def pipeSpotsRemaining (p : Pipe) : Int := p.bufferCapacity - p.numCharsAvailable - p.bufferPtr

/-- `PipeCopyIntoUserBuffer`: the bytes for the user, and the pipe. -/
def pipeCopyIntoUserBuffer (p : Pipe) (len : Nat) : Except Stop (List Byte × Pipe) := do
  cAssert (len ≤ p.numCharsAvailable)
  let bytes := (p.buffer.drop p.bufferPtr.toNat).take len
  let p := { p with
    bufferPtr := p.bufferPtr + len, numCharsAvailable := p.numCharsAvailable - len }
  -- An emptied buffer is filled from its start again.
  if 0 = p.numCharsAvailable then return (bytes, { p with bufferPtr := 0 })
  else return (bytes, p)

/-- `PipeCopyIntoPipeBuffer`. -/
def pipeCopyIntoPipeBuffer (p : Pipe) (bytes : List Byte) : Except Stop Pipe := do
  cAssert (bytes.length ≤ p.pipeSpotsRemaining)
  let at_ := (p.bufferPtr + p.numCharsAvailable).toNat
  return { p with
    buffer := p.buffer.take at_ ++ bytes ++ p.buffer.drop (at_ + bytes.length)
    numCharsAvailable := p.numCharsAvailable + bytes.length }

/-- The reallocation in `KernelPipeWrite`. The size is an `int`: one that does not fit is
negative, `calloc` returns null for it, and the copy faults. -/
def growBuffer (p : Pipe) (len : Nat) : Except Stop Pipe :=
  let newBufferSize := p.numCharsAvailable + len
  if newBufferSize ≥ 0x80000000 then .error .fault
  else
    -- Only what nobody has read yet moves to the new buffer.
    let unconsumed := (p.buffer.drop p.bufferPtr.toNat).take p.numCharsAvailable.toNat
    .ok { p with
      buffer := unconsumed ++ List.replicate (newBufferSize.toNat - unconsumed.length) 0
      bufferPtr := 0
      bufferCapacity := newBufferSize }

/-- The part of `KernelPipeWrite` that fills the pipe. -/
def write (p : Pipe) (bytes : List Byte) : Except Stop Pipe := do
  let p ← if bytes.length > p.pipeSpotsRemaining then p.growBuffer bytes.length else .ok p
  cAssert (bytes.length ≤ p.pipeSpotsRemaining)
  p.pipeCopyIntoPipeBuffer bytes

theorem growBuffer_waitingToRead {p p' : Pipe} {len : Nat} (h : p.growBuffer len = .ok p') :
    p'.waitingToRead = p.waitingToRead := by
  unfold growBuffer at h
  rcases ite_eq_ok h with ⟨-, h⟩ | ⟨-, h⟩ <;> cases h
  rfl

theorem pipeCopyIntoPipeBuffer_waitingToRead {p p' : Pipe} {bytes : List Byte}
    (h : p.pipeCopyIntoPipeBuffer bytes = .ok p') : p'.waitingToRead = p.waitingToRead := by
  obtain ⟨_, -, hret⟩ := bind_eq_ok.mp h
  cases hret
  rfl

/-- The pipe is filled after it has been grown, if that is needed. -/
theorem write_eq_ok {p p' : Pipe} {bytes : List Byte} (h : p.write bytes = .ok p') :
    ∃ p₁, (bytes.length > p.pipeSpotsRemaining ∧ p.growBuffer bytes.length = .ok p₁ ∨
        ¬ bytes.length > p.pipeSpotsRemaining ∧ p₁ = p) ∧
      p₁.pipeCopyIntoPipeBuffer bytes = .ok p' := by
  unfold write at h
  rcases ite_eq_ok h with ⟨hc, h⟩ | ⟨hc, h⟩
  · obtain ⟨p₁, hgrow, h⟩ := bind_eq_ok.mp h
    obtain ⟨_, -, h⟩ := bind_eq_ok.mp h
    exact ⟨p₁, .inl ⟨hc, hgrow⟩, h⟩
  · obtain ⟨_, hp, h⟩ := bind_eq_ok.mp h
    cases hp
    obtain ⟨_, -, h⟩ := bind_eq_ok.mp h
    exact ⟨p, .inr ⟨hc, rfl⟩, h⟩

/-- Filling a pipe wakes nobody. -/
theorem write_waitingToRead {p p' : Pipe} {bytes : List Byte} (h : p.write bytes = .ok p') :
    p'.waitingToRead = p.waitingToRead := by
  obtain ⟨p₁, hgrow, hcopy⟩ := write_eq_ok h
  rw [pipeCopyIntoPipeBuffer_waitingToRead hcopy]
  rcases hgrow with ⟨-, hgrow⟩ | ⟨-, rfl⟩
  · exact growBuffer_waitingToRead hgrow
  · rfl

theorem pipeCopyIntoUserBuffer_waitingToRead {p p' : Pipe} {len : Nat} {bytes : List Byte}
    (h : p.pipeCopyIntoUserBuffer len = .ok (bytes, p')) : p'.waitingToRead = p.waitingToRead := by
  obtain ⟨_, -, h⟩ := bind_eq_ok.mp h
  rcases ite_eq_ok h with ⟨-, hret⟩ | ⟨-, hret⟩ <;> cases hret <;> rfl

end Pipe

/-- `ListFindFirstLessThanIdAndRemove`: the first element listed under an id that is at most
the given one, and the other elements. -/
def listFindFirstLessThanIdAndRemove (l : List (Nat × Pid)) (id : Int) :
    Option Pid × List (Nat × Pid) :=
  match l with
  | [] => (none, [])
  | (i, p) :: l =>
    if (i : Int) ≤ id then (some p, l)
    else
      let (found, l) := listFindFirstLessThanIdAndRemove l id
      (found, (i, p) :: l)

theorem listFindFirstLessThanIdAndRemove_none {l l' : List (Nat × Pid)} {id : Int}
    (h : listFindFirstLessThanIdAndRemove l id = (none, l')) :
    l' = l ∧ ∀ x ∈ l, id < (x.1 : Int) := by
  induction l generalizing l' with
  | nil =>
      cases h
      exact ⟨rfl, fun _ hx => by cases hx⟩
  | cons x l ih =>
      simp only [listFindFirstLessThanIdAndRemove] at h
      split at h
      · cases h
      · rename_i hx
        cases hrec : listFindFirstLessThanIdAndRemove l id with
        | mk found l₁ =>
            rw [hrec] at h
            cases h
            obtain ⟨rfl, hl⟩ := ih hrec
            refine ⟨rfl, fun y hy => ?_⟩
            rcases List.mem_cons.mp hy with rfl | hy
            · exact Int.not_le.mp hx
            · exact hl y hy

theorem listFindFirstLessThanIdAndRemove_some {l l' : List (Nat × Pid)} {id : Int} {p : Pid}
    (h : listFindFirstLessThanIdAndRemove l id = (some p, l')) :
    ∃ (before : List (Nat × Pid)) (n : Nat) (after : List (Nat × Pid)),
      l = before ++ (n, p) :: after ∧ l' = before ++ after ∧ (n : Int) ≤ id ∧
      ∀ x ∈ before, id < (x.1 : Int) := by
  induction l generalizing l' with
  | nil => cases h
  | cons x l ih =>
      obtain ⟨n, q⟩ := x
      simp only [listFindFirstLessThanIdAndRemove] at h
      split at h
      · rename_i hle
        cases h
        exact ⟨[], n, _, rfl, rfl, hle, fun _ hx => by cases hx⟩
      · rename_i hx
        cases hrec : listFindFirstLessThanIdAndRemove l id with
        | mk found l₁ =>
            rw [hrec] at h
            cases h
            obtain ⟨before, n', after, rfl, rfl, hle, hbefore⟩ := ih hrec
            refine ⟨(n, q) :: before, n', after, rfl, rfl, hle, fun y hy => ?_⟩
            rcases List.mem_cons.mp hy with rfl | hy
            · exact Int.not_le.mp hx
            · exact hbefore y hy

/-- What `KernelTtyRead` leaves of the first line buffer after reading `len` bytes, and how
many bytes it read. The leftovers are copied from the start of the buffer. -/
def LineBuffer.afterRead (lb : LineBuffer) (len : Nat) : Option LineBuffer × Nat :=
  if lb.length > len then
    let leftoversLength := lb.length - len
    (some { buffer := lb.buffer.take leftoversLength, length := leftoversLength }, len)
  else (none, lb.length)

/-! ## The parts that touch no memory -/

namespace Sched

/-- A new PCB for a child of the current process, as `KernelFork` links it in. -/
def addChild (s : Sched) (child : Pid) : Sched :=
  let s := { s with
    pcb := fun q => if q = child then some { liveParent := some s.currentProc } else s.pcb q }
  let s := s.updCurrent fun p => { p with liveChildren := p.liveChildren ++ [child] }
  s.observe (.forked s.currentProc child)

/-- The lock leaves `owned_lock_ids` of the current process. -/
def disown (s : Sched) (lockId : Nat) : Sched :=
  s.updCurrent fun p => { p with ownedLockIds := p.ownedLockIds.erase lockId }

/-- `KernelRelease` when nobody waits for the lock. -/
def makeAvailable (s : Sched) (lockId : Nat) : Sched :=
  (s.updLock lockId fun l => { l with acquired := false }).observe (.lockFreed lockId)

/-- `KernelRelease` when `unblockedProc` is the first to wait for the lock, before `rest`. -/
def handOver (s : Sched) (lockId : Nat) (unblockedProc : Pid) (rest : List Pid) : Sched :=
  let s := s.updLock lockId fun l => { l with waitingProcs := rest, ownerId := unblockedProc }
  let s := s.updPcb unblockedProc fun p => { p with ownedLockIds := p.ownedLockIds ++ [lockId] }
  (s.ready unblockedProc).observe (.lockGranted lockId unblockedProc)

/-- `KernelRelease`. -/
def kernelRelease (s : Sched) (lockId : Nat) : Except Stop (Int × Sched) :=
  match s.findLock lockId with
  | none => .ok (ERROR, s)
  | some lock =>
    if !lock.acquired || lock.ownerId != s.currentProc then .ok (ERROR, s)
    else do
      -- `assert(released_lock)`
      cAssert (((s.pcb s.currentProc).map fun p => decide (lockId ∈ p.ownedLockIds)).getD false)
      let s := s.disown lockId
      match lock.waitingProcs with
      | [] => return (SUCCESS, s.makeAvailable lockId)
      | unblockedProc :: rest => return (SUCCESS, s.handOver lockId unblockedProc rest)

/-- The loop of `KernelExit` that releases the locks of the current process. A release that
fails takes nothing off the list, and the loop goes on for ever. -/
def releaseOwnedLocks (s : Sched) : Nat → Except Stop Sched
  | 0 =>
    match (s.pcb s.currentProc).map PCB.ownedLockIds with
    | some (_ :: _) => .error .hang
    | _ => .ok s
  | fuel + 1 =>
    match (s.pcb s.currentProc).map PCB.ownedLockIds with
    | some (lockId :: _) => do
      let (_, s) ← s.kernelRelease lockId
      s.releaseOwnedLocks fuel
    | _ => .ok s

/-- The children of an exiting process go on without a parent, the zombies are freed. -/
def abandonChildren (s : Sched) (pcb : PCB) : Sched :=
  { s with
    pcb := fun q =>
      if q ∈ pcb.zombieChildren then none
      else if q ∈ pcb.liveChildren then (s.pcb q).map fun p : PCB => { p with liveParent := none }
      else s.pcb q }

/-- The current process, which has exited, becomes a zombie of its parent. -/
def becomeZombie (s : Sched) (parent : Pid) : Sched :=
  let waiting := ((s.pcb parent).map PCB.waitingOnChildren).getD false
  let s := s.updPcb parent fun p =>
    { p with
      liveChildren := p.liveChildren.erase s.currentProc
      zombieChildren := p.zombieChildren ++ [s.currentProc]
      waitingOnChildren := false }
  -- The parent is blocked in `KernelWait`, and collects the zombie when it runs again.
  if waiting then s.ready parent else s

/-- What `KernelExit` does with the PCBs of the children and of the process itself. -/
def leaveFamily (s : Sched) (status : Int) : Sched :=
  match s.pcb s.currentProc with
  | none => s
  | some pcb =>
    let s := s.abandonChildren pcb
    let s := s.updCurrent fun p =>
      { p with liveChildren := [], zombieChildren := [], exitStatus := status }
    let s := s.observe (.exited s.currentProc status)
    match pcb.liveParent with
    | none => s.freePcb s.currentProc
    | some parent => s.becomeZombie parent

/-- Everything `KernelExit` does before it switches, but for memory. -/
def kernelExit (s : Sched) (status : Int) : Except Stop Sched :=
  if s.currentProc = INIT_PID then .error .halt
  else do
    -- Each release that works takes one id off the list, so this many rounds empty it.
    let owned := ((s.pcb s.currentProc).map fun p => p.ownedLockIds.length).getD 0
    let s ← s.releaseOwnedLocks owned
    return s.leaveFamily status

/-- `LockNewLock`, and the new entry of the table. -/
def lockNewLock (s : Sched) : Sched :=
  let id := s.nextSynchResourceId
  { s with
    nextSynchResourceId := id + 1
    lock := fun j => if j = id then some {} else s.lock j
    locks := s.locks ++ [id] }

/-- `CVarNewCVar`, and the new entry of the table. -/
def cVarNewCVar (s : Sched) : Sched :=
  let id := s.nextSynchResourceId
  { s with
    nextSynchResourceId := id + 1
    cvar := fun j => if j = id then some {} else s.cvar j
    cvars := s.cvars ++ [id] }

/-- `PipeNewPipe`, and the new entry of the table. -/
def pipeNewPipe (s : Sched) : Sched :=
  let id := s.nextSynchResourceId
  { s with
    nextSynchResourceId := id + 1
    pipe := fun j => if j = id then some {} else s.pipe j
    pipes := s.pipes ++ [id] }

/-- `KernelAcquire` on an available lock. -/
def takeLock (s : Sched) (lockId : Nat) : Sched :=
  let s := s.updLock lockId fun l => { l with acquired := true, ownerId := s.currentProc }
  let s := s.updCurrent fun p => { p with ownedLockIds := p.ownedLockIds ++ [lockId] }
  s.observe (.lockTaken lockId s.currentProc)

/-- `KernelAcquire` on a lock that another process holds, before the switch. -/
def enqueueForLock (s : Sched) (lockId : Nat) : Sched :=
  let s := s.updLock lockId fun l => { l with waitingProcs := l.waitingProcs ++ [s.currentProc] }
  s.observe (.lockBlocked lockId s.currentProc)

/-- `KernelCvarSignal`. -/
def kernelCvarSignal (s : Sched) (cvarId : Nat) : Int × Sched :=
  match s.findCvar cvarId with
  | none => (ERROR, s)
  | some cvar =>
    match cvar.waitingProcs with
    | [] => (SUCCESS, s)
    | waitingProc :: rest =>
      let s := s.updCvar cvarId fun c => { c with waitingProcs := rest }
      (SUCCESS, s.ready waitingProc)

/-- `KernelCvarBroadcast`. -/
def kernelCvarBroadcast (s : Sched) (cvarId : Nat) : Int × Sched :=
  match s.findCvar cvarId with
  | none => (ERROR, s)
  | some cvar =>
    let s := s.updCvar cvarId fun c => { c with waitingProcs := [] }
    (SUCCESS, { s with readyQueue := s.readyQueue ++ cvar.waitingProcs })

/-- The part of `KernelCvarWait` between the two locks, before the switch. -/
def enqueueForCvar (s : Sched) (cvarId : Nat) : Sched :=
  s.updCvar cvarId fun c => { c with waitingProcs := c.waitingProcs ++ [s.currentProc] }

/-- `KernelReclaim`. -/
def kernelReclaim (s : Sched) (id : Nat) : Int × Sched :=
  match s.findLock id with
  | some l =>
    -- The object leaves the table before the checks, and a check that fails does not put it back.
    let s := { s with locks := s.locks.erase id }
    if l.acquired then (ERROR, s)
    else if l.waitingProcs ≠ [] then (ERROR, s)
    else (SUCCESS, s)
  | none =>
    match s.findCvar id with
    | some c =>
      let s := { s with cvars := s.cvars.erase id }
      if c.waitingProcs ≠ [] then (ERROR, s) else (SUCCESS, s)
    | none =>
      match s.findPipe id with
      | some p =>
        let s := { s with pipes := s.pipes.erase id }
        if p.waitingToRead ≠ [] then (ERROR, s) else (SUCCESS, s)
      | none => (ERROR, s)

/-- The end of `KernelPipeWrite`, when the pipe has been filled: one waiting process that
there are enough bytes for becomes ready. -/
def afterPipeWrite (s : Sched) (pipeId : Nat) (p : Pipe) (bytes : List Byte) : Sched :=
  -- A reader is listed under the number of bytes it asks for.
  let (nextProc, waitingToRead) :=
    listFindFirstLessThanIdAndRemove p.waitingToRead p.numCharsAvailable
  let s := s.updPipe pipeId fun _ => { p with waitingToRead := waitingToRead }
  let s := s.observe (.pipeWritten pipeId bytes)
  match nextProc with
  | some nextProc => s.ready nextProc
  | none => s

/-- `KernelDelay`, before the switch. -/
def enqueueForClock (s : Sched) (clockTicks : Int) : Sched :=
  let s := s.updCurrent fun p => { p with clockTicksUntilReady := clockTicks }
  { s with clockBlockProcs := s.clockBlockProcs ++ [s.currentProc] }.observe
    (.delayed s.currentProc clockTicks)

/-- `KernelTtyRead` with no line to consume, before the switch. -/
def enqueueToReceive (s : Sched) (ttyId len : Nat) : Sched :=
  let s := s.updTty ttyId fun t => { t with waitingToReceive := t.waitingToReceive ++ [s.currentProc] }
  s.updCurrent fun p =>
    { p with ttyReceiveLen := len, ttyReceiveBuffer := some (List.replicate len 0) }

/-- `KernelTtyWriteInternal`, before the switch. -/
def enqueueToTransmit (s : Sched) (ttyId : Nat) (bytes : List Byte) : Sched :=
  let s := s.updCurrent fun p =>
    { p with
      ttyTransmitLen := bytes.length, ttyTransmitBuffer := bytes, ttyTransmitPointer := 0 }
  -- The terminal is idle only if nobody was waiting before.
  let queuePrevEmpty := (s.ttys ttyId).waitingToTransmit.isEmpty
  let s := s.updTty ttyId fun t =>
    { t with waitingToTransmit := t.waitingToTransmit ++ [s.currentProc] }
  let s := s.observe (.ttyWritten ttyId s.currentProc bytes)
  if queuePrevEmpty then s.observe (.ttyTransmit ttyId (bytes.take TERMINAL_MAX_LINE)) else s

end Sched

/-! ## The system calls -/

namespace Kernel

/-- `ValidateUserArg`, on the table of the current process. -/
def validateUserArg (k : Kernel) (arg : Nat) (numBytes : Int) (permissions : Nat) : Bool :=
  (Theynix.validateUserArg k.table arg numBytes permissions).1

/-- The PCB of the current process. -/
def currentPcb (k : Kernel) : PCB := (k.pcb k.currentProc).getD {}

/-- `KernelFork`, up to the switch to the child. -/
def kernelFork (k : Kernel) : Except Stop Kernel :=
  let k := k.saveUserContext
  let child := k.nextPid
  -- The pid stays used when one of the allocations fails.
  let k := k.withSched { k.toSched with nextPid := child + 1 }
  let (rc, m) := k.machine.newPageTables child
  let k := { k with machine := m }
  if rc = ERROR then .ok (k.ret ERROR)
  else do
    let (rc, m) ← k.machine.copyRegion1PageTableAndData k.currentProc child
    let k := { k with machine := m }
    if rc = ERROR then return k.ret ERROR
    else
      -- The child gets the bounds of the address space and the saved user context.
      let k := k.setSpace child (k.space k.currentProc)
      let k := k.withSched ((k.toSched.addChild child).ready k.currentProc)
      k.switchToProc child (.kernelFork child)

/-- `KernelExec`. -/
def kernelExec (k : Kernel) (filename argvec : Nat) (env : Env) : Except Stop (Int × Kernel) := do
  let prepared ← execArgs k.machine k.currentProc filename argvec env.heapBytes
  match prepared with
  -- A pointer that was passed is not readable.
  | none => return (ERROR, k)
  | some (heapFilename, heapArgvec) =>
    let r ← loadProgram k.machine k.currentProc (k.space k.currentProc)
      (env.files heapFilename) heapArgvec env.argbufOk
    let k := { k.setSpace k.currentProc r.space with machine := r.machine }
    if r.rc = ERROR then return (ERROR, k)
    -- `KILL` is not `ERROR`: a process whose image could not be read goes on as well.
    else return (SUCCESS, { k with userContext := r.space.userContext })

/-- `KernelExit`, up to the switch. -/
def kernelExit (k : Kernel) (status : Int) : Except Stop Kernel := do
  let s ← k.toSched.kernelExit status
  -- A buffer that a call has freed before is freed again.
  let heap := k.ttyHeap.free k.currentProc .ttyReceiveBuffer
  let heap := heap.free k.currentProc .ttyTransmitBuffer
  let m := k.machine.freeRegion1PageTable k.currentProc
  let m := m.freeRegion0StackPages k.currentProc
  (({ k.withSched s with machine := m }).withHeap heap).switchToNextProc .kernelExit

/-- The part of `KernelWait` that collects the first zombie child. -/
def collectZombie (k : Kernel) (statusPtr : Nat) : Except Stop Kernel :=
  match k.currentPcb.zombieChildren with
  -- `assert(child)`, which follows the switch.
  | [] => .error .assertion
  | child :: rest =>
    match k.pcb child with
    | none => .error .fault
    | some childPcb => do
      let m ← k.machine.storeWord statusPtr (asUnsigned childPcb.exitStatus)
      let s := k.toSched.updCurrent fun p => { p with zombieChildren := rest }
      let s := (s.freePcb child).observe (.waited k.currentProc child childPcb.exitStatus)
      return ({ k.withSched s with machine := m }).ret SUCCESS

/-- `KernelWait`, up to the switch. -/
def kernelWait (k : Kernel) (statusPtr : Nat) : Except Stop Kernel :=
  if !k.validateUserArg statusPtr 4 PROT_WRITE then .ok (k.ret ERROR)
  else if k.currentPcb.zombieChildren ≠ [] then k.collectZombie statusPtr
  -- No child is left that could become a zombie.
  else if k.currentPcb.liveChildren = [] then .ok (k.ret ERROR)
  else
    let s := k.toSched.updCurrent fun p => { p with waitingOnChildren := true }
    (k.withSched s).switchToNextProc (.kernelWait statusPtr)

/-- `KernelBrk`. -/
def kernelBrk (k : Kernel) (addr : Nat) : Except Stop (Int × Kernel) :=
  let space := k.space k.currentProc
  let newUserBrkPage :=
    (addrToPage ((addr + 0xFFFFFFFF) % 0x100000000) + 1 + 0x100000000 - REGION_1_BASE_PAGE)
      % 0x100000000
  let userBrkPage := asUnsigned space.userBrkPage
  let k' := k.setSpace k.currentProc { space with userBrkPage := asInt newUserBrkPage }
  if newUserBrkPage ≥ asUnsigned space.lowestUserStackPage then .ok (ERROR, k)
  else if newUserBrkPage > userBrkPage then do
    let (rc, m) ← k.machine.mapNewRegion1Pages k.currentProc userBrkPage
      (newUserBrkPage - userBrkPage) (PROT_READ ||| PROT_WRITE)
    if rc = ERROR then return (ERROR, { k with machine := m })
    else return (SUCCESS, { k' with machine := m })
  else if newUserBrkPage < userBrkPage then do
    let m ← k.machine.unmapRegion1Pages k.currentProc newUserBrkPage
      (userBrkPage - newUserBrkPage)
    return (SUCCESS, { k' with machine := m })
  else .ok (SUCCESS, k')

/-- `KernelDelay`, up to the switch. -/
def kernelDelay (k : Kernel) (clockTicks : Int) : Except Stop Kernel :=
  if clockTicks < 0 then .ok (k.ret ERROR)
  else if clockTicks = 0 then .ok (k.ret SUCCESS)
  else (k.withSched (k.toSched.enqueueForClock clockTicks)).switchToNextProc .kernelDelay

/-- The part of `KernelTtyRead` that consumes the first line buffer. `memcpy` copies `len`
bytes, also when the buffer is shorter. -/
def consumeLine (k : Kernel) (ttyId : Nat) (lb : LineBuffer) (rest : List LineBuffer)
    (buf len : Nat) (env : Env) : Except Stop Kernel := do
  let bytes := (lb.buffer ++ env.heapBehind ++ List.replicate len 0).take len
  let m ← k.machine.storeBytes buf bytes
  let (leftovers, copied) := lb.afterRead len
  let s := k.toSched.updTty ttyId fun t => { t with lineBuffers := leftovers.toList ++ rest }
  let s := s.observe (.ttyServed ttyId k.currentProc (bytes.take copied))
  return ({ k.withSched s with machine := m }).ret copied

/-- `KernelTtyRead`, up to the switch. -/
def kernelTtyRead (k : Kernel) (ttyId : Int) (buf : Nat) (len : Int) (env : Env) :
    Except Stop Kernel :=
  if ttyId < 0 ∨ ttyId ≥ NUM_TERMINALS then .ok (k.ret ERROR)
  else if len < 0 then .ok (k.ret ERROR)
  else if !k.validateUserArg buf len PROT_WRITE then .ok (k.ret ERROR)
  else
    match (k.ttys ttyId.toNat).lineBuffers with
    -- A line is stored: nothing blocks.
    | lb :: rest => k.consumeLine ttyId.toNat lb rest buf len.toNat env
    | [] =>
      let s := k.toSched.enqueueToReceive ttyId.toNat len.toNat
      let k := k.withHeap (k.ttyHeap.calloc k.currentProc .ttyReceiveBuffer)
      (k.withSched s).switchToNextProc (.kernelTtyRead buf)

/-- `KernelTtyWriteInternal`, up to the switch. -/
def kernelTtyWriteInternal (k : Kernel) (ttyId : Nat) (bytes : List Byte)
    (context : KernelContext) : Except Stop Kernel :=
  let s := k.toSched.enqueueToTransmit ttyId bytes
  let k := k.withHeap (k.ttyHeap.calloc k.currentProc .ttyTransmitBuffer)
  (k.withSched s).switchToNextProc context

/-- `KernelTtyWrite`, up to the switch. -/
def kernelTtyWrite (k : Kernel) (ttyId : Int) (buf : Nat) (len : Int) : Except Stop Kernel :=
  if ttyId < 0 ∨ ttyId ≥ NUM_TERMINALS then .ok (k.ret ERROR)
  else if len < 0 then .ok (k.ret ERROR)
  else if !k.validateUserArg buf len PROT_READ then .ok (k.ret ERROR)
  else do
    let bytes ← k.machine.loadBytes buf len.toNat
    k.kernelTtyWriteInternal ttyId.toNat bytes (.kernelTtyWrite len.toNat)

/-- The end of `KernelPipeInit`, `KernelLockInit` and `KernelCvarInit`: stores the id of the
new object, which is in `s`. -/
def storeNewId (k : Kernel) (s : Sched) (idp : Nat) : Except Stop Kernel := do
  let m ← k.machine.storeWord idp (k.nextSynchResourceId % 0x100000000)
  return ({ k.withSched s with machine := m }).ret SUCCESS

/-- `KernelPipeInit`. -/
def kernelPipeInit (k : Kernel) (pipeIdp : Nat) : Except Stop Kernel :=
  if !k.validateUserArg pipeIdp 4 PROT_WRITE then .ok (k.ret ERROR)
  else k.storeNewId k.toSched.pipeNewPipe pipeIdp

/-- `KernelLockInit`. -/
def kernelLockInit (k : Kernel) (lockIdp : Nat) : Except Stop Kernel :=
  if !k.validateUserArg lockIdp 4 PROT_WRITE then .ok (k.ret ERROR)
  else k.storeNewId k.toSched.lockNewLock lockIdp

/-- `KernelCvarInit`. -/
def kernelCvarInit (k : Kernel) (cvarIdp : Nat) : Except Stop Kernel :=
  if !k.validateUserArg cvarIdp 4 (PROT_READ ||| PROT_WRITE) then .ok (k.ret ERROR)
  else k.storeNewId k.toSched.cVarNewCVar cvarIdp

/-- The loop of `KernelPipeRead` and what follows it, up to the next switch. -/
def pipeReadLoop (k : Kernel) (pipeId buf len : Nat) : Except Stop Kernel :=
  match k.pipe pipeId with
  | none => .error .fault
  | some p =>
    -- The condition of the `while` loop: a reader that was woken checks it again.
    if p.numCharsAvailable < len then
      let s := k.toSched.updPipe pipeId fun p =>
        { p with waitingToRead := p.waitingToRead ++ [(len, k.currentProc)] }
      (k.withSched s).switchToNextProc (.kernelPipeRead pipeId buf len)
    else do
      let (bytes, p) ← p.pipeCopyIntoUserBuffer len
      let m ← k.machine.storeBytes buf bytes
      let s := k.toSched.updPipe pipeId fun _ => p
      let s := s.observe (.pipeRead pipeId k.currentProc len bytes)
      return ({ k.withSched s with machine := m }).ret len

/-- `KernelPipeRead`, up to the switch. -/
def kernelPipeRead (k : Kernel) (pipeId buf : Nat) (len : Int) : Except Stop Kernel :=
  if len < 0 then .ok (k.ret ERROR)
  else if len = 0 then .ok (k.ret SUCCESS)
  else if !k.validateUserArg buf len PROT_WRITE then .ok (k.ret ERROR)
  else
    match k.findPipe pipeId with
    | none => .ok (k.ret ERROR)
    | some _ => k.pipeReadLoop pipeId buf len.toNat

/-- `KernelPipeWrite`. -/
def kernelPipeWrite (k : Kernel) (pipeId buf : Nat) (len : Int) : Except Stop Kernel :=
  if len < 0 then .ok (k.ret ERROR)
  else if len = 0 then .ok (k.ret SUCCESS)
  else if !k.validateUserArg buf len PROT_READ then .ok (k.ret ERROR)
  else
    match k.findPipe pipeId with
    | none => .ok (k.ret ERROR)
    | some p => do
      let bytes ← k.machine.loadBytes buf len.toNat
      let p ← p.write bytes
      return (k.withSched (k.toSched.afterPipeWrite pipeId p bytes)).ret len

/-- `KernelAcquire`, up to the switch. -/
def kernelAcquire (k : Kernel) (lockId : Nat) : Except Stop Kernel :=
  match k.findLock lockId with
  | none => .ok (k.ret ERROR)
  | some lock =>
    let returned := Obs.lockReturned lockId k.currentProc
    -- Acquiring a lock twice is acquiring it once.
    if lock.acquired && lock.ownerId == k.currentProc then
      .ok ((k.withSched (k.toSched.observe returned)).ret SUCCESS)
    else if !lock.acquired then
      .ok ((k.withSched ((k.toSched.takeLock lockId).observe returned)).ret SUCCESS)
    else
      (k.withSched (k.toSched.enqueueForLock lockId)).switchToNextProc (.kernelAcquire lockId)

/-- `KernelAcquire`, after the switch. -/
def kernelAcquireReturn (k : Kernel) (lockId : Nat) : Except Stop Kernel :=
  match k.lock lockId with
  | none => .error .fault
  | some lock => do
    cAssert (lock.ownerId == k.currentProc)
    cAssert lock.acquired
    cAssert (k.currentPcb.ownedLockIds.contains lockId)
    return (k.withSched (k.toSched.observe (.lockReturned lockId k.currentProc))).ret SUCCESS

/-- `KernelCvarWait`, up to the switch. -/
def kernelCvarWait (k : Kernel) (cvarId lockId : Nat) : Except Stop Kernel :=
  match k.findCvar cvarId with
  | none => .ok (k.ret ERROR)
  | some _ => do
    let (rc, s) ← k.toSched.kernelRelease lockId
    -- The caller does not hold the lock.
    if rc = ERROR then return (k.withSched s).ret ERROR
    else (k.withSched (s.enqueueForCvar cvarId)).switchToNextProc (.kernelCvarWait lockId)

/-- A system call that touches no memory and does not switch. -/
def retSched (k : Kernel) (result : Int × Sched) : Kernel := (k.withSched result.2).ret result.1

end Kernel

end Theynix
