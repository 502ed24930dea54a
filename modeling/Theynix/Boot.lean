import Mathlib.Logic.Relation
import Theynix.Traps

/-!
# `Theynix.Boot`: the start of the kernel, and its runs

`kernelStart` is `KernelStart`. A run starts in the state it builds and goes on with steps:
traps, the resumption of a process that was switched to, loads and stores of the running user
process, and changes of the kernel break by the kernel's own `malloc`. A user store goes
through the table of the process, or through an entry that the TLB still holds. The runs are
those in which no store goes through a stale entry (`Kernel.Fresh`).

The idle process runs the loop of `idle.c`, so it takes no trap but those of the clock and
the terminals. A process that runs user code may trap at any time and in any way, with any
values in its registers.
-/

set_option autoImplicit false

namespace Theynix

/-- What the boot ROM hands to `KernelStart`, and the contents of memory at that time. -/
structure BootImage where
  kernelBrkPage : Nat
  kernelDataStartPage : Nat
  /-- Kernel text, data and heap end below the kernel stack. -/
  kernelBrkPage_lt : kernelBrkPage < KERNEL_STACK_BASE_PAGE
  pmemSize : Nat
  cmdArgs : List (List Byte)
  userContext : UserContext
  env : Env
  memory : Nat → Nat → Byte
  garbage : PageTable → Nat → Pte

/-- The entry of the region 0 table for a page of the kernel's text, data and heap. -/
def bootRegion0Pte (kernelBrkPage kernelDataStartPage i : Nat) : Pte :=
  if i < kernelBrkPage then
    { valid := true
      pfn := i
      prot :=
        if i < kernelDataStartPage then PROT_READ ||| PROT_EXEC else PROT_READ ||| PROT_WRITE }
  else {}

namespace Kernel

/-- The machine after the page tables of the kernel and of idle have been built, virtual
memory has been enabled and physical memory is managed. -/
def bootMachine (b : BootImage) : Machine :=
  let m : Machine :=
    { frame := b.memory
      pte := fun t i =>
        match t with
        | .region0 =>
          if i < VMEM_REGION_SIZE / PAGESIZE then
            bootRegion0Pte b.kernelBrkPage b.kernelDataStartPage i
          else b.garbage t i
        | .region1 0 => if i < NUM_PAGES_REG_1 then {} else b.garbage t i
        | .kernelStack 0 =>
          if i < NUM_KERNEL_PAGES then
            { valid := true, pfn := i + KERNEL_STACK_BASE_PAGE, prot := PROT_READ ||| PROT_WRITE }
          else b.garbage t i
        | t => b.garbage t i
      ptbr1 := .region1 IDLE_PID
      freeFramesHead := 0
      freeFramesTail := 0
      kernelBrkPage := b.kernelBrkPage
      virtualMemoryEnabled := true }
  (m.useKernelStackForProc IDLE_PID).initializePhysicalMemoryManagement b.pmemSize

/-- The state of the scheduler at the end of `KernelStart`. -/
def bootSched : Sched :=
  { pcb := fun p =>
      if p = IDLE_PID then
        some { kernelContextInitialized := true, kernelContext := .trapClock }
      else if p = INIT_PID then some {}
      else none
    currentProc := IDLE_PID
    readyQueue := [INIT_PID]
    clockBlockProcs := []
    ttys := fun _ => {}
    locks := []
    cvars := []
    pipes := []
    lock := fun _ => none
    cvar := fun _ => none
    pipe := fun _ => none
    nextPid := 2
    nextSynchResourceId := 1
    mode := .user
    history := [] }

/-- The name of the init program. -/
def initProgramName (b : BootImage) : List Byte := b.cmdArgs.headD (message "init")

/-- `KernelStart`. -/
def kernelStart (b : BootImage) : Except Stop Kernel := do
  let blank : Space := { userContext := b.userContext }
  let m := bootMachine b
  let idle ← loadProgram m IDLE_PID blank (b.env.files (message "idle")) none b.env.argbufOk
  if idle.rc ≠ SUCCESS then .error .halt
  else
    let (rc, m) := idle.machine.newPageTables INIT_PID
    -- `NewBlankPCBWithPageTables` returned null, and its result is used.
    if rc = ERROR then .error .fault
    else
      let m := { m with ptbr1 := .region1 INIT_PID }.flushRegion1
      let init ← loadProgram m INIT_PID blank (b.env.files (initProgramName b)) (some b.cmdArgs)
        b.env.argbufOk
      if init.rc ≠ SUCCESS then .error .halt
      else
        return {
          toSched := bootSched
          machine := { init.machine with ptbr1 := .region1 IDLE_PID }.flushRegion1
          space := fun p => if p = IDLE_PID then idle.space else init.space
          userContext := idle.space.userContext }

end Kernel

/-! ## Runs -/

/-- What can happen next. -/
inductive Event
  /-- A trap, with the user context that the hardware has saved. -/
  | trap (userContext : UserContext) (env : Env)
  /-- The process that was switched to goes on in the kernel. -/
  | resume
  /-- The running process loads a byte. -/
  | userLoad (va : Nat)
  /-- The running process stores a byte. -/
  | userStore (va : Nat) (b : Byte)
  /-- The running process stores a byte through an entry that the TLB holds. -/
  | cachedStore (entry : Pte) (va : Nat) (b : Byte)
  /-- The kernel's `malloc` moves the kernel break. -/
  | setKernelBrk (addr : Nat)

/-- The traps that can occur while idle runs. -/
def IsDeviceTrap (vector : Nat) : Prop :=
  vector = TRAP_CLOCK ∨ vector = TRAP_TTY_RECEIVE ∨ vector = TRAP_TTY_TRANSMIT

/-- One step of the machine. -/
inductive Step (k : Kernel) : Event → Kernel → Prop
  | trap {k' : Kernel} {uc : UserContext} {env : Env} (mode : k.mode = .user)
      (idle : k.currentProc = IDLE_PID → IsDeviceTrap uc.vector)
      (run : { k with userContext := uc }.trap env = .ok k') : Step k (.trap uc env) k'
  | resume {k' : Kernel} (mode : k.mode = .kernel) (run : k.resume = .ok k') :
      Step k .resume k'
  | userLoad {va : Nat} {b : Byte} (mode : k.mode = .user) (run : k.machine.loadByte va = .ok b) :
      Step k (.userLoad va)
        { k with machine := k.machine.access (addrToPage (va - VMEM_1_BASE)) }
  | userStore {m : Machine} {va : Nat} {b : Byte} (mode : k.mode = .user)
      (run : k.machine.storeByte va b = .ok m) :
      Step k (.userStore va b) { k with machine := m }
  | cachedStore {m : Machine} {entry : Pte} {va : Nat} {b : Byte} (mode : k.mode = .user)
      (cached : entry ∈ k.machine.tlb (addrToPage (va - VMEM_1_BASE)))
      (run : k.machine.storeThrough entry va b = .ok m) :
      Step k (.cachedStore entry va b) { k with machine := m }
  | setKernelBrk {m : Machine} {rc : Int} {addr : Nat}
      (run : k.machine.setKernelBrk addr = .ok (rc, m)) :
      Step k (.setKernelBrk addr) { k with machine := m }

instance (vector : Nat) : Decidable (IsDeviceTrap vector) :=
  inferInstanceAs (Decidable (_ ∨ _ ∨ _))

/-- The step on an event, computed: `none` when the event cannot occur or the kernel stops. -/
def Kernel.next (k : Kernel) : Event → Option Kernel
  | .trap uc env =>
    if k.mode = .user ∧ (k.currentProc = IDLE_PID → IsDeviceTrap uc.vector) then
      ({ k with userContext := uc }.trap env).toOption
    else none
  | .resume => if k.mode = .kernel then k.resume.toOption else none
  | .userLoad va =>
    if k.mode = .user then
      ((k.machine.loadByte va).map fun _ =>
        { k with machine := k.machine.access (addrToPage (va - VMEM_1_BASE)) }).toOption
    else none
  | .userStore va b =>
    if k.mode = .user then
      ((k.machine.storeByte va b).map fun m => { k with machine := m }).toOption
    else none
  | .cachedStore entry va b =>
    if k.mode = .user ∧ entry ∈ k.machine.tlb (addrToPage (va - VMEM_1_BASE)) then
      ((k.machine.storeThrough entry va b).map fun m => { k with machine := m }).toOption
    else none
  | .setKernelBrk addr =>
    ((k.machine.setKernelBrk addr).map fun r => { k with machine := r.2 }).toOption

theorem Except.toOption_eq_some {ε α : Type} {x : Except ε α} {a : α}
    (h : x.toOption = some a) : x = .ok a := by
  cases x with
  | ok b => exact congrArg _ (Option.some.inj h)
  | error e => cases h

theorem Except.map_eq_ok {ε α β : Type} {x : Except ε α} {f : α → β} {b : β}
    (h : (x.map f).toOption = some b) : ∃ a, x = .ok a ∧ f a = b := by
  cases x with
  | ok a => exact ⟨a, rfl, Option.some.inj h⟩
  | error e => cases h

/-- The computed step is a step. -/
theorem Step.of_next {k k' : Kernel} {e : Event} (h : k.next e = some k') : Step k e k' := by
  cases e with
  | trap uc env =>
      simp only [Kernel.next] at h
      split at h
      case isFalse => cases h
      case isTrue hc => exact .trap hc.1 hc.2 (Except.toOption_eq_some h)
  | resume =>
      simp only [Kernel.next] at h
      split at h
      case isFalse => cases h
      case isTrue hc => exact .resume hc (Except.toOption_eq_some h)
  | userLoad va =>
      simp only [Kernel.next] at h
      split at h
      case isFalse => cases h
      case isTrue hc =>
          obtain ⟨b, hrun, rfl⟩ := Except.map_eq_ok h
          exact .userLoad hc hrun
  | userStore va b =>
      simp only [Kernel.next] at h
      split at h
      case isFalse => cases h
      case isTrue hc =>
          obtain ⟨m, hrun, rfl⟩ := Except.map_eq_ok h
          exact .userStore hc hrun
  | cachedStore entry va b =>
      simp only [Kernel.next] at h
      split at h
      case isFalse => cases h
      case isTrue hc =>
          obtain ⟨m, hrun, rfl⟩ := Except.map_eq_ok h
          exact .cachedStore hc.1 hc.2 hrun
  | setKernelBrk addr =>
      simp only [Kernel.next] at h
      obtain ⟨r, hrun, rfl⟩ := Except.map_eq_ok h
      exact .setKernelBrk hrun

/-- A store through an entry of the TLB uses one that is still in the table of the running
process. The hardware does not check this. -/
def Kernel.Fresh (k : Kernel) : Event → Prop
  | .cachedStore entry va _ =>
    entry = k.machine.pte k.machine.ptbr1 (addrToPage (va - VMEM_1_BASE))
  | _ => True

instance (k : Kernel) (e : Event) : Decidable (k.Fresh e) :=
  match e with
  | .cachedStore entry va _ =>
    inferInstanceAs (Decidable (entry = k.machine.pte k.machine.ptbr1 (addrToPage (va - VMEM_1_BASE))))
  | .trap _ _ | .resume | .userLoad _ | .userStore _ _ | .setKernelBrk _ => .isTrue trivial

/-- A step on some event that satisfies the condition in the state before it, and in which no
store goes through a stale entry of the TLB. -/
def StepWhen (cond : Kernel → Event → Prop) (k k' : Kernel) : Prop :=
  ∃ e, cond k e ∧ k.Fresh e ∧ Step k e k'

/-- The states of the runs from the start of the kernel whose steps all meet a condition. -/
def ReachableWhen (cond : Kernel → Event → Prop) (b : BootImage) (k : Kernel) : Prop :=
  ∃ k₀, Kernel.kernelStart b = .ok k₀ ∧ Relation.ReflTransGen (StepWhen cond) k₀ k

/-- The states of the runs from the start of the kernel. -/
def Reachable (b : BootImage) (k : Kernel) : Prop := ReachableWhen (fun _ _ => True) b k

/-- What holds at the start of the kernel and is kept by every step that meets the
condition holds in every state of the runs whose steps all meet it. -/
theorem ReachableWhen.invariant {cond : Kernel → Event → Prop} {b : BootImage}
    {I : Kernel → Prop} (start : ∀ k, Kernel.kernelStart b = .ok k → I k)
    (step : ∀ k e k', I k → cond k e → k.Fresh e → Step k e k' → I k') {k : Kernel}
    (h : ReachableWhen cond b k) : I k := by
  obtain ⟨k₀, hstart, hrun⟩ := h
  induction hrun with
  | refl => exact start k₀ hstart
  | tail _ hstep ih =>
      obtain ⟨e, hcond, hfresh, hstep⟩ := hstep
      exact step _ e _ ih hcond hfresh hstep

/-- A run whose steps meet a condition is a run. -/
theorem ReachableWhen.reachable {cond : Kernel → Event → Prop} {b : BootImage} {k : Kernel}
    (h : ReachableWhen cond b k) : Reachable b k := by
  obtain ⟨k₀, hstart, hrun⟩ := h
  refine ⟨k₀, hstart, Relation.ReflTransGen.mono ?_ _ _ hrun⟩
  rintro a c ⟨e, -, hfresh, hstep⟩
  exact ⟨e, trivial, hfresh, hstep⟩

/-! ## Computed runs -/

/-- The state after a list of events that all meet a condition: `none` when one of them does not
meet it, uses a stale entry, cannot occur, or stops the kernel. -/
def Kernel.runFrom (cond : Kernel → Event → Prop) [∀ k e, Decidable (cond k e)] (k : Kernel)
    (events : List Event) : Option Kernel :=
  events.foldlM (fun k e => if cond k e ∧ k.Fresh e then k.next e else none) k

theorem Kernel.steps_of_runFrom {cond : Kernel → Event → Prop} [∀ k e, Decidable (cond k e)]
    {k k' : Kernel} {events : List Event} (h : k.runFrom cond events = some k') :
    Relation.ReflTransGen (StepWhen cond) k k' := by
  unfold Kernel.runFrom at h
  induction events generalizing k with
  | nil =>
      cases h
      exact .refl
  | cons e events ih =>
      simp only [List.foldlM_cons] at h
      split at h
      · rename_i hcond
        obtain ⟨k₁, hnext, hrest⟩ := Option.bind_eq_some_iff.mp h
        exact .head ⟨e, hcond.1, hcond.2, Step.of_next hnext⟩ (ih hrest)
      · cases h

/-- The state after the start of the kernel and a list of events that all meet a condition:
`none` when one of them does not meet it, uses a stale entry, cannot occur, or stops the
kernel. -/
def Kernel.runWhen (cond : Kernel → Event → Prop) [∀ k e, Decidable (cond k e)] (b : BootImage)
    (events : List Event) : Option Kernel :=
  match Kernel.kernelStart b with
  | .ok k => events.foldlM (fun k e => if cond k e ∧ k.Fresh e then k.next e else none) k
  | .error _ => none

/-- The state after the start of the kernel and a list of events. -/
def Kernel.run (b : BootImage) (events : List Event) : Option Kernel :=
  Kernel.runWhen (fun _ _ => True) b events

theorem ReachableWhen.of_run {cond : Kernel → Event → Prop} [∀ k e, Decidable (cond k e)]
    {b : BootImage} {events : List Event} {k : Kernel} (h : Kernel.runWhen cond b events = some k) :
    ReachableWhen cond b k := by
  unfold Kernel.runWhen at h
  cases hstart : Kernel.kernelStart b with
  | error e => simp [hstart] at h
  | ok k₀ =>
      simp only [hstart] at h
      exact ⟨k₀, hstart, Kernel.steps_of_runFrom h⟩

theorem Reachable.of_run {b : BootImage} {events : List Event} {k : Kernel}
    (h : Kernel.run b events = some k) : Reachable b k :=
  ReachableWhen.of_run h

/-- A program with no code and no data, which only has a stack. -/
def emptyProgram : Executable :=
  { loadInfo := some
      { entry := VMEM_1_BASE, tVaddr := VMEM_1_BASE, tNpg := 0, idVaddr := VMEM_1_BASE, idNpg := 0
        idEnd := VMEM_1_BASE, udNpg := 0, udEnd := VMEM_1_BASE }
    text := some []
    data := some [] }

/-- A machine with 136 frames, on which every file holds the empty program. -/
def smallImage : BootImage :=
  { kernelBrkPage := 110
    kernelDataStartPage := 100
    kernelBrkPage_lt := by decide
    pmemSize := 0x110000
    cmdArgs := []
    userContext := {}
    env := { files := fun _ => some emptyProgram }
    memory := fun _ _ => 0
    garbage := fun _ _ => {} }

/-- The running process makes a system call with three arguments. -/
def systemCall (code a b c : Nat) : Event :=
  .trap { code := code, regs := fun i => if i = 0 then a else if i = 1 then b else if i = 2 then c else 0 } {}

/-- The clock ticks. -/
def clockTick : Event := .trap { vector := TRAP_CLOCK } {}

/-- An address in the stack of a process that runs the empty program. -/
def stackBuffer : Nat := 0x1FFF80

/-- The running process stores bytes from an address upwards. -/
def userStores (va : Nat) : List Byte → List Event
  | [] => []
  | b :: bytes => .userStore va b :: userStores (va + 1) bytes

/-- Init runs in user mode: the clock has ticked in idle, and init has been switched to. -/
def initRuns : List Event := [clockTick, .resume]

end Theynix
