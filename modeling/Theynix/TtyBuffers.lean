import Theynix.FatalTraps
import Theynix.Lib.Ledger

/-!
# `Theynix.TtyBuffers`: who frees the terminal buffers

A process that blocks in a terminal call points to a buffer on the kernel heap. `KernelTtyRead`
frees it when it goes on, and `TrapTtyTransmit` when a write is done, but neither clears the
field of the PCB, and `KernelExit` frees both fields whatever they hold. So the field of a
process whose call is over points to freed memory, and the exit of the process frees it twice.

The buffers are tokens of a `Lib.Exclusive` ledger: a slot is a field of a live process, and the
queue is the list of buffers that were freed. `HeapStep` lists what a step that ends no call can
do, and `BufferInv.step` shows that it keeps the ledger.

* `tty_buffers_sound`: in the runs in which no blocked terminal call ends, every field is null
  or points to a buffer that is allocated, and no buffer is freed twice.
* `tty_buffer_freed_twice`: a child writes a line, goes on, and exits.
-/

set_option autoImplicit false

namespace Theynix

open Theynix.Lib (Exclusive bind_eq_ok ite_eq_ok)

/-! ## The heap -/

namespace TtyHeap

variable {h : TtyHeap} {p q : Pid} {f g : TtyField}

/-- A buffer that is allocated and has not been freed. -/
def HandedOut (h : TtyHeap) (buffer : Nat) : Prop := buffer < h.callocs ∧ buffer ∉ h.frees

@[simp] theorem free_pointer : (h.free p f).pointer = h.pointer := by
  unfold free
  split <;> rfl

@[simp] theorem free_callocs : (h.free p f).callocs = h.callocs := by
  unfold free
  split <;> rfl

theorem free_null (hnull : h.pointer p f = none) : h.free p f = h := by
  unfold free
  rw [hnull]

theorem free_frees {buffer : Nat} (hbuffer : h.pointer p f = some buffer) :
    (h.free p f).frees = h.frees ++ [buffer] := by
  unfold free
  rw [hbuffer]

theorem mem_frees_of_free {buffer : Nat} (hmem : buffer ∈ (h.free p f).frees) :
    buffer ∈ h.frees ∨ h.pointer p f = some buffer := by
  cases hbuffer : h.pointer p f with
  | none =>
      rw [free_null hbuffer] at hmem
      exact .inl hmem
  | some b =>
      rw [free_frees hbuffer] at hmem
      rcases List.mem_append.mp hmem with hmem | hmem
      · exact .inl hmem
      · exact .inr (by rw [List.mem_singleton.mp hmem])

/-- A field that holds its buffer gives it back, and is forgotten. -/
theorem free_exclusive {held held' : Pid × TtyField → Option Nat} (hx : Exclusive held h.frees)
    (hheld : held (p, f) = h.pointer p f) (hnone : held' (p, f) = none)
    (hother : ∀ {r b}, r ≠ (p, f) → held' r = some b → held r = some b) :
    Exclusive held' (h.free p f).frees := by
  cases hbuffer : h.pointer p f with
  | none =>
      rw [free_null hbuffer]
      refine hx.mono fun {r b} hr => ?_
      by_cases hrp : r = (p, f)
      · rw [hrp, hnone] at hr
        cases hr
      · exact hother hrp hr
  | some b =>
      rw [free_frees hbuffer]
      exact hx.give (hheld.trans hbuffer) hnone hother

end TtyHeap

/-! ## Steps -/

/-- Whether a process was suspended in `KernelTtyRead`. -/
def KernelContext.isKernelTtyRead : KernelContext → Bool
  | .kernelTtyRead _ => true
  | _ => false

namespace Kernel

/-- The step ends a terminal call that has blocked: a `KernelTtyRead` goes on, or a process has
transmitted everything. -/
def EndsTtyCall (k : Kernel) : Event → Prop
  | .trap uc _ => uc.vector = TRAP_TTY_TRANSMIT ∧ (k.transmitDone uc.code).isSome
  | .resume => k.currentPcb.kernelContext.isKernelTtyRead
  | _ => False

instance (k : Kernel) (e : Event) : Decidable (k.EndsTtyCall e) :=
  match e with
  | .trap _ _ => inferInstanceAs (Decidable (_ ∧ _))
  | .resume => inferInstanceAs (Decidable (_ = true))
  | .userLoad _ | .userStore _ _ | .cachedStore _ _ _ | .setKernelBrk _ => .isFalse id

/-- What a step does to the terminal buffers that ends no call. -/
inductive HeapStep (k k' : Kernel) : Prop
  | same (heap : k'.ttyHeap = k.ttyHeap)
  | calloc (f : TtyField) (heap : k'.ttyHeap = k.ttyHeap.calloc k.currentProc f)
  | exit (dead : k'.live k.currentProc = false)
      (heap : k'.ttyHeap = (k.ttyHeap.free k.currentProc .ttyReceiveBuffer).free k.currentProc
        .ttyTransmitBuffer)

section
variable {k k' k₁ : Kernel}

theorem kernelFork_ttyHeap (h : k.kernelFork = .ok k') : k'.ttyHeap = k.ttyHeap := by
  rcases kernelFork_cases h with ⟨m, rfl⟩ | ⟨m, -, -, hswitch⟩
  · rfl
  · exact (switchToProc_switched hswitch).ttyHeap

theorem kernelExec_ttyHeap {filename argvec : Nat} {env : Env} {rc : Int}
    (h : k.kernelExec filename argvec env = .ok (rc, k')) : k'.ttyHeap = k.ttyHeap := by
  obtain ⟨args, -, h⟩ := bind_eq_ok.mp h
  split at h
  · cases h
    rfl
  · obtain ⟨r, -, h⟩ := bind_eq_ok.mp h
    rcases ite_eq_ok h with ⟨-, h⟩ | ⟨-, h⟩ <;> cases h <;> rfl

theorem kernelBrk_ttyHeap {addr : Nat} {rc : Int} (h : k.kernelBrk addr = .ok (rc, k')) :
    k'.ttyHeap = k.ttyHeap := by
  unfold Kernel.kernelBrk at h
  rcases ite_eq_ok h with ⟨-, h⟩ | ⟨-, h⟩
  · cases h
    rfl
  rcases ite_eq_ok h with ⟨-, h⟩ | ⟨-, h⟩
  · obtain ⟨r, -, h⟩ := bind_eq_ok.mp h
    rcases ite_eq_ok h with ⟨-, h⟩ | ⟨-, h⟩ <;> cases h <;> rfl
  rcases ite_eq_ok h with ⟨-, h⟩ | ⟨-, h⟩
  · obtain ⟨m, -, h⟩ := bind_eq_ok.mp h
    cases h
    rfl
  · cases h
    rfl

/-- A turn that ends no terminal call frees nothing. -/
theorem HeapStep.of_turn {suspends : KernelContext → Prop} {returns : Int → Prop}
    (h : Turn suspends returns k k')
    (hread : k.mode = .kernel → k.currentPcb.kernelContext.isKernelTtyRead = false)
    (hdone : k.mode = .user → k.userContext.vector = TRAP_TTY_TRANSMIT →
      k.transmitDone k.userContext.code = none) : HeapStep k k' := by
  have huse : ∀ {heap : TtyHeap}, k.HeapUse heap → k'.ttyHeap = heap → HeapStep k k' := by
    intro heap huse heq
    cases huse with
    | same => exact .same heq
    | calloc f => exact .calloc f heq
    | received entry =>
        have hcontext : k.currentPcb.kernelContext = _ := entry.2
        have hnot := hread entry.1
        rw [hcontext] at hnot
        cases hnot
    | transmitted mode vector done =>
        rw [hdone mode vector] at done
        cases done
  cases h with
  | ret result contexts store buffers => exact huse buffers rfl
  | back outside contexts mode buffers => exact huse buffers rfl
  | switch context run contexts buffers => exact huse buffers (switchToNextProc_switched run).ttyHeap

theorem HeapStep.of_exit {status : Int} (hrun : k.toSched.Running)
    (hidle : k.currentProc ≠ IDLE_PID) (h : k.kernelExit status = .ok k') : HeapStep k k' := by
  obtain ⟨k₁, -, -, -, hheap, hswitch⟩ := kernelExit_eq_ok h
  exact .exit (kernelExit_dead hrun hidle h) ((switchToNextProc_switched hswitch).ttyHeap.trans hheap)

/-- The same buffers were there before, in the same processes. -/
theorem HeapStep.congr (h : HeapStep k₁ k') (hheap : k₁.ttyHeap = k.ttyHeap)
    (hcur : k₁.currentProc = k.currentProc) : HeapStep k k' := by
  rcases h with heap | ⟨f, heap⟩ | ⟨dead, heap⟩ <;> rw [hheap] at heap
  · exact .same heap
  · exact .calloc f (hcur ▸ heap)
  · exact .exit (hcur ▸ dead) (hcur ▸ heap)

/-- A step that ends no terminal call frees buffers only in `KernelExit`. -/
theorem heapStep {e : Event} (hrun : k.toSched.Running) (hends : ¬ k.EndsTtyCall e)
    (hstep : Step k e k') : HeapStep k k' := by
  cases hstep with
  | @trap _ uc env mode idle run =>
      suffices h : HeapStep { k with userContext := uc } k' from h.congr rfl rfl
      have hdone : uc.vector = TRAP_TTY_TRANSMIT → k.transmitDone uc.code = none := by
        intro vector
        rw [← Option.not_isSome_iff_eq_none]
        exact fun hsome => hends ⟨vector, hsome⟩
      have hturn : ∀ {suspends : KernelContext → Prop} {returns : Int → Prop},
          Turn suspends returns { k with userContext := uc } k' →
            HeapStep { k with userContext := uc } k' := fun turn =>
        .of_turn turn (fun hmode => by cases mode.symm.trans hmode) fun _ => hdone
      cases trap_effect (k := { k with userContext := uc }) hrun mode run with
      | turn turn => exact hturn turn
      | fork call run => exact .same (kernelFork_ttyHeap run)
      | exec call hexec ret =>
          subst ret
          have hheap := kernelExec_ttyHeap hexec
          exact .same hheap
      | brk call hbrk ret =>
          subst ret
          have hheap := kernelBrk_ttyHeap hbrk
          exact .same hheap
      | grow vector grows run back =>
          subst back
          exact .same rfl
      | @outOfFrames m msg vector grows run fatal =>
          exact .calloc .ttyTransmitBuffer (switchToNextProc_switched fatal).ttyHeap
      | exit vector run => exact .of_exit hrun (fun hidle => vector (idle hidle)) run
  | resume mode run =>
      have hread : k.currentPcb.kernelContext.isKernelTtyRead = false := by
        rw [← Bool.not_eq_true]
        exact hends
      suffices h : HeapStep k.restoreUserContext k' from h.congr rfl rfl
      rcases resume_effect mode run with turn | ⟨hcontext, hexit⟩
      · exact .of_turn turn (fun _ => hread) fun hmode => by cases mode.symm.trans hmode
      · exact .of_exit hrun (hrun.ne_idle ⟨mode, hcontext⟩ (by simp)) hexit
  | userLoad | userStore | cachedStore => exact .same rfl
  | setKernelBrk run => exact .same rfl

end

/-! ## The ledger -/

/-- The buffers that the fields of live processes point to. -/
def heldBuffer (k : Kernel) : Pid × TtyField → Option Nat := fun r =>
  if k.live r.1 then k.ttyHeap.pointer r.1 r.2 else none

/-- The fields of live processes and the freed buffers are a ledger. -/
structure BufferInv (k : Kernel) : Prop where
  exclusive : Exclusive k.heldBuffer k.ttyHeap.frees
  pointers : ∀ p f buffer, k.ttyHeap.pointer p f = some buffer →
    p < k.nextPid ∧ buffer < k.ttyHeap.callocs
  frees : ∀ buffer ∈ k.ttyHeap.frees, buffer < k.ttyHeap.callocs

/-- The fields of a live process are null or point to allocated buffers, and no buffer has been
freed twice. -/
structure BuffersSound (k : Kernel) : Prop where
  handedOut : ∀ p f buffer, k.live p = true → k.ttyHeap.pointer p f = some buffer →
    k.ttyHeap.HandedOut buffer
  once : k.ttyHeap.frees.Nodup

section
variable {k k' : Kernel}

theorem heldBuffer_eq_some {r : Pid × TtyField} {buffer : Nat} :
    k.heldBuffer r = some buffer ↔ k.live r.1 = true ∧ k.ttyHeap.pointer r.1 r.2 = some buffer := by
  unfold heldBuffer
  split <;> simp_all

theorem BufferInv.sound (h : k.BufferInv) : k.BuffersSound where
  handedOut p f buffer hlive hpointer :=
    ⟨(h.pointers p f buffer hpointer).2,
      h.exclusive.notFree (r := (p, f)) (heldBuffer_eq_some.mpr ⟨hlive, hpointer⟩)⟩
  once := h.exclusive.nodup

/-- There are no buffers at the start. -/
theorem BufferInv.start (h : k.ttyHeap = {}) : k.BufferInv where
  exclusive := by
    refine ⟨h ▸ List.nodup_nil, fun {r r' b} hr => ?_, fun {r b} hr => ?_⟩ <;>
      · have hp := (heldBuffer_eq_some.mp hr).2
        rw [h] at hp
        cases hp
  pointers p f buffer hp := by
    rw [h] at hp
    cases hp
  frees buffer hb := by
    rw [h] at hb
    cases hb

/-- What a live process points to after a step it pointed to before, if the step did not
change its field. -/
theorem BufferInv.held_mono (h : k.BufferInv)
    (hlive : ∀ p, p < k.nextPid → k'.live p = true → k.live p = true)
    {r : Pid × TtyField} {buffer : Nat}
    (hpointer : k'.ttyHeap.pointer r.1 r.2 = k.ttyHeap.pointer r.1 r.2)
    (hheld : k'.heldBuffer r = some buffer) : k.heldBuffer r = some buffer := by
  obtain ⟨hr, hp⟩ := heldBuffer_eq_some.mp hheld
  rw [hpointer] at hp
  exact heldBuffer_eq_some.mpr ⟨hlive _ (h.pointers _ _ _ hp).1 hr, hp⟩

/-- A step that ends no terminal call keeps the ledger. -/
theorem BufferInv.step (h : k.BufferInv) (hcur : k.currentProc < k.nextPid)
    (hcurLive : k.live k.currentProc = true) (hnext : k.nextPid ≤ k'.nextPid)
    (hlive : ∀ p, p < k.nextPid → k'.live p = true → k.live p = true) (hstep : HeapStep k k') :
    k'.BufferInv := by
  rcases hstep with heap | ⟨f, heap⟩ | ⟨dead, heap⟩
  · have hexclusive : Exclusive k'.heldBuffer k.ttyHeap.frees :=
      h.exclusive.mono fun {r b} hr => h.held_mono hlive (by rw [heap]) hr
    rw [← heap] at hexclusive
    refine ⟨hexclusive, fun p f b hp => ?_, heap ▸ h.frees⟩
    rw [heap] at hp ⊢
    exact (h.pointers p f b hp).imp_left fun hlt => Nat.lt_of_lt_of_le hlt hnext
  · -- The new buffer is the number of those before it, so it is nowhere yet.
    have hpointer : ∀ p g, k'.ttyHeap.pointer p g =
        if p = k.currentProc ∧ g = f then some k.ttyHeap.callocs else k.ttyHeap.pointer p g :=
      fun p g => by rw [heap]; rfl
    have hcallocs : k'.ttyHeap.callocs = k.ttyHeap.callocs + 1 := by rw [heap]; rfl
    have hfrees : k'.ttyHeap.frees = k.ttyHeap.frees := by rw [heap]; rfl
    refine ⟨?_, fun p g b hp => ?_, fun b hb => ?_⟩
    · rw [hfrees]
      refine h.exclusive.fresh (f := k.ttyHeap.callocs) (r := (k.currentProc, f))
        (fun hmem => Nat.lt_irrefl _ (h.frees _ hmem)) (fun r hr => ?_) (fun {b} hb => ?_)
        fun {r b} hne hb => ?_
      · exact Nat.lt_irrefl _ (h.pointers _ _ _ (heldBuffer_eq_some.mp hr).2).2
      · have hp := (heldBuffer_eq_some.mp hb).2
        rw [hpointer, if_pos ⟨rfl, rfl⟩] at hp
        exact (Option.some.inj hp).symm
      · refine h.held_mono hlive ?_ hb
        rw [hpointer, if_neg fun he => hne (Prod.ext he.1 he.2)]
    · rw [hpointer] at hp
      rw [hcallocs]
      split at hp
      case isTrue he =>
        obtain rfl := Option.some.inj hp
        exact ⟨he.1 ▸ Nat.lt_of_lt_of_le hcur hnext, Nat.lt_succ_self _⟩
      case isFalse =>
        obtain ⟨hlt, hb⟩ := h.pointers p g b hp
        exact ⟨Nat.lt_of_lt_of_le hlt hnext, Nat.lt_succ_of_lt hb⟩
    · rw [hfrees] at hb
      rw [hcallocs]
      exact Nat.lt_succ_of_lt (h.frees b hb)
  · have hpointer : k'.ttyHeap.pointer = k.ttyHeap.pointer := by
      rw [heap, TtyHeap.free_pointer, TtyHeap.free_pointer]
    have hcallocs : k'.ttyHeap.callocs = k.ttyHeap.callocs := by
      rw [heap, TtyHeap.free_callocs, TtyHeap.free_callocs]
    have hheld : ∀ f, k.heldBuffer (k.currentProc, f) = k.ttyHeap.pointer k.currentProc f :=
      fun f => if_pos hcurLive
    -- The process still holds its second buffer while the first one is freed.
    have hfirst : Exclusive
        (fun r => if r = (k.currentProc, .ttyReceiveBuffer) then none else k.heldBuffer r)
        (k.ttyHeap.free k.currentProc .ttyReceiveBuffer).frees :=
      TtyHeap.free_exclusive h.exclusive (hheld .ttyReceiveBuffer) (if_pos rfl)
        fun {r b} hne hr => by rwa [if_neg hne] at hr
    have hsecond : Exclusive k'.heldBuffer ((k.ttyHeap.free k.currentProc
        .ttyReceiveBuffer).free k.currentProc .ttyTransmitBuffer).frees := by
      refine TtyHeap.free_exclusive hfirst (by simp [hheld]) (by simp [heldBuffer, dead])
        fun {r b} hne hr => ?_
      · have hr' := h.held_mono hlive (by rw [hpointer]) hr
        have hne' : r.1 ≠ k.currentProc := by
          intro he
          have hlive' := (heldBuffer_eq_some.mp hr).1
          rw [he, dead] at hlive'
          cases hlive'
        rw [if_neg fun he => hne' (congrArg Prod.fst he)]
        exact hr'
    rw [← heap] at hsecond
    refine ⟨hsecond, fun p f b hp => ?_, fun b hb => ?_⟩
    · rw [hpointer] at hp
      rw [hcallocs]
      exact (h.pointers p f b hp).imp_left fun hlt => Nat.lt_of_lt_of_le hlt hnext
    · rw [hcallocs]
      rw [heap] at hb
      rcases TtyHeap.mem_frees_of_free hb with hb | hb
      · rcases TtyHeap.mem_frees_of_free hb with hb | hb
        · exact h.frees b hb
        · exact (h.pointers _ _ _ hb).2
      · rw [TtyHeap.free_pointer] at hb
        exact (h.pointers _ _ _ hb).2

end

end Kernel

open Kernel (EndsTtyCall BufferInv)

/-! ## Runs -/

theorem kernelStart_ttyHeap {b : BootImage} {k : Kernel} (h : Kernel.kernelStart b = .ok k) :
    k.ttyHeap = {} := by
  obtain ⟨idle, -, hrest⟩ := bind_eq_ok.mp h
  rcases ite_eq_ok hrest with ⟨-, hrest⟩ | ⟨-, hrest⟩
  · cases hrest
  rcases ite_eq_ok hrest with ⟨-, hrest⟩ | ⟨-, hrest⟩
  · cases hrest
  obtain ⟨init, -, hrest⟩ := bind_eq_ok.mp hrest
  rcases ite_eq_ok hrest with ⟨-, hrest⟩ | ⟨-, hrest⟩ <;> cases hrest
  rfl

/-- In the runs in which no terminal call that has blocked ends, every field of a live process is
null or points to a buffer that is allocated, and no buffer is freed twice. -/
theorem tty_buffers_sound {b : BootImage} {k : Kernel}
    (h : ReachableWhen (fun k e => ¬ k.EndsTtyCall e) b k) : k.BuffersSound := by
  have hinv : Reachable b k ∧ k.BufferInv := by
    refine ReachableWhen.invariant (I := fun k => Reachable b k ∧ k.BufferInv)
      (fun k hstart => ?_) (fun k e k' hinv hends hfresh hstep => ?_) h
    · exact ⟨⟨k, hstart, .refl⟩, .start (kernelStart_ttyHeap hstart)⟩
    · obtain ⟨hreach, hbuffers⟩ := hinv
      obtain ⟨⟨-, hrun⟩, hfam⟩ := reachable_familyInv hreach
      have hcurLive := hrun.current.resolve_left id
      refine ⟨hreach.step hstep hfresh, hbuffers.step ?_ hcurLive ?_ (fun p hknown hlive =>
        hstep.live_of_known hrun hfam hknown hlive) (Kernel.heapStep hrun hends hstep)⟩
      · exact hrun.pcbLt _ (Bool.and_eq_true _ _ ▸ hcurLive).1
      · exact (Sched.SchedStep.kin hstep.sched).nextPid_le hrun
  exact hinv.2.sound

/-- The child of init blocks in a write of one byte, and init in a read from another terminal. -/
def blockedCalls : List Event := initRuns ++
  [systemCall YALNIX_FORK 0 0 0, .resume, systemCall YALNIX_TTY_WRITE 0 stackBuffer 1, .resume,
    systemCall YALNIX_TTY_READ 1 stackBuffer 4]

/-- Both buffers are allocated. -/
theorem tty_buffers_sound_blocked : ∃ k,
    Kernel.runWhen (fun k e => ¬ k.EndsTtyCall e) smallImage blockedCalls = some k ∧
    k.ttyHeap.pointer 2 .ttyTransmitBuffer = some 0 ∧
    k.ttyHeap.pointer INIT_PID .ttyReceiveBuffer = some 1 ∧ k.BuffersSound := by
  have hsome : ((Kernel.runWhen (fun k e => ¬ k.EndsTtyCall e) smallImage blockedCalls).map fun k =>
      (k.ttyHeap.pointer 2 .ttyTransmitBuffer, k.ttyHeap.pointer INIT_PID .ttyReceiveBuffer))
        = some (some 0, some 1) := by decide +kernel
  obtain ⟨k, hrun, hvalues⟩ := Option.map_eq_some_iff.mp hsome
  simp only [Prod.mk.injEq] at hvalues
  exact ⟨k, hrun, hvalues.1, hvalues.2, tty_buffers_sound (.of_run hrun)⟩

/-- The child of init writes one byte, and goes on when the terminal has shown it. -/
def writeEnds : List Event := initRuns ++
  [systemCall YALNIX_FORK 0 0 0, .resume, systemCall YALNIX_TTY_WRITE 0 stackBuffer 1, .resume,
    .trap { vector := TRAP_TTY_TRANSMIT } {}, systemCall YALNIX_DELAY 5 0 0, .resume]

/-- The child points to the buffer that has been freed, and its exit frees it again. -/
theorem tty_buffer_freed_twice : ∃ k k', Kernel.run smallImage writeEnds = some k ∧
    Reachable smallImage k ∧ k.live 2 = true ∧ k.ttyHeap.pointer 2 .ttyTransmitBuffer = some 0 ∧
    k.ttyHeap.frees = [0] ∧ ¬ k.BuffersSound ∧
    Kernel.run smallImage (writeEnds ++ [systemCall YALNIX_EXIT 0 0 0]) = some k' ∧
    k'.ttyHeap.frees = [0, 0] ∧ ¬ k'.BuffersSound := by
  have hsome : ((Kernel.run smallImage writeEnds).bind fun k =>
      (Kernel.run smallImage (writeEnds ++ [systemCall YALNIX_EXIT 0 0 0])).map fun k' =>
      (k.live 2, k.ttyHeap.pointer 2 .ttyTransmitBuffer, k.ttyHeap.frees, k'.ttyHeap.frees))
        = some (true, some 0, [0], [0, 0]) := by decide +kernel
  obtain ⟨k, hrun, hk⟩ := Option.bind_eq_some_iff.mp hsome
  obtain ⟨k', hrun', hvalues⟩ := Option.map_eq_some_iff.mp hk
  simp only [Prod.mk.injEq] at hvalues
  obtain ⟨hlive, hpointer, hfrees, hfrees'⟩ := hvalues
  refine ⟨k, k', hrun, .of_run hrun, hlive, hpointer, hfrees, fun hsound => ?_, hrun', hfrees',
    fun hsound => ?_⟩
  · have hfreed := (hsound.handedOut 2 _ 0 hlive hpointer).2
    rw [hfrees] at hfreed
    exact hfreed List.mem_cons_self
  · have honce := hsound.once
    rw [hfrees'] at honce
    exact absurd honce (by decide)

end Theynix
