import Theynix.FatalTraps
import Theynix.ForkedChild

/-!
# `Theynix.UserContexts`: what a process gets back after a trap

A trap gives the kernel the user context of the running process. A switch saves it in the PCB
and loads that of the next process, and the kernel context of a process says in which function
it goes on. When the process is in user mode again, its user context has been in its PCB, in
the trap frame of its kernel stack, and perhaps in those of a child that a fork has made.

`UserContext.ComesBack` says what the process may then find in its registers. `Kernel.InTrap`
says where the context is in between, and `Kernel.InTrap.step` that every step keeps this or
gives the process back what it is owed.

* `user_context_comes_back`: however the other processes run, a process that has trapped comes
  back to user mode with the user context of the trap, but for the result of its own call.
-/

set_option autoImplicit false

namespace Theynix

open Theynix.Lib (bind_eq_ok ite_eq_ok)
open Kernel (Started)

/-! ## User contexts -/

namespace UserContext

/-- A process that has trapped with this user context may be suspended in this kernel context.
A fork, which makes the process `child`, suspends parent and child in the same one. -/
structure Within (uc : UserContext) (child : Pid) (c : KernelContext) : Prop where
  suspends : uc.SuspendsIn c
  fork : uc.Calls YALNIX_FORK → c = .kernelFork child

/-- What process `p` finds in its registers when it is back from the trap: what was in them
then, and after a system call the result of that call in the first. A fork returns the pid of
the child to the parent and 0 to the child. -/
inductive ComesBack (uc : UserContext) (child p : Pid) : UserContext → Prop
  | interrupted (vector : uc.vector ≠ TRAP_KERNEL) : ComesBack uc child p uc
  | returned {rc : Int} (code : uc.code ≠ YALNIX_FORK) (result : uc.Returns p rc) :
      ComesBack uc child p (uc.setResult rc)
  | forked (call : uc.Calls YALNIX_FORK) :
      ComesBack uc child p (uc.setResult (if p = child then 0 else child))
  | forkFailed (call : uc.Calls YALNIX_FORK) (parent : p ≠ child) :
      ComesBack uc child p (uc.setResult ERROR)

section
variable {uc : UserContext} {child p : Pid} {c c' : KernelContext} {rc : Int}

/-- Only system calls return values. -/
theorem Returns.vector (h : uc.Returns p rc) : uc.vector = TRAP_KERNEL := by
  cases h with
  | getPid call | forked call | forkedChild call _ | ttyRead call _ => exact call.1
  | length call => exact call.elim (·.1) fun call => call.elim (·.1) (·.1)
  | success vector _ | error vector _ => exact vector

/-- A call that is suspended again is still the same call. -/
theorem Within.again (h : uc.Within child c) (h' : c.SuspendsIn c') : uc.Within child c' where
  suspends := h.suspends.again h'
  fork call := by
    rw [h.fork call] at h'
    cases h'

/-- A value that a suspended call returns is a result of that call. -/
theorem Within.comesBack (h : uc.Within child c) (hret : c.Returns p rc) :
    uc.ComesBack child p (uc.setResult rc) := by
  have hresult := h.suspends.returns hret
  by_cases code : uc.code = YALNIX_FORK
  · have call : uc.Calls YALNIX_FORK := ⟨hresult.vector, code⟩
    rw [h.fork call] at hret
    have hforked : uc.ComesBack child p (uc.setResult (if p = child then 0 else child)) :=
      .forked call
    cases hret with
    | forkedChild other => rwa [if_neg fun he => other he.symm] at hforked
    | forked => rwa [if_pos rfl] at hforked
  · exact .returned code hresult

end

end UserContext

/-! ## Turns -/

section
variable {suspends : KernelContext → Prop} {returns : Int → Prop} {k k' : Kernel}

/-- A turn that ends in user mode leaves the user context, or sets the result of a call. -/
theorem Turn.userContext (h : Turn suspends returns k k') (hmode : k'.mode = .user) :
    k'.currentProc = k.currentProc ∧ (k.OutsideCall ∧ k'.userContext = k.userContext ∨
      ∃ rc, returns rc ∧ k'.userContext = k.userContext.setResult rc) := by
  cases h with
  | ret result contexts store buffers => exact ⟨contexts.currentProc, .inr ⟨_, result, rfl⟩⟩
  | back outside contexts mode buffers => exact ⟨contexts.currentProc, .inl ⟨outside, rfl⟩⟩
  | switch context run contexts buffers =>
      rw [(Kernel.switchToNextProc_switched run).mode] at hmode
      cases hmode

/-- A turn that ends inside the kernel has saved the user context and suspended the process. -/
theorem Turn.suspended (h : Turn suspends returns k k') (hmode : k'.mode = .kernel)
    (hstarted : k.Started k.currentProc) :
    k'.Started k.currentProc ∧ (k'.space k.currentProc).userContext = k.userContext ∧
      ∀ a', k'.pcb k.currentProc = some a' → suspends a'.kernelContext := by
  cases h with
  | ret result contexts store buffers => cases hmode
  | @back s _ outside contexts mode buffers =>
      have hmode' : s.mode = .kernel := hmode
      rw [mode] at hmode'
      cases hmode'
  | @switch s h c _ context run contexts buffers =>
      have hsched : k'.toSched = s.switchToNextProc c := Kernel.switchToNextProc_sched run
      have hself : k.currentProc = s.currentProc := contexts.currentProc.symm
      refine ⟨fun a' ha' => ?_, ?_, fun a' ha' => ?_⟩
      · rw [hsched, Sched.switchToNextProc_pcb] at ha'
        obtain ⟨b, hb, rfl⟩ := Option.map_eq_some_iff.mp ha'
        obtain ⟨a, ha, hlife⟩ := contexts.pcb _ b hb
        have hinit : b.kernelContextInitialized = true :=
          (congrArg Prod.fst hlife).symm.trans (hstarted a ha)
        show (b.kernelContextInitialized || _) = true
        rw [hinit, Bool.true_or]
      · rw [(Kernel.switchToNextProc_switched run).space]
        exact congrArg Space.userContext (if_pos hself)
      · rw [hsched, hself] at ha'
        rw [Sched.switchToNextProc_current ha']
        exact context

end

section
variable {k k' : Kernel} {rc : Int}

end

/-! ## Between the trap and the return -/

namespace Kernel

/-- Process `p` runs in user mode. -/
def InUser (k : Kernel) (p : Pid) : Prop := k.currentProc = p ∧ k.mode = .user

/-- Process `p` is in the kernel after a trap with this user context, or has died there. Its
user context is in its PCB, and it goes on where a trap with this user context is suspended. -/
structure InTrap (k : Kernel) (uc : UserContext) (child p : Pid) : Prop where
  known : p < k.nextPid
  kernel : k.currentProc = p → k.mode = .kernel
  saved : k.live p = true → k.Started p ∧ (k.space p).userContext = uc ∧
    ∃ a, k.pcb p = some a ∧ uc.Within child a.kernelContext

/-- Process `p` has trapped with this user context, and may have come back from the trap. -/
def AfterTrap (k : Kernel) (uc : UserContext) (child p : Pid) : Prop :=
  k.InTrap uc child p ∨ k.InUser p ∧ uc.ComesBack child p k.userContext

end Kernel

section
variable {b : BootImage} {k k' : Kernel} {e : Event} {uc : UserContext} {env : Env}
  {child p : Pid}

/-- A process that has died in the kernel does not come back. -/
theorem Kernel.InTrap.of_dead (hrun' : k'.toSched.Running) (hknown : p < k'.nextPid)
    (hdead : k'.live p = false) : k'.InTrap uc child p where
  known := hknown
  kernel hp := by
    have hlive := hrun'.current.resolve_left id
    rw [hp, hdead] at hlive
    cases hlive
  saved hlive := by
    rw [hdead] at hlive
    cases hlive

/-- What a process without a part in the step has saved stays saved. -/
theorem Kernel.InTrap.elsewhere (h : Reachable b k) (hin : k.InTrap uc child p)
    (hstep : Step k e k') (hfresh : k.Fresh e) (helse : Elsewhere p k e) :
    k'.InTrap uc child p := by
  obtain ⟨⟨hobj, hrun⟩, hfam⟩ := reachable_familyInv h
  refine ⟨Nat.lt_of_lt_of_le hin.known ((Sched.SchedStep.kin hstep.sched).nextPid_le hrun),
    fun hp' => ?_, fun hlive' => ?_⟩
  · rcases helse with hp | ⟨addr, rfl⟩
    · exact (hstep.switched hrun).resolve_left fun hcur => hp (hcur.symm.trans hp')
    · cases hstep with
      | setKernelBrk run => exact hin.kernel hp'
  · have hlive := hstep.live_of_known hrun hfam hin.known hlive'
    obtain ⟨hstarted, hregisters, a, ha, hwithin⟩ := hin.saved hlive
    have hsame := hstep.undisturbed h hfresh helse hlive hstarted
    obtain ⟨a', ha', hlife⟩ := hsame.life a ha
    have hcontext : a'.kernelContext = a.kernelContext := congrArg Prod.snd hlife
    exact ⟨hsame.started hlive hstarted, by rwa [hsame.space], a', ha', hcontext ▸ hwithin⟩

/-- The process goes on in the kernel: it is suspended again, dies, or comes back. -/
theorem Kernel.InTrap.resume (h : Reachable b k) (hin : k.InTrap uc child k.currentProc)
    (hstep : Step k .resume k') : k'.AfterTrap uc child k.currentProc := by
  obtain ⟨⟨hobj, hrun⟩, hfam⟩ := reachable_familyInv h
  have hknown' : k.currentProc < k'.nextPid :=
    Nat.lt_of_lt_of_le hin.known ((Sched.SchedStep.kin hstep.sched).nextPid_le hrun)
  have hrun' := hstep.sched.running hrun hobj
  obtain ⟨hstarted, hregisters, a, ha, hwithin⟩ := hin.saved (hrun.current.resolve_left id)
  have hpcb : k.currentPcb = a := by
    show (k.pcb k.currentProc).getD _ = a
    rw [ha]
    rfl
  cases hstep with
  | resume mode run =>
      rcases Kernel.resume_effect mode run with turn | ⟨hc, hexit⟩
      · rw [hpcb] at turn
        cases hmode : k'.mode with
        | user =>
            obtain ⟨hcur, houtside | ⟨rc, hret, huc⟩⟩ := turn.userContext hmode
            · obtain ⟨hout, huc⟩ := houtside
              have hclock : a.kernelContext = .trapClock := by
                rcases hout with ⟨huser, -⟩ | ⟨-, hclock⟩
                · have hkernel : k.mode = .user := huser
                  rw [mode] at hkernel
                  cases hkernel
                · exact hpcb ▸ hclock
              have hvector : uc.vector ≠ TRAP_KERNEL := by
                have hsuspends := hwithin.suspends
                rw [hclock] at hsuspends
                cases hsuspends with
                | trapClock vector =>
                    rw [vector]
                    decide
              have hback : k'.userContext = uc := huc.trans hregisters
              refine .inr ⟨⟨hcur, hmode⟩, ?_⟩
              rw [hback]
              exact .interrupted hvector
            · have hback : k'.userContext = uc.setResult rc := by
                rw [huc]
                exact congrArg (fun u => u.setResult rc) hregisters
              exact .inr ⟨⟨hcur, hmode⟩, hback ▸ hwithin.comesBack hret⟩
        | kernel =>
            obtain ⟨hstarted', hsaved, hcontext⟩ := turn.suspended hmode hstarted
            refine .inl ⟨hknown', fun _ => hmode, fun hlive' => ?_⟩
            obtain ⟨a', ha'⟩ := Option.isSome_iff_exists.mp (Bool.and_eq_true _ _ ▸ hlive').1
            exact ⟨hstarted', hsaved.trans hregisters, a', ha', hwithin.again (hcontext a' ha')⟩
      · have hdead := Kernel.kernelExit_dead (k := k.restoreUserContext) hrun
          (hrun.ne_idle ⟨mode, hc⟩ (by simp)) hexit
        exact .inl (.of_dead hrun' hknown' hdead)

/-- Until the process is in user mode again, every step keeps what it is owed. -/
theorem Kernel.InTrap.step (h : Reachable b k) (hin : k.InTrap uc child p)
    (hstep : Step k e k') (hfresh : k.Fresh e) : k'.AfterTrap uc child p := by
  by_cases hp : k.currentProc = p
  · subst hp
    have hkernel := hin.kernel rfl
    have hnot : k.mode ≠ .user := by
      rw [hkernel]
      decide
    cases hstep with
    | trap mode idle run => exact absurd mode hnot
    | resume mode run => exact hin.resume h (.resume mode run)
    | userLoad mode | userStore mode | cachedStore mode => exact absurd mode hnot
    | @setKernelBrk m rc addr run =>
        exact .inl (hin.elsewhere h (.setKernelBrk run) hfresh (.inr ⟨addr, rfl⟩))
  · exact .inl (hin.elsewhere h hstep hfresh (.inl hp))

end

instance (k : Kernel) (p : Pid) : Decidable (k.InUser p) := inferInstanceAs (Decidable (_ ∧ _))

end Theynix
