import Theynix.Placement

/-!
# `Theynix.FrameIsolation`: no frame is in two places, over whole runs

`Kernel.Apart` is `Machine.Isolated` for the live processes, together with `REG_PTBR1`
pointing to the table of the running process, which is what makes the stores of the kernel
into user memory go to frames of that process. The lemmas follow the functions of
`SystemCalls` and `Traps`; that the process a switch goes to is live comes from
`Sched.Running`. The main results are `Step.apart` and `frames_isolated`.
-/

set_option autoImplicit false

namespace Theynix

open Theynix.Lib (bind_eq_ok ite_eq_ok)
open Machine (ownedBy)
open Sched (SameLives Running)

namespace Kernel

/-- The frames of the live processes, of the kernel heap and of the free list are apart, and
the running process is in the address space. -/
structure Apart (k : Kernel) : Prop where
  isolated : ∃ free, k.machine.Isolated (ownedBy k.live) free
  ptbr1 : k.machine.ptbr1 = .region1 k.currentProc

section
variable {k k' : Kernel} {s : Sched} {m : Machine} {c : KernelContext}

/-! ## Steps inside one process -/

theorem Apart.withHeap (h : k.Apart) (heap : TtyHeap) : (k.withHeap heap).Apart :=
  ⟨h.isolated, h.ptbr1⟩

theorem Apart.withSched (h : k.Apart) (hl : SameLives k.toSched s) : (k.withSched s).Apart where
  isolated := by
    obtain ⟨free, hiso⟩ := h.isolated
    have hlive : s.live = k.live := funext hl.live
    refine ⟨free, ?_⟩
    show k.machine.Isolated (ownedBy s.live) free
    rwa [hlive]
  ptbr1 := by
    show k.machine.ptbr1 = .region1 s.currentProc
    rw [hl.currentProc]
    exact h.ptbr1

theorem Apart.ret (h : k.Apart) (rc : Int) : (k.ret rc).Apart := ⟨h.isolated, h.ptbr1⟩

theorem Apart.storeBytes {va : Nat} {bs : List Byte} (h : k.Apart)
    (hlive : k.live k.currentProc = true) (hok : k.machine.storeBytes va bs = .ok m) :
    ({ k with machine := m } : Kernel).Apart := by
  obtain ⟨free, hiso⟩ := h.isolated
  obtain ⟨hiso', hsame⟩ := hiso.storeBytes hlive h.ptbr1 hok
  exact ⟨⟨free, hiso'⟩, hsame.ptbr1.trans h.ptbr1⟩

/-! ## Switching -/

theorem Apart.of_switchToProc {next : Pid} (hiso : ∃ free, k.machine.Isolated (ownedBy k.live) free)
    (hnext : k.live next = true) (hok : k.switchToProc next c = .ok k') : k'.Apart := by
  obtain ⟨free, hiso⟩ := hiso
  have hsched := switchToProc_sched hok
  have hlive : k'.live = k.live := by
    funext p
    rw [hsched]
    exact Sched.switchToProc_live
  have hcur : k'.currentProc = next := by rw [hsched]; rfl
  suffices h : k'.machine.Isolated (ownedBy k.live) free ∧ k'.machine.ptbr1 = .region1 next by
    exact ⟨⟨free, hlive ▸ h.1⟩, hcur ▸ h.2⟩
  have hiso₁ : ({ k.machine with ptbr1 := .region1 next } : Machine).flushRegion1.Isolated
      (ownedBy k.live) free := hiso.congr rfl rfl rfl fun _ _ => rfl
  unfold Kernel.switchToProc at hok
  split at hok
  · cases hok
  rcases ite_eq_ok hok with ⟨-, hok⟩ | ⟨-, hok⟩
  · obtain ⟨m, hm, hret⟩ := bind_eq_ok.mp hok
    cases hm
    cases hret
    obtain ⟨hiso₂, hptbr₂⟩ := hiso₁.useKernelStackForProc next
    exact ⟨hiso₂.flushRegion1, hptbr₂⟩
  · obtain ⟨m, hcopy, hret⟩ := bind_eq_ok.mp hok
    cases hret
    obtain ⟨hiso₂, hptbr₂⟩ := hiso₁.copyKernelStackPageTableAndData hnext hcopy
    obtain ⟨hiso₃, hptbr₃⟩ := hiso₂.useKernelStackForProc next
    exact ⟨hiso₃.flushRegion1, hptbr₃.trans hptbr₂⟩

/-- A switch keeps frames apart if the process that is switched to is live. -/
theorem Apart.of_switchToNextProc (hiso : ∃ free, k.machine.Isolated (ownedBy k.live) free)
    (hcur : k'.live k'.currentProc = true) (hok : k.switchToNextProc c = .ok k') : k'.Apart := by
  unfold Kernel.switchToNextProc at hok
  split at hok
  · rename_i next rest hq
    have hsched := switchToProc_sched hok
    rw [hsched, Sched.switchToProc_live, Sched.switchToProc_currentProc] at hcur
    exact Apart.of_switchToProc (k := k.withSched { k.toSched with readyQueue := rest }) hiso hcur
      hok
  · have hsched := switchToProc_sched hok
    rw [hsched, Sched.switchToProc_live, Sched.switchToProc_currentProc] at hcur
    exact Apart.of_switchToProc hiso hcur hok

/-- A system call that puts the running process into a queue and switches. -/
theorem Apart.block (h : k.Apart) (hl : SameLives k.toSched s)
    (hcur : k'.live k'.currentProc = true)
    (hok : (k.withSched s).switchToNextProc c = .ok k') : k'.Apart :=
  .of_switchToNextProc (h.withSched hl).isolated hcur hok

end

/-! ## The system calls -/

section
variable {k k' : Kernel}

theorem addChild_live {s : Sched} {child p : Pid} (h : (s.addChild child).live p = true) :
    s.live p = true ∨ p = child := by
  by_cases hp : p = child
  · exact .inr hp
  · have h₁ := Sched.live_of_observe h
    rw [Sched.updCurrent, Sched.live_updPcb] at h₁
    simp only [Sched.live, if_neg hp] at h₁
    exact .inl h₁

theorem Apart.kernelFork (h : k.Apart) (hrun : k.toSched.Running)
    (hcur : k'.live k'.currentProc = true) (hok : k.kernelFork = .ok k') : k'.Apart := by
  obtain ⟨free, hiso⟩ := h.isolated
  have hfresh : k.live k.nextPid = false := by
    rw [Bool.eq_false_iff]
    exact fun hp => Nat.lt_irrefl _ (hrun.pcbLt _ (Bool.and_eq_true _ _ ▸ hp).1)
  obtain ⟨free₁, hiso₁, hptbr₁⟩ := hiso.newPageTables hfresh
  unfold Kernel.kernelFork at hok
  rcases ite_eq_ok hok with ⟨-, hok⟩ | ⟨-, hok⟩
  · cases hok
    refine ⟨⟨free₁, hiso₁.forget fun p hp => ?_⟩, hptbr₁.trans h.ptbr1⟩
    have hlive : k.live p = true := hp
    simp [hlive]
  obtain ⟨⟨rc, m⟩, hcopy, hok⟩ := bind_eq_ok.mp hok
  have hchild : (k.live k.nextPid || decide (k.nextPid = k.nextPid)) = true := by simp
  obtain ⟨free₂, hptbr₂, hres⟩ := hiso₁.copyRegion1PageTableAndData hchild
    (hptbr₁.trans h.ptbr1) hcopy
  rcases ite_eq_ok hok with ⟨hrc, hok⟩ | ⟨hrc, hok⟩
  · cases hok
    rcases hres with ⟨hsuccess, -⟩ | ⟨-, hiso₂⟩
    · exact absurd (hsuccess.symm.trans hrc) (by decide)
    · refine ⟨⟨free₂, hiso₂.forget fun p hp => ?_⟩, hptbr₂⟩
      have hlive : k.live p = true := hp
      have hne : p ≠ k.nextPid := by
        rintro rfl
        simp [hfresh] at hlive
      simp [hlive, hne]
  · rcases hres with ⟨-, hiso₂⟩ | ⟨herror, -⟩
    · refine Apart.of_switchToProc ⟨free₂, hiso₂.forget fun p hp => ?_⟩ ?_ hok
      · rcases addChild_live hp with hlive | rfl
        · have hlive' : k.live p = true := hlive
          simp [hlive']
        · simp [saveUserContext, setSpace]
      · have hsched := switchToProc_sched hok
        rwa [hsched, Sched.switchToProc_live, Sched.switchToProc_currentProc] at hcur
    · exact absurd herror hrc

theorem Apart.kernelExec {filename argvec : Nat} {env : Env} {rc : Int} (h : k.Apart)
    (hlive : k.live k.currentProc = true)
    (hok : k.kernelExec filename argvec env = .ok (rc, k')) : k'.Apart := by
  obtain ⟨free, hiso⟩ := h.isolated
  obtain ⟨prepared, -, hok⟩ := bind_eq_ok.mp hok
  cases prepared with
  | none =>
      cases hok
      exact h
  | some prepared =>
      obtain ⟨r, hload, hok⟩ := bind_eq_ok.mp hok
      obtain ⟨free', hiso', hptbr⟩ := hiso.loadProgram hlive h.ptbr1 hload
      rcases ite_eq_ok hok with ⟨-, hok⟩ | ⟨-, hok⟩ <;> cases hok <;> exact ⟨⟨free', hiso'⟩, hptbr⟩

theorem Apart.kernelBrk {addr : Nat} {rc : Int} (h : k.Apart)
    (hlive : k.live k.currentProc = true) (hok : k.kernelBrk addr = .ok (rc, k')) : k'.Apart := by
  obtain ⟨free, hiso⟩ := h.isolated
  have hown := Machine.ownedBy_region1 hlive
  unfold Kernel.kernelBrk at hok
  rcases ite_eq_ok hok with ⟨-, hok⟩ | ⟨-, hok⟩
  · cases hok
    exact h
  rcases ite_eq_ok hok with ⟨-, hok⟩ | ⟨-, hok⟩
  · obtain ⟨⟨rc₁, m⟩, hmap, hok⟩ := bind_eq_ok.mp hok
    obtain ⟨free', hiso', honly, -⟩ := hiso.mapNewRegion1Pages hown hmap
    have hptbr := honly.ptbr1.trans h.ptbr1
    rcases ite_eq_ok hok with ⟨-, hok⟩ | ⟨-, hok⟩ <;> cases hok <;> exact ⟨⟨free', hiso'⟩, hptbr⟩
  rcases ite_eq_ok hok with ⟨-, hok⟩ | ⟨-, hok⟩
  · obtain ⟨m, hunmap, hok⟩ := bind_eq_ok.mp hok
    obtain ⟨free', hiso', honly, -⟩ := hiso.unmapLoop hown hunmap
    cases hok
    exact ⟨⟨free', hiso'⟩, honly.ptbr1.trans h.ptbr1⟩
  · cases hok
    exact ⟨⟨free, hiso⟩, h.ptbr1⟩

/-- The frames of an exiting process go back to the free list. -/
theorem Apart.kernelExit {status : Int} (h : k.Apart) (hrun : k.toSched.Running)
    (hcur : k'.live k'.currentProc = true) (hok : k.kernelExit status = .ok k') : k'.Apart := by
  obtain ⟨free, hiso⟩ := h.isolated
  have hlive := hrun.current.resolve_left id
  obtain ⟨k₁, hexit, hmachine, -, -, hswitch⟩ := Kernel.kernelExit_eq_ok hok
  obtain ⟨free₁, hiso₁, -⟩ := hiso.freeRegion1PageTable hlive
  obtain ⟨free₂, hiso₂, -⟩ := hiso₁.freeRegion0StackPages hlive
  rw [← hmachine] at hiso₂
  exact .of_switchToNextProc ⟨free₂, hiso₂.forget fun p hp => hrun.kernelExit_live hexit hp⟩ hcur
    hswitch

theorem Apart.collectZombie {statusPtr : Nat} (h : k.Apart)
    (hlive : k.live k.currentProc = true) (hok : k.collectZombie statusPtr = .ok k') :
    k'.Apart := by
  unfold Kernel.collectZombie at hok
  split at hok
  · cases hok
  split at hok
  · cases hok
  rename_i child rest hz childPcb hchild
  obtain ⟨m, hstore, hok⟩ := bind_eq_ok.mp hok
  obtain ⟨⟨free, hiso⟩, hptbr⟩ := h.storeBytes hlive hstore
  cases hok
  refine ⟨⟨free, hiso.forget fun p hp => ?_⟩, hptbr⟩
  have hp' := Sched.live_of_freePcb (Sched.live_of_observe hp)
  rwa [Sched.updCurrent, Sched.live_updPcb] at hp'

theorem Apart.kernelWait {statusPtr : Nat} (h : k.Apart) (hlive : k.live k.currentProc = true)
    (hcur : k'.live k'.currentProc = true) (hok : k.kernelWait statusPtr = .ok k') :
    k'.Apart := by
  unfold Kernel.kernelWait at hok
  rcases ite_eq_ok hok with ⟨-, hok⟩ | ⟨-, hok⟩
  · cases hok
    exact h.ret _
  rcases ite_eq_ok hok with ⟨-, hok⟩ | ⟨-, hok⟩
  · exact h.collectZombie hlive hok
  rcases ite_eq_ok hok with ⟨-, hok⟩ | ⟨-, hok⟩
  · cases hok
    exact h.ret _
  · exact h.block (SameLives.updPcb (.refl _) (by intro; rfl) (by intro; rfl)) hcur hok

theorem Apart.kernelDelay {clockTicks : Int} (h : k.Apart)
    (hcur : k'.live k'.currentProc = true) (hok : k.kernelDelay clockTicks = .ok k') :
    k'.Apart := by
  unfold Kernel.kernelDelay at hok
  rcases ite_eq_ok hok with ⟨-, hok⟩ | ⟨-, hok⟩
  · cases hok
    exact h.ret _
  rcases ite_eq_ok hok with ⟨-, hok⟩ | ⟨-, hok⟩
  · cases hok
    exact h.ret _
  · exact h.block (Sched.enqueueForClock_sameLives _ _) hcur hok

theorem Apart.kernelTtyRead {ttyId len : Int} {buf : Nat} {env : Env} (h : k.Apart)
    (hlive : k.live k.currentProc = true) (hcur : k'.live k'.currentProc = true)
    (hok : k.kernelTtyRead ttyId buf len env = .ok k') : k'.Apart := by
  unfold Kernel.kernelTtyRead at hok
  rcases ite_eq_ok hok with ⟨-, hok⟩ | ⟨-, hok⟩
  · cases hok
    exact h.ret _
  rcases ite_eq_ok hok with ⟨-, hok⟩ | ⟨-, hok⟩
  · cases hok
    exact h.ret _
  rcases ite_eq_ok hok with ⟨-, hok⟩ | ⟨-, hok⟩
  · cases hok
    exact h.ret _
  split at hok
  · obtain ⟨m, hstore, hret⟩ := bind_eq_ok.mp hok
    cases hret
    exact ((h.storeBytes hlive hstore).withSched (((SameLives.refl _).updTty _ _).observe (by intro; rfl))).ret _
  · exact (h.withHeap (k.ttyHeap.calloc k.currentProc .ttyReceiveBuffer)).block
      (Sched.enqueueToReceive_sameLives k.toSched _ _) hcur hok

theorem Apart.kernelTtyWriteInternal {ttyId : Nat} {bytes : List Byte} {c : KernelContext}
    (h : k.Apart) (hcur : k'.live k'.currentProc = true)
    (hok : k.kernelTtyWriteInternal ttyId bytes c = .ok k') : k'.Apart :=
  (h.withHeap (k.ttyHeap.calloc k.currentProc .ttyTransmitBuffer)).block
    (Sched.enqueueToTransmit_sameLives k.toSched _ _) hcur hok

theorem Apart.kernelTtyWrite {ttyId len : Int} {buf : Nat} (h : k.Apart)
    (hcur : k'.live k'.currentProc = true) (hok : k.kernelTtyWrite ttyId buf len = .ok k') :
    k'.Apart := by
  unfold Kernel.kernelTtyWrite at hok
  rcases ite_eq_ok hok with ⟨-, hok⟩ | ⟨-, hok⟩
  · cases hok
    exact h.ret _
  rcases ite_eq_ok hok with ⟨-, hok⟩ | ⟨-, hok⟩
  · cases hok
    exact h.ret _
  rcases ite_eq_ok hok with ⟨-, hok⟩ | ⟨-, hok⟩
  · cases hok
    exact h.ret _
  · obtain ⟨bytes, -, hok⟩ := bind_eq_ok.mp hok
    exact h.kernelTtyWriteInternal hcur hok

/-- A new lock, cvar or pipe touches no process. -/
theorem Apart.storeNewId {s : Sched} {idp : Nat} (h : k.Apart)
    (hlive : k.live k.currentProc = true) (hl : SameLives k.toSched s)
    (hok : k.storeNewId s idp = .ok k') : k'.Apart := by
  obtain ⟨m, hstore, hret⟩ := bind_eq_ok.mp hok
  cases hret
  exact ((h.storeBytes hlive hstore).withSched hl).ret _

theorem Apart.pipeReadLoop {pipeId buf len : Nat} (h : k.Apart)
    (hlive : k.live k.currentProc = true) (hcur : k'.live k'.currentProc = true)
    (hok : k.pipeReadLoop pipeId buf len = .ok k') : k'.Apart := by
  unfold Kernel.pipeReadLoop at hok
  split at hok
  · cases hok
  rcases ite_eq_ok hok with ⟨-, hok⟩ | ⟨-, hok⟩
  · exact h.block ((SameLives.refl _).updPipe _ _) hcur hok
  · obtain ⟨⟨bytes, p⟩, -, hok⟩ := bind_eq_ok.mp hok
    obtain ⟨m, hstore, hret⟩ := bind_eq_ok.mp hok
    cases hret
    exact ((h.storeBytes hlive hstore).withSched (((SameLives.refl _).updPipe _ _).observe (by intro; rfl))).ret _

theorem Apart.kernelPipeRead {pipeId buf : Nat} {len : Int} (h : k.Apart)
    (hlive : k.live k.currentProc = true) (hcur : k'.live k'.currentProc = true)
    (hok : k.kernelPipeRead pipeId buf len = .ok k') : k'.Apart := by
  unfold Kernel.kernelPipeRead at hok
  rcases ite_eq_ok hok with ⟨-, hok⟩ | ⟨-, hok⟩
  · cases hok
    exact h.ret _
  rcases ite_eq_ok hok with ⟨-, hok⟩ | ⟨-, hok⟩
  · cases hok
    exact h.ret _
  rcases ite_eq_ok hok with ⟨-, hok⟩ | ⟨-, hok⟩
  · cases hok
    exact h.ret _
  split at hok
  · cases hok
    exact h.ret _
  · exact h.pipeReadLoop hlive hcur hok

theorem Apart.kernelPipeWrite {pipeId buf : Nat} {len : Int} (h : k.Apart)
    (hrun : k.toSched.Running) (hok : k.kernelPipeWrite pipeId buf len = .ok k') : k'.Apart := by
  unfold Kernel.kernelPipeWrite at hok
  rcases ite_eq_ok hok with ⟨-, hok⟩ | ⟨-, hok⟩
  · cases hok
    exact h.ret _
  rcases ite_eq_ok hok with ⟨-, hok⟩ | ⟨-, hok⟩
  · cases hok
    exact h.ret _
  rcases ite_eq_ok hok with ⟨-, hok⟩ | ⟨-, hok⟩
  · cases hok
    exact h.ret _
  split at hok
  · cases hok
    exact h.ret _
  · rename_i p hfound
    obtain ⟨bytes, -, hok⟩ := bind_eq_ok.mp hok
    obtain ⟨p', hwrite, hret⟩ := bind_eq_ok.mp hok
    cases hret
    have hw := hrun.afterPipeWrite (Sched.mem_of_findPipe hfound).2
      (Pipe.write_waitingToRead hwrite) bytes
    exact (h.withSched hw.2).ret _

theorem Apart.kernelAcquire {lockId : Nat} (h : k.Apart) (hcur : k'.live k'.currentProc = true)
    (hok : k.kernelAcquire lockId = .ok k') : k'.Apart := by
  unfold Kernel.kernelAcquire at hok
  split at hok
  · cases hok
    exact h.ret _
  rcases ite_eq_ok hok with ⟨-, hok⟩ | ⟨-, hok⟩
  · cases hok
    exact (h.withSched ((SameLives.refl _).observe (by intro; rfl))).ret _
  rcases ite_eq_ok hok with ⟨-, hok⟩ | ⟨-, hok⟩
  · cases hok
    exact (h.withSched ((Sched.takeLock_sameLives _ _).observe (by intro; rfl))).ret _
  · exact h.block (Sched.enqueueForLock_sameLives _ _) hcur hok

theorem Apart.kernelAcquireReturn {lockId : Nat} (h : k.Apart)
    (hok : k.kernelAcquireReturn lockId = .ok k') : k'.Apart := by
  unfold Kernel.kernelAcquireReturn at hok
  split at hok
  · cases hok
  · obtain ⟨_, -, hok⟩ := bind_eq_ok.mp hok
    obtain ⟨_, -, hok⟩ := bind_eq_ok.mp hok
    obtain ⟨_, -, hret⟩ := bind_eq_ok.mp hok
    cases hret
    exact (h.withSched ((SameLives.refl _).observe (by intro; rfl))).ret _

theorem Apart.kernelCvarWait {cvarId lockId : Nat} (h : k.Apart) (hrun : k.toSched.Running)
    (hcur : k'.live k'.currentProc = true) (hok : k.kernelCvarWait cvarId lockId = .ok k') :
    k'.Apart := by
  unfold Kernel.kernelCvarWait at hok
  split at hok
  · cases hok
    exact h.ret _
  · obtain ⟨⟨rc, s⟩, hrelease, hok⟩ := bind_eq_ok.mp hok
    have hl := (hrun.kernelRelease hrelease).2
    rcases ite_eq_ok hok with ⟨-, hok⟩ | ⟨-, hok⟩
    · cases hok
      exact (h.withSched hl).ret _
    · exact h.block (hl.updCvar _ _) hcur hok

/-! ## The traps -/

theorem Apart.fatal {msg : String} (h : k.Apart) (hcur : k'.live k'.currentProc = true)
    (hok : k.fatal msg = .ok k') : k'.Apart :=
  h.kernelTtyWriteInternal hcur hok

theorem Apart.trapMemory (h : k.Apart) (hcur : k'.live k'.currentProc = true)
    (hok : k.trapMemory = .ok k') : k'.Apart := by
  unfold Kernel.trapMemory at hok
  rcases ite_eq_ok hok with ⟨-, hok⟩ | ⟨-, hok⟩
  · exact h.fatal hcur hok
  rcases ite_eq_ok hok with ⟨-, hok⟩ | ⟨-, hok⟩
  · rcases ite_eq_ok hok with ⟨-, hok⟩ | ⟨-, hok⟩
    · obtain ⟨free, hiso⟩ := h.isolated
      obtain ⟨⟨rc, m⟩, hgrow, hok⟩ := bind_eq_ok.mp hok
      obtain ⟨free', hiso', honly⟩ := hiso.growStack hgrow
      have h' : ({ k with machine := m } : Kernel).Apart :=
        ⟨⟨free', hiso'⟩, honly.ptbr1.trans h.ptbr1⟩
      rcases ite_eq_ok hok with ⟨-, hok⟩ | ⟨-, hok⟩
      · exact h'.fatal hcur hok
      · cases hok
        exact ⟨h'.isolated, h'.ptbr1⟩
    rcases ite_eq_ok hok with ⟨-, hok⟩ | ⟨-, hok⟩
    · exact h.fatal hcur hok
    · exact h.fatal hcur hok
  · exact h.kernelTtyWriteInternal hcur hok

theorem Apart.trapKernel {env : Env} (h : k.Apart) (hrun : k.toSched.Running)
    (hcur : k'.live k'.currentProc = true) (hok : k.trapKernel env = .ok k') : k'.Apart := by
  have hlive := hrun.current.resolve_left id
  have hretOf : ∀ {x : Except Stop (Int × Kernel)}, (∀ rc k₁, x = .ok (rc, k₁) → k₁.Apart) →
      (x >>= fun r => .ok (r.2.ret r.1)) = .ok k' → k'.Apart := by
    intro x hx hrun
    obtain ⟨⟨rc, k₁⟩, hr, hret⟩ := bind_eq_ok.mp hrun
    cases hret
    exact (hx rc k₁ hr).ret rc
  -- One case for each code, in the order in which the source compares them.
  unfold Kernel.trapKernel at hok
  rcases ite_eq_ok hok with ⟨-, hok⟩ | ⟨-, hok⟩
  · exact h.kernelDelay hcur hok
  rcases ite_eq_ok hok with ⟨-, hok⟩ | ⟨-, hok⟩
  · exact h.kernelFork hrun hcur hok
  rcases ite_eq_ok hok with ⟨-, hok⟩ | ⟨-, hok⟩
  · cases hok
    exact h.ret _
  rcases ite_eq_ok hok with ⟨-, hok⟩ | ⟨-, hok⟩
  · exact hretOf (fun _ _ hr => h.kernelExec hlive hr) hok
  rcases ite_eq_ok hok with ⟨-, hok⟩ | ⟨-, hok⟩
  · exact h.kernelWait hlive hcur hok
  rcases ite_eq_ok hok with ⟨-, hok⟩ | ⟨-, hok⟩
  · exact h.kernelExit hrun hcur hok
  rcases ite_eq_ok hok with ⟨-, hok⟩ | ⟨-, hok⟩
  · exact hretOf (fun _ _ hr => h.kernelBrk hlive hr) hok
  rcases ite_eq_ok hok with ⟨-, hok⟩ | ⟨-, hok⟩
  · exact h.kernelTtyRead hlive hcur hok
  rcases ite_eq_ok hok with ⟨-, hok⟩ | ⟨-, hok⟩
  · exact h.kernelTtyWrite hcur hok
  rcases ite_eq_ok hok with ⟨-, hok⟩ | ⟨-, hok⟩
  · unfold Kernel.kernelPipeInit at hok
    rcases ite_eq_ok hok with ⟨-, hok⟩ | ⟨-, hok⟩
    · cases hok
      exact h.ret _
    · exact h.storeNewId hlive (Sched.pipeNewPipe_sameLives _) hok
  rcases ite_eq_ok hok with ⟨-, hok⟩ | ⟨-, hok⟩
  · exact h.kernelPipeRead hlive hcur hok
  rcases ite_eq_ok hok with ⟨-, hok⟩ | ⟨-, hok⟩
  · exact h.kernelPipeWrite hrun hok
  rcases ite_eq_ok hok with ⟨-, hok⟩ | ⟨-, hok⟩
  · unfold Kernel.kernelLockInit at hok
    rcases ite_eq_ok hok with ⟨-, hok⟩ | ⟨-, hok⟩
    · cases hok
      exact h.ret _
    · exact h.storeNewId hlive (Sched.lockNewLock_sameLives _) hok
  rcases ite_eq_ok hok with ⟨-, hok⟩ | ⟨-, hok⟩
  · exact h.kernelAcquire hcur hok
  rcases ite_eq_ok hok with ⟨-, hok⟩ | ⟨-, hok⟩
  · obtain ⟨⟨rc, s⟩, hrelease, hret⟩ := bind_eq_ok.mp hok
    cases hret
    exact (h.withSched (hrun.kernelRelease hrelease).2).ret _
  rcases ite_eq_ok hok with ⟨-, hok⟩ | ⟨-, hok⟩
  · unfold Kernel.kernelCvarInit at hok
    rcases ite_eq_ok hok with ⟨-, hok⟩ | ⟨-, hok⟩
    · cases hok
      exact h.ret _
    · exact h.storeNewId hlive (Sched.cVarNewCVar_sameLives _) hok
  rcases ite_eq_ok hok with ⟨-, hok⟩ | ⟨-, hok⟩
  · cases hok
    exact (h.withSched (hrun.kernelCvarSignal _).2).ret _
  rcases ite_eq_ok hok with ⟨-, hok⟩ | ⟨-, hok⟩
  · cases hok
    exact (h.withSched (hrun.kernelCvarBroadcast _).2).ret _
  rcases ite_eq_ok hok with ⟨-, hok⟩ | ⟨-, hok⟩
  · exact h.kernelCvarWait hrun hcur hok
  rcases ite_eq_ok hok with ⟨-, hok⟩ | ⟨-, hok⟩
  · cases hok
    exact (h.withSched (Sched.kernelReclaim_keeps _ _).1).ret _
  · exact h.kernelExit hrun hcur hok

theorem Apart.trap {env : Env} (h : k.Apart) (hrun : k.toSched.Running)
    (hcur : k'.live k'.currentProc = true) (hok : k.trap env = .ok k') : k'.Apart := by
  unfold Kernel.trap at hok
  rcases ite_eq_ok hok with ⟨-, hok⟩ | ⟨-, hok⟩
  · exact h.trapKernel hrun hcur hok
  rcases ite_eq_ok hok with ⟨-, hok⟩ | ⟨-, hok⟩
  · obtain ⟨s, hs, hok⟩ := bind_eq_ok.mp hok
    exact h.block ((hrun.trapClock hs).2) hcur hok
  rcases ite_eq_ok hok with ⟨-, hok⟩ | ⟨-, hok⟩
  · exact h.fatal hcur hok
  rcases ite_eq_ok hok with ⟨-, hok⟩ | ⟨-, hok⟩
  · exact h.trapMemory hcur hok
  rcases ite_eq_ok hok with ⟨-, hok⟩ | ⟨-, hok⟩
  · exact h.fatal hcur hok
  rcases ite_eq_ok hok with ⟨-, hok⟩ | ⟨-, hok⟩
  · obtain ⟨s, hs, hret⟩ := bind_eq_ok.mp hok
    cases hret
    exact h.withSched (hrun.trapTtyRecieve hs).2
  rcases ite_eq_ok hok with ⟨-, hok⟩ | ⟨-, hok⟩
  · obtain ⟨s, hs, hret⟩ := bind_eq_ok.mp hok
    cases hret
    exact (h.withHeap _).withSched (hrun.trapTtyTransmit hs).2
  · exact h.kernelExit hrun hcur hok

theorem Apart.resume (h : k.Apart) (hrun : k.toSched.Running)
    (hcur : k'.live k'.currentProc = true) (hok : k.resume = .ok k') : k'.Apart := by
  have hlive := hrun.current.resolve_left id
  have h' : k.restoreUserContext.Apart := ⟨h.isolated, h.ptbr1⟩
  unfold Kernel.resume at hok
  dsimp only at hok
  split at hok
  · cases hok
    exact ⟨h.isolated, h.ptbr1⟩
  · rcases ite_eq_ok hok with ⟨-, hok⟩ | ⟨-, hok⟩ <;> cases hok <;> exact h'.ret _
  · cases hok
  · exact h'.collectZombie hlive hok
  · cases hok
    exact h'.ret _
  · obtain ⟨m, hstore, hret⟩ := bind_eq_ok.mp hok
    cases hret
    exact ((h'.storeBytes hlive hstore).withHeap _).ret _
  · cases hok
    exact h'.ret _
  · exact h'.kernelExit hrun hcur hok
  · cases hok
  · exact h'.pipeReadLoop hlive hcur hok
  · exact h'.kernelAcquireReturn hok
  · exact h'.kernelAcquire hcur hok

end

end Kernel

/-! ## Runs -/

/-- Every step that uses no stale entry keeps frames apart. -/
theorem Step.apart {k k' : Kernel} {e : Event} (hfresh : k.Fresh e) (h : k.Apart)
    (hrun : k.toSched.Running) (hrun' : k'.toSched.Running) (hstep : Step k e k') : k'.Apart := by
  have hlive := hrun.current.resolve_left id
  have hcur := hrun'.current.resolve_left id
  cases hstep with
  | @trap _ uc env _ _ run =>
      exact Kernel.Apart.trap (k := { k with userContext := uc }) ⟨h.isolated, h.ptbr1⟩ hrun hcur run
  | resume _ run => exact h.resume hrun hcur run
  | userLoad _ _ =>
      obtain ⟨free, hiso⟩ := h.isolated
      exact ⟨⟨free, hiso.congr rfl rfl rfl fun _ _ => rfl⟩, h.ptbr1⟩
  | userStore _ run =>
      obtain ⟨free, hiso⟩ := h.isolated
      obtain ⟨hiso', hsame⟩ := hiso.storeByte hlive h.ptbr1 run
      exact ⟨⟨free, hiso'⟩, hsame.ptbr1.trans h.ptbr1⟩
  | @cachedStore m entry va b _ _ run =>
      obtain ⟨free, hiso⟩ := h.isolated
      rw [show entry = _ from hfresh] at run
      obtain ⟨hiso', hsame⟩ := hiso.storeByte hlive h.ptbr1 (Machine.storeByte_of_storeThrough run)
      exact ⟨⟨free, hiso'.congr rfl rfl rfl fun _ _ => rfl⟩, hsame.ptbr1.trans h.ptbr1⟩
  | setKernelBrk run =>
      obtain ⟨free, hiso⟩ := h.isolated
      obtain ⟨free', hiso', hptbr, -⟩ := hiso.setKernelBrk run
      exact ⟨⟨free', hiso'⟩, hptbr.trans h.ptbr1⟩

/-- What `KernelStart` builds before it loads a program: the heap and the kernel stack of
idle hold the frames of their own numbers, and the others are free. -/
theorem bootMachine_isolated (b : BootImage) :
    (Kernel.bootMachine b).Isolated (ownedBy fun p => decide (p = IDLE_PID))
        (Machine.initialFree b.kernelBrkPage b.pmemSize) ∧
      (Kernel.bootMachine b).ptbr1 = .region1 IDLE_PID := by
  have hlt : b.kernelBrkPage < 126 := b.kernelBrkPage_lt
  unfold Kernel.bootMachine
  dsimp only
  generalize hm : Machine.useKernelStackForProc _ IDLE_PID = m
  have hbrk : m.kernelBrkPage = b.kernelBrkPage := by rw [← hm]; rfl
  have hptbr : m.ptbr1 = .region1 IDLE_PID := by rw [← hm]; rfl
  obtain ⟨hsame, hlist⟩ := Machine.initializePhysicalMemoryManagement_spec (m := m)
    (hbrk ▸ b.kernelBrkPage_lt) b.pmemSize
  -- A slot that counts and is valid names the frame of its own number.
  have hheld : ∀ {r : PteRef} {f : Nat},
      m.held (ownedBy fun p => decide (p = IDLE_PID)) r = some f →
      (r.table = .region0 ∧ f = r.index ∧ f < b.kernelBrkPage) ∨
      (r.table = .kernelStack IDLE_PID ∧ f = r.index + 126 ∧ r.index < 2) := by
    intro r f hr
    rw [Machine.held_eq_some, ← hm] at hr
    obtain ⟨hown, hvalid, hpfn⟩ := hr
    obtain ⟨t, i⟩ := r
    cases t with
    | region0 =>
        have hi : i < 126 := by simpa [ownedBy] using hown
        have h₁ : ¬ i = 126 := by omega
        have h₂ : ¬ i = 127 := by omega
        have h₃ : i < VMEM_REGION_SIZE / PAGESIZE := by
          show i < 128
          omega
        simp only [Machine.useKernelStackForProc, List.range_succ, List.range_zero, List.nil_append,
          List.foldl_cons, List.foldl_nil, List.cons_append, Machine.setPte, bootRegion0Pte] at hvalid hpfn
        by_cases hb : i < b.kernelBrkPage
        · simp [h₁, h₂, h₃, hb] at hpfn
          exact .inl ⟨rfl, hpfn.symm, hpfn ▸ hb⟩
        · simp [h₁, h₂, h₃, hb] at hvalid
    | region1 p =>
        simp only [ownedBy, Bool.and_eq_true, decide_eq_true_eq] at hown
        obtain ⟨rfl, hi⟩ := hown
        simp [Machine.useKernelStackForProc, List.range_succ, Machine.setPte, hi] at hvalid
    | kernelStack p =>
        simp only [ownedBy, Bool.and_eq_true, decide_eq_true_eq] at hown
        obtain ⟨rfl, hi⟩ := hown
        have hi' : i < 2 := hi
        simp only [Machine.useKernelStackForProc, Machine.setPte, List.range_succ,
          List.range_zero, List.nil_append, List.cons_append, List.foldl_cons, Nat.add_zero,
          Nat.zero_lt_succ, ↓reduceIte, Nat.zero_add, reduceCtorEq, false_and, Nat.lt_add_one,
          List.foldl_nil, hi'] at hpfn
        exact .inr ⟨rfl, hpfn.symm, hi⟩
    | tempRegion1 => cases hown
  have hfree : ∀ f ∈ Machine.initialFree b.kernelBrkPage b.pmemSize,
      b.kernelBrkPage ≤ f ∧ f ≠ 126 ∧ f ≠ 127 ∧ f < 0x80000000 := by
    intro f hf
    rcases List.mem_append.mp hf with hf | hf
    · have h₁ := List.mem_range'_1.mp hf
      simp only [show KERNEL_STACK_BASE_PAGE = 126 from rfl] at h₁
      omega
    · have h₁ := List.mem_range'_1.mp hf
      omega
  rw [hbrk] at hlist
  have hsub : ∀ {r : PteRef} {f : Nat}, (m.initializePhysicalMemoryManagement b.pmemSize).held
      (ownedBy fun p => decide (p = IDLE_PID)) r = some f →
      m.held (ownedBy fun p => decide (p = IDLE_PID)) r = some f := by
    intro r f hr
    rw [Machine.held_eq_some] at hr ⊢
    rwa [hsame.pte] at hr
  refine ⟨⟨hlist, ⟨hlist.nodup, fun {r r' f} hr hr' => ?_, fun {r f} hr hf => ?_⟩,
    fun f hf => (hfree f hf).2.2.2, fun {r f} hr => ?_⟩, hsame.ptbr1.trans hptbr⟩
  · have h₁ := hheld (hsub hr)
    have h₂ := hheld (hsub hr')
    obtain ⟨t, i⟩ := r
    obtain ⟨t', i'⟩ := r'
    dsimp only at h₁ h₂
    rcases h₁ with ⟨rfl, h₁, h₁'⟩ | ⟨rfl, h₁, h₁'⟩ <;>
      rcases h₂ with ⟨rfl, h₂, h₂'⟩ | ⟨rfl, h₂, h₂'⟩
    · rw [h₁.symm.trans h₂]
    · omega
    · omega
    · have hi : i = i' := by omega
      rw [hi]
  · have h₁ := hheld (hsub hr)
    have h₂ := hfree f hf
    omega
  · have h₁ := hheld (hsub hr)
    omega

theorem bootSched_live (p : Pid) :
    Kernel.bootSched.live p = (decide (p = IDLE_PID) || decide (p = INIT_PID)) := by
  by_cases h₀ : p = IDLE_PID <;> by_cases h₁ : p = INIT_PID <;>
    simp [Sched.live, Sched.exited, Kernel.bootSched, h₀, h₁]

/-- `KernelStart` keeps frames apart. -/
theorem kernelStart_apart {b : BootImage} {k : Kernel} (h : Kernel.kernelStart b = .ok k) :
    k.Apart := by
  obtain ⟨hiso₀, hptbr₀⟩ := bootMachine_isolated b
  obtain ⟨idle, hidle, h⟩ := bind_eq_ok.mp h
  obtain ⟨free₁, hiso₁, hptbr₁⟩ := hiso₀.loadProgram (by simp) hptbr₀ hidle
  rcases ite_eq_ok h with ⟨-, h⟩ | ⟨-, h⟩
  · cases h
  have hinitNew : decide (INIT_PID = IDLE_PID) = false := by decide
  obtain ⟨free₂, hiso₂, -⟩ := hiso₁.newPageTables hinitNew
  rcases ite_eq_ok h with ⟨-, h⟩ | ⟨-, h⟩
  · cases h
  have hiso₃ : ({ (idle.machine.newPageTables INIT_PID).2 with
      ptbr1 := .region1 INIT_PID } : Machine).flushRegion1.Isolated
        (ownedBy fun p => decide (p = IDLE_PID) || decide (p = INIT_PID)) free₂ :=
    hiso₂.congr rfl rfl rfl fun _ _ => rfl
  obtain ⟨init, hinit, h⟩ := bind_eq_ok.mp h
  obtain ⟨free₄, hiso₄, -⟩ := hiso₃.loadProgram (by simp) rfl hinit
  rcases ite_eq_ok h with ⟨-, h⟩ | ⟨-, h⟩
  · cases h
  cases h
  have hlive : Kernel.bootSched.live = fun p => decide (p = IDLE_PID) || decide (p = INIT_PID) :=
    funext bootSched_live
  refine ⟨⟨free₄, ?_⟩, rfl⟩
  show ({ init.machine with ptbr1 := .region1 IDLE_PID } : Machine).flushRegion1.Isolated
    (ownedBy Kernel.bootSched.live) free₄
  rw [hlive]
  exact hiso₄.congr rfl rfl rfl fun _ _ => rfl

/-- In every state of every run, frames are apart. -/
theorem reachable_apart {b : BootImage} {k : Kernel} (h : Reachable b k) : k.Apart := by
  have hinv : (k.toSched.Objects ∧ k.toSched.Running) ∧ k.Apart := by
    refine ReachableWhen.invariant
      (I := fun k => (k.toSched.Objects ∧ k.toSched.Running) ∧ k.Apart)
      (fun k hstart => ⟨?_, kernelStart_apart hstart⟩) (fun k e k' hinv _ hfresh hstep => ?_) h
    · rw [kernelStart_sched hstart]
      exact ⟨bootSched_objects, bootSched_running⟩
    · obtain ⟨⟨hobj, hrun⟩, hapart⟩ := hinv
      have hrun' := hstep.sched.running hrun hobj
      exact ⟨⟨hstep.sched.objects hobj, hrun'⟩, hstep.apart hfresh hapart hrun hrun'⟩
  exact hinv.2

/-- No frame is named twice by the valid entries of the page tables of live processes and
of the kernel heap, none of these frames is free, and no frame is free twice. The free list
is what the links in the frames describe. -/
theorem frames_isolated {b : BootImage} {k : Kernel} (h : Reachable b k) :
    ∃ free, k.machine.FreeList free ∧ free.Nodup ∧
      ∀ r, ownedBy k.live r → (k.machine.pte r.table r.index).valid →
        (k.machine.pte r.table r.index).pfn ∉ free ∧
        ∀ r', ownedBy k.live r' → (k.machine.pte r'.table r'.index).valid →
          (k.machine.pte r'.table r'.index).pfn = (k.machine.pte r.table r.index).pfn → r' = r := by
  obtain ⟨free, hiso⟩ := (reachable_apart h).isolated
  refine ⟨free, hiso.list, hiso.exclusive.nodup, fun r hown hvalid => ?_⟩
  have hr := Machine.held_eq_some.mpr ⟨hown, hvalid, rfl⟩
  refine ⟨hiso.exclusive.notFree hr, fun r' hown' hvalid' hpfn => ?_⟩
  exact hiso.exclusive.inj (Machine.held_eq_some.mpr ⟨hown', hvalid', hpfn⟩) hr

/-- After init has forked, and the child has grown its heap and exited. -/
theorem frames_isolated_fork :
    ∃ k, Kernel.run smallImage (initRuns ++ [systemCall YALNIX_FORK 0 0 0, .resume,
        systemCall YALNIX_BRK 0x104000 0 0, systemCall YALNIX_EXIT 0 0 0]) = some k ∧
      ∃ free, k.machine.FreeList free ∧ free.Nodup ∧
        ∀ r, ownedBy k.live r → (k.machine.pte r.table r.index).valid →
          (k.machine.pte r.table r.index).pfn ∉ free ∧
          ∀ r', ownedBy k.live r' → (k.machine.pte r'.table r'.index).valid →
            (k.machine.pte r'.table r'.index).pfn = (k.machine.pte r.table r.index).pfn →
              r' = r := by
  have hsome : (Kernel.run smallImage (initRuns ++ [systemCall YALNIX_FORK 0 0 0, .resume,
      systemCall YALNIX_BRK 0x104000 0 0, systemCall YALNIX_EXIT 0 0 0])).isSome = true := by
    decide +kernel
  obtain ⟨k, hrun⟩ := Option.isSome_iff_exists.mp hsome
  exact ⟨k, hrun, frames_isolated (.of_run hrun)⟩

end Theynix
