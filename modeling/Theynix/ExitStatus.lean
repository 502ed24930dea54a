import Theynix.Family
import Theynix.UserBytes

/-!
# `Theynix.ExitStatus`: every exit status is delivered once

* `SchedStep.familyInv`: every step keeps the links between parents and children.
* `SchedStep.waits_iff`: a process waits until the next of its children exits.
* `exit_status_delivered_once`: each wait stores the status of another child, in the order
  of the exits, and no status is lost while the parent lives.
-/

set_option autoImplicit false

namespace Theynix

open Theynix.Lib (bind_eq_ok ite_eq_ok FamilyEvent)

namespace Sched

/-! ## The functions that leave the families alone -/

section
variable {s s' : Sched}

theorem kernelRelease_sameKin {lockId : Nat} {rc : Int}
    (h : s.kernelRelease lockId = .ok (rc, s')) : SameKin s s' := by
  have hdisown : SameKin s (s.disown lockId) := (SameKin.refl s).updPcb (by intro; rfl)
  cases kernelRelease_cases h with
  | error => exact .refl s
  | available => exact (hdisown.updLock _ _).observe (by rfl)
  | handOver => exact (((hdisown.updLock _ _).updPcb (by intro; rfl)).ready _).observe (by rfl)

theorem decrementTicksRemaining_sameKin (s : Sched) (proc : Pid) :
    SameKin s (s.decrementTicksRemaining proc).2 := by
  have hdown : SameKin s (s.updPcb proc fun p =>
      { p with clockTicksUntilReady := p.clockTicksUntilReady - 1 }) := (SameKin.refl s).updPcb (by intro; rfl)
  unfold decrementTicksRemaining
  dsimp only
  generalize s.updPcb proc _ = s₁ at hdown
  have herase : SameKin s { s₁ with clockBlockProcs := s₁.clockBlockProcs.erase proc } :=
    hdown.keep rfl
  split
  · exact (herase.ready proc).observe (by rfl)
  · exact hdown

theorem trapClock_sameKin {afterFree : List FreedNext} (h : s.trapClock afterFree = .ok s') :
    SameKin s s' := by
  obtain ⟨s₁, hmap, hrest⟩ := bind_eq_ok.mp h
  obtain ⟨_, h₁⟩ := mapTicks_rule (P := fun _ => SameKin s)
    (fun _ proc _ hs => hs.trans (decrementTicksRemaining_sameKin _ proc))
    ((SameKin.refl s).observe (by rfl)) hmap
  rcases ite_eq_ok hrest with ⟨-, hret⟩ | ⟨-, hret⟩ <;> cases hret
  · exact h₁.ready _
  · exact h₁

theorem serveReader_sameKin (s : Sched) (ttyId : Nat) (proc : Pid) (rest : List Pid) (pcb : PCB)
    (buffer input : List Byte) : SameKin s (s.serveReader ttyId proc rest pcb buffer input) :=
  ((((SameKin.refl s).updTty _ _).ready _).updPcb (by intro; rfl)).observe (by rfl)

theorem trapTtyRecieve_sameKin {ttyId : Nat} {input : List Byte}
    (h : s.trapTtyRecieve ttyId input = .ok s') : SameKin s s' := by
  unfold trapTtyRecieve at h
  rcases ite_eq_ok h with ⟨-, h⟩ | ⟨-, h⟩
  · cases h
  have h₀ : SameKin s (s.observe (.ttyReceived ttyId (input.take TERMINAL_MAX_LINE))) :=
    (SameKin.refl s).observe (by rfl)
  rcases ite_eq_ok h with ⟨-, h⟩ | ⟨-, h⟩
  · cases h
    exact h₀.keep rfl
  · obtain ⟨⟨left, s₁⟩, hserve, hrest⟩ := bind_eq_ok.mp h
    obtain ⟨_, h₁, -⟩ := serveReaders_rule (P := fun _ _ => SameKin s)
      (fun _ _ _ _ _ _ hs _ _ _ => hs.trans (serveReader_sameKin _ _ _ _ _ _ _)) h₀ hserve
    rcases ite_eq_ok hrest with ⟨-, hret⟩ | ⟨-, hret⟩ <;> cases hret
    · exact h₁
    · exact h₁.keep rfl

theorem transmitNext_sameKin (s : Sched) (ttyId : Nat) (proc : Pid) :
    SameKin s (s.transmitNext ttyId proc) := by
  unfold transmitNext
  split
  · exact .refl s
  · exact (SameKin.refl s).observe (by rfl)

theorem trapTtyTransmit_sameKin {ttyId : Nat} (h : s.trapTtyTransmit ttyId = .ok s') :
    SameKin s s' := by
  have h₀ : SameKin s (s.observe (.ttyTransmitted ttyId)) := (SameKin.refl s).observe (by rfl)
  have hfinish : ∀ proc rest, SameKin s (s.finishTransmit ttyId proc rest) := fun proc rest =>
    ((h₀.updTty _ _).ready proc).observe (by rfl)
  cases trapTtyTransmit_cases h with
  | advance =>
      refine SameKin.trans ?_ (transmitNext_sameKin _ _ _)
      refine SameKin.updPcb h₀ ?_
      intro a
      simp only [PCB.kin]
  | last => exact hfinish _ _
  | finish => exact (hfinish _ _).trans (transmitNext_sameKin _ _ _)

theorem afterPipeWrite_sameKin (s : Sched) (pipeId : Nat) (p : Pipe) (bytes : List Byte) :
    SameKin s (s.afterPipeWrite pipeId p bytes) := by
  have hpipe := fun f => (SameKin.refl s).updPipe pipeId f
  unfold afterPipeWrite
  dsimp only
  split
  · exact ((hpipe _).observe (by rfl)).ready _
  · exact (hpipe _).observe (by rfl)

theorem kernelCvarSignal_sameKin (s : Sched) (cvarId : Nat) :
    SameKin s (s.kernelCvarSignal cvarId).2 := by
  unfold kernelCvarSignal
  split
  · exact .refl s
  · split
    · exact .refl s
    · exact (SameKin.refl s).keep rfl

theorem kernelCvarBroadcast_sameKin (s : Sched) (cvarId : Nat) :
    SameKin s (s.kernelCvarBroadcast cvarId).2 := by
  unfold kernelCvarBroadcast
  split
  · exact .refl s
  · exact (SameKin.refl s).keep rfl

theorem kernelReclaim_sameKin (s : Sched) (id : Nat) : SameKin s (s.kernelReclaim id).2 := by
  rcases kernelReclaim_cases s id with he | he | he | he <;> rw [he]
  · exact .refl s
  all_goals exact (SameKin.refl s).keep rfl

theorem takeLock_sameKin (s : Sched) (lockId : Nat) : SameKin s (s.takeLock lockId) :=
  (((SameKin.refl s).updLock _ _).updPcb (by intro; rfl)).observe (by rfl)

theorem enqueueForLock_sameKin (s : Sched) (lockId : Nat) :
    SameKin s (s.enqueueForLock lockId) :=
  ((SameKin.refl s).updLock _ _).observe (by rfl)

theorem enqueueForClock_sameKin (s : Sched) (clockTicks : Int) :
    SameKin s (s.enqueueForClock clockTicks) := by
  have hticks : SameKin s (s.updCurrent fun p => { p with clockTicksUntilReady := clockTicks }) :=
    (SameKin.refl s).updPcb (by intro; rfl)
  have hlist : SameKin s { s.updCurrent fun p => { p with clockTicksUntilReady := clockTicks } with
      clockBlockProcs := s.clockBlockProcs ++ [s.currentProc] } := hticks.keep rfl
  exact hlist.observe (by rfl)

theorem enqueueToReceive_sameKin (s : Sched) (ttyId len : Nat) :
    SameKin s (s.enqueueToReceive ttyId len) :=
  ((SameKin.refl s).updTty _ _).updPcb (by intro; rfl)

theorem enqueueToTransmit_sameKin (s : Sched) (ttyId : Nat) (bytes : List Byte) :
    SameKin s (s.enqueueToTransmit ttyId bytes) := by
  have hbuffer : SameKin s (s.updCurrent fun p =>
      { p with
        ttyTransmitLen := bytes.length, ttyTransmitBuffer := bytes, ttyTransmitPointer := 0 }) :=
    (SameKin.refl s).updPcb (by intro; rfl)
  unfold enqueueToTransmit
  dsimp only
  split
  · exact ((hbuffer.updTty _ _).observe (by rfl)).observe (by rfl)
  · exact (hbuffer.updTty _ _).observe (by rfl)

end

/-! ## Every step -/

section
variable {s s' : Sched}

/-- A process that runs does not wait for a child. -/
theorem Settled.waits_current (h : s.Running) : s.waits s.currentProc = false := by
  have hnot := h.placed.nowhere (a := s.currentProc) (fun hi => (hi.2.2.resolve_left id) rfl) .wait
  simpa [occ, Sched.waits] using hnot

theorem FamilyInv.kernelExit (h : s.FamilyInv) (hrun : s.Running) {status : Int}
    (hok : s.kernelExit status = .ok s') : s'.FamilyInv := by
  unfold Sched.kernelExit at hok
  rcases ite_eq_ok hok with ⟨-, hok⟩ | ⟨-, hok⟩
  · cases hok
  obtain ⟨s₁, hrelease, hret⟩ := bind_eq_ok.mp hok
  cases hret
  obtain ⟨hrun₁, hl₁⟩ := hrun.releaseOwnedLocks hrelease
  have hk₁ : SameKin s s₁ := releaseOwnedLocks_rule (P := SameKin s)
    (fun _ _ _ _ hs hr => hs.trans (kernelRelease_sameKin hr)) (.refl s) hrelease
  exact (h.lives hl₁ hk₁).leaveFamily (hrun₁.current.resolve_left id) hrun₁.waits_current status

theorem FamilyInv.fork (h : s.FamilyInv) (hrun : s.Running) :
    (((({ s with nextPid := s.nextPid + 1 } : Sched).addChild s.nextPid).ready
      s.currentProc).switchToProc s.nextPid (.kernelFork s.nextPid)).FamilyInv := by
  have hnone := hrun.nextPid_pcb
  have hexited : ¬ s.exited s.nextPid := fun hex => Nat.lt_irrefl _ (hrun.exitedLt _ hex)
  have h₀ : ({ s with nextPid := s.nextPid + 1 } : Sched).FamilyInv :=
    h.same ⟨fun _ => rfl, rfl, Nat.le_succ _⟩ fun p hwait _ hp => .inl ⟨hwait, hp⟩
  have h₁ := h₀.addChild (c := s.nextPid) rfl hnone hexited (hrun.current.resolve_left id)
    (fun p hp => Nat.lt_irrefl _ (h.forkedLt p _ hp)) h.nextPid
    fun p hmem => hexited ((h.zombies p _).mp hmem).1
  have h₂ := h₁.same ((SameKin.refl _).ready s.currentProc) fun p hwait _ hp => .inl ⟨hwait, hp⟩
  exact h₂.switchToProc fun _ hctx => by cases hctx

/-- Every step keeps the links between parents and children. -/
theorem SchedStep.familyInv {c : Cause} (h : s.FamilyInv) (hrun : s.Running)
    (hstep : SchedStep s c s') : s'.FamilyInv := by
  have hl := SameLives.refl s
  have hk := SameKin.refl s
  cases hstep with
  | quiet => exact h
  | finish _ _ => exact h.toUser
  -- Only the pid is used up.
  | forkFailed _ =>
      have h₀ : ({ s with nextPid := s.nextPid + 1 } : Sched).FamilyInv :=
        h.same ⟨fun _ => rfl, rfl, Nat.le_succ _⟩ fun p hwait _ hp => .inl ⟨hwait, hp⟩
      exact h₀.toUser
  | fork _ => exact h.fork hrun
  | exit _ run => exact (h.kernelExit hrun run).switchToNextProc (by simp)
  | collect _ current zombies zombie =>
      exact h.collect (hrun.current.resolve_left id) current zombies zombie
  | wait calls current zombies children => exact h.wait hrun calls.2 current zombies children
  | delay _ _ =>
      exact (h.lives (enqueueForClock_sameLives _ _) (enqueueForClock_sameKin _ _)).switchToNextProc
        (by simp)
  | clock _ _ run =>
      exact (h.lives (hrun.trapClock run).2 (trapClock_sameKin run)).switchToNextProc (by simp)
  | consumeLine _ _ _ _ =>
      exact (h.lives ((hl.updTty _ _).observe (by intro; rfl)) ((hk.updTty _ _).observe (by rfl))).toUser
  | ttyReadBlock _ _ _ =>
      exact (h.lives (enqueueToReceive_sameLives _ _ _)
        (enqueueToReceive_sameKin _ _ _)).switchToNextProc (by simp)
  | ttyReceive _ _ run => exact h.lives (hrun.trapTtyRecieve run).2 (trapTtyRecieve_sameKin run)
  -- A writer is suspended in a context of its own, never in `KernelWait`.
  | ttyWrite _ transmits =>
      refine (h.lives (enqueueToTransmit_sameLives _ _ _)
        (enqueueToTransmit_sameKin _ _ _)).switchToNextProc ?_
      rintro statusPtr rfl
      cases transmits
  | ttyTransmit _ _ run => exact h.lives (hrun.trapTtyTransmit run).2 (trapTtyTransmit_sameKin run)
  | pipeInit _ => exact (h.lives (pipeNewPipe_sameLives s) (hk.keep rfl)).toUser
  | lockInit _ => exact (h.lives (lockNewLock_sameLives s) (hk.keep rfl)).toUser
  | cvarInit _ => exact (h.lives (cVarNewCVar_sameLives s) (hk.keep rfl)).toUser
  | pipeReadBlock _ _ _ =>
      exact (h.lives (hl.updPipe _ _) (hk.keep rfl)).switchToNextProc (by simp)
  | pipeRead _ _ _ =>
      exact (h.lives ((hl.updPipe _ _).observe (by intro; rfl)) ((hk.updPipe _ _).observe (by rfl))).toUser
  | pipeWrite _ _ found run =>
      exact (h.lives (hrun.afterPipeWrite (mem_of_findPipe found).2
        (Pipe.write_waitingToRead run) _).2 (afterPipeWrite_sameKin _ _ _ _)).toUser
  | acquireOwned _ _ _ _ => exact (h.lives (hl.observe (by intro; rfl)) (hk.observe (by rfl))).toUser
  | acquireFree _ _ _ =>
      exact (h.lives ((takeLock_sameLives _ _).observe (by intro; rfl)) ((takeLock_sameKin _ _).observe (by rfl))).toUser
  | acquireBlock _ _ _ _ =>
      exact (h.lives (enqueueForLock_sameLives _ _)
        (enqueueForLock_sameKin _ _)).switchToNextProc (by simp)
  | acquireMissing _ _ => exact h.toUser
  | acquireReturn _ _ _ _ => exact (h.lives (hl.observe (by intro; rfl)) (hk.observe (by rfl))).toUser
  | release _ run =>
      exact (h.lives (hrun.kernelRelease run).2 (kernelRelease_sameKin run)).toUser
  | cvarSignal _ =>
      exact (h.lives (hrun.kernelCvarSignal _).2 (kernelCvarSignal_sameKin _ _)).toUser
  | cvarBroadcast _ =>
      exact (h.lives (hrun.kernelCvarBroadcast _).2 (kernelCvarBroadcast_sameKin _ _)).toUser
  | cvarWait _ _ run _ =>
      have h₁ := h.lives (hrun.kernelRelease run).2 (kernelRelease_sameKin run)
      exact (h₁.lives ((SameLives.refl _).updCvar _ _) ((SameKin.refl _).keep rfl)).switchToNextProc
        (by simp)
  | reclaim _ =>
      exact (h.lives (kernelReclaim_keeps s _).1 (kernelReclaim_sameKin s _)).toUser

/-- What a step does to the families: nothing, but for a fork, an exit and a wait. -/
inductive KinStep (s : Sched) : Sched → Prop
  | same {s' : Sched} (kin : SameKin s s') : KinStep s s'
  | fork {s' : Sched}
      (kin : SameKin (({ s with nextPid := s.nextPid + 1 } : Sched).addChild s.nextPid) s') :
      KinStep s s'
  | exit {status : Int} {s₁ : Sched} (run : s.kernelExit status = .ok s₁) :
      KinStep s (s₁.switchToNextProc .kernelExit)
  | collect {pcb childPcb : PCB} {child : Pid} {rest : List Pid}
      (current : s.pcb s.currentProc = some pcb) (zombies : pcb.zombieChildren = child :: rest)
      (zombie : s.pcb child = some childPcb) :
      KinStep s (((s.updCurrent fun p => { p with zombieChildren := rest }).freePcb
        child).observe (.waited s.currentProc child childPcb.exitStatus)).toUser
  | wait {s' : Sched} (kin : SameKin (s.updCurrent fun p => { p with waitingOnChildren := true }) s') :
      KinStep s s'

theorem SchedStep.kin {c : Cause} (hstep : SchedStep s c s') : KinStep s s' := by
  have hk := SameKin.refl s
  have huser : ∀ {s₁}, SameKin s s₁ → KinStep s s₁.toUser := fun hs => .same (hs.keep rfl)
  cases hstep with
  | quiet => exact .same hk
  | finish _ _ => exact huser hk
  | forkFailed _ => exact .same ⟨fun _ => rfl, rfl, Nat.le_succ _⟩
  | fork _ => exact .fork (((SameKin.refl _).ready _).switchToProc _ _)
  | exit _ run => exact .exit run
  | collect _ current zombies zombie => exact .collect current zombies zombie
  | wait _ _ _ _ => exact .wait ((SameKin.refl _).switchToNextProc _)
  | delay _ _ => exact .same ((enqueueForClock_sameKin _ _).switchToNextProc _)
  | clock _ _ run => exact .same ((trapClock_sameKin run).switchToNextProc _)
  | consumeLine _ _ _ _ => exact huser ((hk.updTty _ _).observe (by rfl))
  | ttyReadBlock _ _ _ => exact .same ((enqueueToReceive_sameKin _ _ _).switchToNextProc _)
  | ttyReceive _ _ run => exact .same (trapTtyRecieve_sameKin run)
  | ttyWrite _ _ => exact .same ((enqueueToTransmit_sameKin _ _ _).switchToNextProc _)
  | ttyTransmit _ _ run => exact .same (trapTtyTransmit_sameKin run)
  | pipeInit _ => exact .same (hk.keep rfl)
  | lockInit _ => exact .same (hk.keep rfl)
  | cvarInit _ => exact .same (hk.keep rfl)
  | pipeReadBlock _ _ _ => exact .same ((hk.updPipe _ _).switchToNextProc _)
  | pipeRead _ _ _ => exact huser ((hk.updPipe _ _).observe (by rfl))
  | pipeWrite _ _ _ _ => exact huser (afterPipeWrite_sameKin _ _ _ _)
  | acquireOwned _ _ _ _ => exact huser (hk.observe (by rfl))
  | acquireFree _ _ _ => exact huser ((takeLock_sameKin _ _).observe (by rfl))
  | acquireBlock _ _ _ _ => exact .same ((enqueueForLock_sameKin _ _).switchToNextProc _)
  | acquireMissing _ _ => exact huser hk
  | acquireReturn _ _ _ _ => exact huser (hk.observe (by rfl))
  | release _ run => exact huser (kernelRelease_sameKin run)
  | cvarSignal _ => exact huser (kernelCvarSignal_sameKin _ _)
  | cvarBroadcast _ => exact huser (kernelCvarBroadcast_sameKin _ _)
  | cvarWait _ _ run _ =>
      exact .same (((kernelRelease_sameKin run).updCvar _ _).switchToNextProc _)
  | reclaim _ => exact huser (kernelReclaim_sameKin _ _)

section
variable {p : Pid}

theorem live_addChild {c : Pid} (hc : c ≠ s.currentProc) (hp : p ≠ c) :
    (s.addChild c).live p = s.live p := by
  rw [Sched.live, exited_addChild, addChild_pcb hc, if_neg hp, Option.isSome_map]
  rfl

theorem live_addChild_self {c : Pid} (hc : c ≠ s.currentProc) (hexited : s.exited c = false) :
    (s.addChild c).live c = true := by
  rw [Sched.live, exited_addChild, addChild_pcb hc, if_pos rfl, hexited]
  rfl

theorem live_freePcb {r : Pid} (hp : p ≠ r) : (s.freePcb r).live p = s.live p := by
  simp only [Sched.live, freePcb, if_neg hp]
  rfl

theorem switchToNextProc_live {c : KernelContext} :
    (s.switchToNextProc c).live p = s.live p := by
  unfold Sched.switchToNextProc
  split
  · exact switchToProc_live
  · exact switchToProc_live

/-- A step ends the life of the running process at most, and starts at most that of the next
pid. -/
theorem KinStep.live (hstep : KinStep s s') (h : s.FamilyInv) (hrun : s.Running) :
    (s.live p = true → p ≠ s.currentProc → s'.live p = true) ∧
      (s'.live p = true → s.live p = true ∨ p = s.nextPid) := by
  have hlive := hrun.current.resolve_left id
  cases hstep with
  | same kin =>
      rw [kin.live]
      exact ⟨fun hp _ => hp, .inl⟩
  | wait kin =>
      rw [kin.live, Sched.updCurrent, live_updPcb]
      exact ⟨fun hp _ => hp, .inl⟩
  | fork kin =>
      rw [kin.live]
      refine ⟨fun hp _ => ?_, fun hp => ?_⟩
      · have hne : p ≠ s.nextPid := by
          rintro rfl
          exact Nat.lt_irrefl _ (hrun.pcbLt _ (Bool.and_eq_true _ _ ▸ hp).1)
        have hcur : s.nextPid ≠ s.currentProc := by
          intro he
          exact Nat.lt_irrefl _ (hrun.pcbLt s.nextPid (he ▸ (Bool.and_eq_true _ _ ▸ hlive).1))
        exact (live_addChild (s := { s with nextPid := s.nextPid + 1 }) hcur hne).trans hp
      · exact Kernel.addChild_live hp
  | @exit status s₁ run =>
      rw [switchToNextProc_live]
      unfold Sched.kernelExit at run
      rcases ite_eq_ok run with ⟨-, run⟩ | ⟨-, run⟩
      · cases run
      obtain ⟨s₂, hrelease, hret⟩ := bind_eq_ok.mp run
      cases hret
      obtain ⟨hrun₂, hl₂⟩ := hrun.releaseOwnedLocks hrelease
      have hk₂ : SameKin s s₂ := releaseOwnedLocks_rule (P := SameKin s)
        (fun _ _ _ _ hs hr => hs.trans (kernelRelease_sameKin hr)) (.refl s) hrelease
      have hleaves := (h.lives hl₂ hk₂).leavesFamily (hrun₂.current.resolve_left id)
        hrun₂.waits_current status
      -- Exactly the current process leaves the live ones.
      have hiff := hleaves.live p
      rw [hl₂.currentProc, hl₂.live] at hiff
      exact ⟨fun hp hne => hiff.mpr ⟨hp, hne⟩, fun hp => .inl (hiff.mp hp).1⟩
  | @collect pcb childPcb child rest current zombies zombie =>
      refine ⟨fun hp _ => ?_, fun hp => .inl ?_⟩
      · have hne : p ≠ child := by
          rintro rfl
          -- The child that is collected was dead before.
          have hexited := hrun.zombies s.currentProc pcb current p (zombies ▸ List.mem_cons_self)
          simp [Sched.live, hexited] at hp
        have hsame := ((SameLives.refl ((s.updCurrent fun p =>
          { p with zombieChildren := rest }).freePcb child)).observe
          (o := .waited s.currentProc child childPcb.exitStatus) (by intro; rfl)).toUser.live p
        rw [hsame, live_freePcb hne, Sched.updCurrent, live_updPcb]
        exact hp
      · have hp' := live_of_freePcb (live_of_observe hp)
        rwa [Sched.updCurrent, live_updPcb] at hp'

end

/-- A process in the ready queue stays there, or is switched to. -/
theorem ready_switchToNextProc {p : Pid} {context : KernelContext} (hp : p ∈ s.readyQueue) :
    p ∈ (s.switchToNextProc context).readyQueue ∨
      (s.switchToNextProc context).currentProc = p ∧
        (s.switchToNextProc context).mode = .kernel := by
  unfold Sched.switchToNextProc
  split
  · rename_i next rest hq
    rw [hq] at hp
    rcases List.mem_cons.mp hp with rfl | hp
    · exact .inr ⟨rfl, rfl⟩
    · rw [switchToProc_readyQueue]
      exact .inl hp
  · rename_i hq
    rw [hq] at hp
    cases hp

/-- The parent of the exiting process is woken, if it waits. -/
theorem FamilyInv.leaveFamily_ready (h : s.FamilyInv) (hlive : s.live s.currentProc) {p : Pid}
    (hp : s.waits p) (hparent : s.parent s.currentProc = some p) (status : Int) :
    p ∈ (s.leaveFamily status).readyQueue := by
  obtain ⟨pcb, hpcb⟩ := Option.isSome_iff_exists.mp (Bool.and_eq_true _ _ ▸ hlive).1
  have hlp : pcb.liveParent = some p := by simpa [Sched.parent, hpcb] using hparent
  have hne : p ≠ s.currentProc := h.run.parent_ne hparent
  have hnot : p ∉ pcb.zombieChildren := by
    intro hz
    have hmem : p ∈ s.zombies s.currentProc := by simpa [Sched.zombies, hpcb] using hz
    have hexited := ((h.zombies _ _).mp hmem).1
    have halive : s.live p := (h.run.parent_alive hparent).1
    simp [Sched.live, hexited] at halive
  unfold Sched.leaveFamily
  rw [hpcb]
  simp only [hlp, becomeZombie]
  rw [if_pos]
  · exact List.mem_append_right _ (List.mem_singleton.mpr rfl)
  · simp only [observe, updCurrent, updPcb_pcb, abandonChildren, if_neg hnot]
    rw [Sched.waits] at hp
    cases hsp : s.pcb p with
    | none => simp [hsp] at hp
    | some a => by_cases hc : p ∈ pcb.liveChildren <;> simpa [hc, hne, hsp] using hp

/-- A process waits until the next of its children exits, and is ready then. -/
theorem SchedStep.waits_iff {c : Cause} (h : s.FamilyInv) (hrun : s.Running)
    (hstep : SchedStep s c s') {p : Pid} (hp : s.waits p) :
    (s'.waits p ↔ Lib.Family.left s'.familyEvents p = Lib.Family.left s.familyEvents p) ∧
      (¬ s'.waits p → p ∈ s'.readyQueue ∨ s'.currentProc = p ∧ s'.mode = .kernel) := by
  -- The current process runs, so it does not wait.
  have hne : p ≠ s.currentProc := by
    rintro rfl
    rw [hrun.waits_current] at hp
    cases hp
  have hlive : s.live p := by
    have hocc : s.occ .wait p ≠ 0 := by simpa [occ, Sched.waits] using hp
    exact (hrun.placed.inside_of_occ hocc).1
  have hstays : s'.waits p → Lib.Family.left s'.familyEvents p = Lib.Family.left s.familyEvents p →
      (s'.waits p ↔ Lib.Family.left s'.familyEvents p = Lib.Family.left s.familyEvents p) ∧
        (¬ s'.waits p → p ∈ s'.readyQueue ∨ s'.currentProc = p ∧ s'.mode = .kernel) :=
    fun hw hleft => ⟨⟨fun _ => hleft, fun _ => hw⟩, fun hnot => absurd hw hnot⟩
  cases SchedStep.kin hstep with
  | same kin => exact hstays (kin.waits p ▸ hp) (by rw [kin.events])
  | fork kin =>
      have hnone := hrun.nextPid_pcb
      have hchild : s.nextPid ≠ s.currentProc := by
        intro he
        have hcur := hrun.current.resolve_left id
        simp [Sched.live, ← he, hnone] at hcur
      have hpc : p ≠ s.nextPid := by
        rintro rfl
        simp [Sched.live, hnone] at hlive
      refine hstays ?_ ?_
      · rw [kin.waits, Sched.waits, addChild_pcb (s := { s with nextPid := s.nextPid + 1 }) hchild,
          if_neg hpc]
        simpa [Sched.waits, hne, Function.comp_def] using hp
      · rw [kin.events]
        have hevents : (({ s with nextPid := s.nextPid + 1 } : Sched).addChild
            s.nextPid).familyEvents = s.familyEvents ++ [.fork s.currentProc s.nextPid] := by
          simp [familyEvents, Sched.addChild, observe, updCurrent, updPcb, Obs.familyEvent]
        rw [hevents]
        exact h.run.left_fork (Nat.not_lt.mpr h.nextPid)
          fun q hq => Nat.lt_irrefl _ (h.forkedLt q _ hq)
  | @exit status _ run =>
      unfold Sched.kernelExit at run
      rcases ite_eq_ok run with ⟨-, run⟩ | ⟨-, run⟩
      · cases run
      obtain ⟨s₁, hrelease, hret⟩ := bind_eq_ok.mp run
      cases hret
      obtain ⟨hrun₁, hl₁⟩ := hrun.releaseOwnedLocks hrelease
      have hk₁ : SameKin s s₁ := releaseOwnedLocks_rule (P := SameKin s)
        (fun _ _ _ _ hs hr => hs.trans (kernelRelease_sameKin hr)) (.refl s) hrelease
      have h₁ := h.lives hl₁ hk₁
      have hlive₁ := hrun₁.current.resolve_left id
      have hp₁ : s₁.waits p := by rwa [hk₁.waits]
      have he := h₁.leavesFamily hlive₁ hrun₁.waits_current status
      have hk₂ := (SameKin.refl (s₁.leaveFamily status)).switchToNextProc .kernelExit
      -- `p` goes on waiting unless it is the parent of the process that exits.
      have hparent : s₁.parent s₁.currentProc = some p ↔
          .fork p s₁.currentProc ∈ s₁.familyEvents := by
        refine ⟨fun hpar => (h₁.run.parent_alive hpar).2, fun hfork => ?_⟩
        have hpLive : s₁.live p := by rwa [hk₁.live]
        exact h₁.run.parent_of_fork hfork (fun r hr => (h₁.run.exit_known hr).2 hpLive) hlive₁
      have hwaits' : ((s₁.leaveFamily status).switchToNextProc .kernelExit).waits p ↔
          s₁.parent s₁.currentProc ≠ some p := by
        rw [hk₂.waits]
        refine ⟨fun hw => (he.waits p hw).2.2, fun hpar => ?_⟩
        exact he.stillWaits p (by rwa [hk₁.live]) hp₁ (by rwa [hl₁.currentProc]) hpar
      refine ⟨?_, fun hnot => ?_⟩
      · rw [hwaits', hk₂.events, he.events, Lib.Family.Runs.left_exit, hk₁.events, Ne, hparent,
          hk₁.events]
        split
        · rename_i hfork
          simp [hfork]
        · rename_i hfork
          simp [hfork]
      · rw [hwaits', not_not] at hnot
        exact ready_switchToNextProc (h₁.leaveFamily_ready hlive₁ hp₁ hnot status)
  | @collect pcb childPcb child rest current zombies zombie =>
      -- A parent that collects a child is running.
      have hexited : s.exited child :=
        hrun.zombies _ _ current child (zombies ▸ List.mem_cons_self)
      have hpc : p ≠ child := by
        rintro rfl
        simp [Sched.live, hexited] at hlive
      refine hstays ?_ ?_
      · simp only [Sched.waits, Sched.toUser, observe, freePcb, updCurrent, updPcb_pcb, if_neg hpc,
          if_neg hne, Option.map_map, Function.comp_def]
        exact hp
      · have hevents : (((s.updCurrent fun p => { p with zombieChildren := rest }).freePcb
            child).observe (.waited s.currentProc child childPcb.exitStatus)).toUser.familyEvents
              = s.familyEvents ++ [.wait s.currentProc child childPcb.exitStatus] := by
          simp [familyEvents, Sched.toUser, observe, freePcb, updCurrent, updPcb, Obs.familyEvent]
        rw [hevents, Lib.Family.Runs.left_wait]
  | wait kin =>
      refine hstays ?_ (by rw [kin.events]; rfl)
      rw [kin.waits, Sched.waits, updCurrent, updPcb_pcb]
      simpa [Sched.waits, hne, Function.comp_def] using hp

theorem bootSched_familyInv : Kernel.bootSched.FamilyInv := by
  -- The two processes that the kernel makes when it boots have no family.
  have hpcb : ∀ p a, Kernel.bootSched.pcb p = some a →
      p < 2 ∧ a.liveParent = none ∧ a.liveChildren = [] ∧ a.zombieChildren = [] ∧
        a.waitingOnChildren = false ∧ ∀ statusPtr, a.kernelContext ≠ .kernelWait statusPtr := by
    intro p a ha
    simp only [Kernel.bootSched] at ha
    split at ha
    · rename_i hp
      cases ha
      subst hp
      exact ⟨by decide, rfl, rfl, rfl, rfl, by simp⟩
    · split at ha
      · rename_i hp
        cases ha
        subst hp
        exact ⟨by decide, rfl, rfl, rfl, rfl, by simp⟩
      · cases ha
  have hparent : ∀ p, Kernel.bootSched.parent p = none := by
    intro p
    rw [Sched.parent]
    cases hp : Kernel.bootSched.pcb p with
    | none => rfl
    | some a => exact (hpcb p a hp).2.1
  have hlists : ∀ p, Kernel.bootSched.children p = [] ∧ Kernel.bootSched.zombies p = [] ∧
      Kernel.bootSched.waits p = false := by
    intro p
    rw [Sched.children, Sched.zombies, Sched.waits]
    cases hp : Kernel.bootSched.pcb p with
    | none => exact ⟨rfl, rfl, rfl⟩
    | some a =>
        obtain ⟨-, -, hchildren, hzombies, hwaits, -⟩ := hpcb p a hp
        exact ⟨hchildren, hzombies, hwaits⟩
  have hfamily : Kernel.bootSched.family =
      { alive := founders, parent := fun _ => none, zombies := fun _ => [] } := by
    have halive : ({p | Kernel.bootSched.live p} : Set Pid) = founders := by
      ext p
      show Kernel.bootSched.live p ↔ p < 2
      constructor
      · intro hlive
        obtain ⟨a, ha⟩ := Option.isSome_iff_exists.mp (Bool.and_eq_true _ _ ▸ hlive).1
        exact (hpcb p a ha).1
      · intro hp
        have hcases : p = 0 ∨ p = 1 := Nat.le_one_iff_eq_zero_or_eq_one.mp (Nat.lt_succ_iff.mp hp)
        rcases hcases with rfl | rfl
        · rfl
        · rfl
    simp only [family, halive, funext hparent, (hlists _).2.1, List.map_nil]
  refine ⟨hfamily ▸ .start, fun p c => ?_, fun p => ?_, fun p c => ?_, fun p hp => ?_,
    fun p hwait _ _ => ?_, fun p c hc => (by cases hc), Nat.le_refl _⟩
  · simp [(hlists p).1, hparent c]
  · rw [(hlists p).1]
    exact List.nodup_nil
  · simp [(hlists p).2.1, hparent c]
  · rw [(hlists p).2.2] at hp
    cases hp
  · obtain ⟨a, statusPtr, ha, hctx⟩ := hwait
    exact absurd hctx ((hpcb p a ha).2.2.2.2.2 statusPtr)

end

end Sched

open Sched

/-! ## Runs -/

theorem reachable_familyInv {b : BootImage} {k : Kernel} (h : Reachable b k) :
    (k.toSched.Objects ∧ k.toSched.Running) ∧ k.toSched.FamilyInv :=
  h.schedInvariant (I := fun s => (s.Objects ∧ s.Running) ∧ s.FamilyInv)
    ⟨⟨bootSched_objects, bootSched_running⟩, bootSched_familyInv⟩
    fun _ _ _ hs hstep => ⟨⟨hstep.objects hs.1.1, hstep.running hs.1.2 hs.1.1⟩,
      SchedStep.familyInv hs.2 hs.1.2 hstep⟩

/-- The children of a process that have exited, with their statuses, oldest first. -/
def Sched.childExits (s : Sched) (p : Pid) : List (Pid × Int) := Lib.Family.left s.familyEvents p

/-- The children whose statuses a process has collected, oldest first. -/
def Sched.collected (s : Sched) (p : Pid) : List (Pid × Int) :=
  Lib.Family.collected s.familyEvents p

/-- The zombie children of a process, with their statuses. -/
def Sched.uncollected (s : Sched) (p : Pid) : List (Pid × Int) :=
  (s.zombies p).map fun c => (c, s.exitStatus c)

/-- A `KernelWait` of process `p` returns `SUCCESS`: it collects the first child that is
uncollected, and leaves the status of this child at `statusPtr` in the memory of `p`. -/
def Kernel.CollectsChild (k k' : Kernel) (p : Pid) (statusPtr : Nat) : Prop :=
  ∃ c status, (k.uncollected p).head? = some (c, status) ∧
    k'.collected p = k.collected p ++ [(c, status)] ∧
    k'.machine.Holds p statusPtr (wordBytes (asUnsigned status)) ∧ k'.currentProc = p ∧
    k'.mode = .user ∧ k'.userContext.regs 0 = asUnsigned SUCCESS

/-- A `KernelWait` of process `p` blocks it: there is no child to collect yet. -/
def Kernel.BlocksInWait (k k' : Kernel) (p : Pid) : Prop :=
  k.uncollected p = [] ∧ k'.waits p ∧ k'.mode = .kernel ∧ k'.collected p = k.collected p

/-- What holds of the exit statuses that a process gets from its children. -/
structure Kernel.DeliversOnce (k : Kernel) (p : Pid) : Prop where
  /-- `live_children` and `live_parent` agree. -/
  children : ∀ c, c ∈ k.children p ↔ k.live c ∧ k.parent c = some p
  /-- `live_parent` never names a process that has exited. -/
  parent : ∀ c, k.parent c = some p → ¬ k.exited p
  /-- A process that waits is blocked, has no zombie and has a child that lives. -/
  waiting : k.waits p → (p ≠ k.currentProc ∧ p ∉ k.readyQueue ∧ k.inKernelWait p) ∧
    k.zombies p = [] ∧ ∃ c, k.live c ∧ k.parent c = some p
  /-- Each status that has been collected is that of another child, in the order of exits. -/
  order : k.collected p <+: k.childExits p ∧ ((k.childExits p).map Prod.fst).Nodup
  /-- No status is lost while the parent lives. -/
  kept : k.live p → k.childExits p = k.collected p ++ k.uncollected p
  /-- `KernelWait` fails if and only if there are neither live nor uncollected children. -/
  fails : k.currentProc = p → ∀ statusPtr,
    k.validateUserArg statusPtr 4 PROT_WRITE →
    (k.kernelWait statusPtr = .ok (k.ret ERROR) ↔
      (∀ c, k.live c → k.parent c ≠ some p) ∧ k.collected p = k.childExits p)
  /-- A `KernelWait` that does not fail collects a child at once, or blocks. -/
  stores : k.currentProc = p → ∀ uc env k', uc.Calls YALNIX_WAIT → Step k (.trap uc env) k' →
    k' = ({ k with userContext := uc } : Kernel).ret ERROR ∨ k.CollectsChild k' p (uc.regs 0) ∨
      k.BlocksInWait k' p
  /-- A `KernelWait` that goes on collects a child. -/
  resumes : k.currentProc = p → ∀ statusPtr k', k.toSched.ResumesIn (.kernelWait statusPtr) →
    Step k .resume k' → k.CollectsChild k' p statusPtr
  /-- A process waits until the next of its children exits, and is ready then. -/
  woken : k.waits p → ∀ e k', Step k e k' →
    (k'.waits p ↔ k'.childExits p = k.childExits p) ∧
    (¬ k'.waits p → p ∈ k'.readyQueue ∨ k'.currentProc = p ∧ k'.mode = .kernel)
  /-- A process that goes on in `KernelWait` finds a zombie, and no assert fails. -/
  zombie : k.mode = .kernel → k.currentProc = p → k.inKernelWait p →
    k.uncollected p ≠ [] ∧ k.resume ≠ .error .assertion

section
variable {b : BootImage} {k k' : Kernel} {p : Pid}

theorem Kernel.currentPcb_zombies : k.currentPcb.zombieChildren = k.zombies k.currentProc := by
  rw [Kernel.currentPcb, Sched.zombies]
  cases k.pcb k.currentProc with
  | none => rfl
  | some a => rfl

theorem Kernel.currentPcb_children : k.currentPcb.liveChildren = k.children k.currentProc := by
  rw [Kernel.currentPcb, Sched.children]
  cases k.pcb k.currentProc with
  | none => rfl
  | some a => rfl

/-- A wait that collects takes the first zombie and stores its status. -/
theorem Kernel.collectZombie_eq_ok {statusPtr : Nat} (h : k.collectZombie statusPtr = .ok k') :
    ∃ c rest, k.zombies k.currentProc = c :: rest ∧
      k'.familyEvents = k.familyEvents ++ [.wait k.currentProc c (k.exitStatus c)] ∧
      k.machine.storeWord statusPtr (asUnsigned (k.exitStatus c)) = .ok k'.machine ∧
      k'.currentProc = k.currentProc ∧ k'.mode = .user ∧
      k'.userContext.regs 0 = asUnsigned SUCCESS := by
  unfold Kernel.collectZombie at h
  split at h
  case h_1 => cases h
  case h_2 c rest hz =>
    cases hc : k.pcb c with
    | none => simp [hc] at h
    | some childPcb =>
        simp only [hc] at h
        obtain ⟨m, hstore, hret⟩ := bind_eq_ok.mp h
        cases hret
        have hstatus : k.exitStatus c = childPcb.exitStatus := by simp [Sched.exitStatus, hc]
        refine ⟨c, rest, Kernel.currentPcb_zombies ▸ hz, ?_, hstatus ▸ hstore, rfl, rfl, rfl⟩
        rw [hstatus]
        simp [Sched.familyEvents, Kernel.ret, Kernel.withSched, Sched.observe, Sched.freePcb,
          Sched.updCurrent, Sched.updPcb, Obs.familyEvent]

/-- A wait that collects leaves the status in the memory of the process. -/
theorem Kernel.collectZombie_collects {statusPtr : Nat} (hapart : k.Apart)
    (hlive : k.live k.currentProc = true) (h : k.collectZombie statusPtr = .ok k') :
    k.CollectsChild k' k.currentProc statusPtr := by
  obtain ⟨c, rest, hz, hevents, hstore, hcur, hmode, hresult⟩ := Kernel.collectZombie_eq_ok h
  refine ⟨c, k.exitStatus c, ?_, ?_, hapart.storeBytes_holds hlive hstore, hcur, hmode, hresult⟩
  · rw [Sched.uncollected, hz, List.map_cons, List.head?_cons]
  · rw [Sched.collected, hevents, Lib.Family.Runs.collected_concat]
    simp [Lib.Family.collects, Sched.collected]

/-- `KernelWait` fails, collects a child at once, or blocks. -/
theorem Kernel.kernelWait_cases {statusPtr : Nat} (hapart : k.Apart)
    (hlive : k.live k.currentProc = true) (h : k.kernelWait statusPtr = .ok k') :
    k' = k.ret ERROR ∨ k.CollectsChild k' k.currentProc statusPtr ∨
      k.BlocksInWait k' k.currentProc := by
  unfold Kernel.kernelWait at h
  rcases ite_eq_ok h with ⟨-, h⟩ | ⟨-, h⟩
  · cases h
    exact .inl rfl
  rcases ite_eq_ok h with ⟨-, h⟩ | ⟨hnone, h⟩
  · exact .inr (.inl (Kernel.collectZombie_collects hapart hlive h))
  rcases ite_eq_ok h with ⟨-, h⟩ | ⟨-, h⟩
  · cases h
    exact .inl rfl
  have hsched := Kernel.switchToNextProc_sched h
  have hkin : SameKin (k.updCurrent fun p => { p with waitingOnChildren := true }) k'.toSched := by
    rw [hsched]
    exact (SameKin.refl _).switchToNextProc _
  refine .inr (.inr ⟨?_, ?_, ?_, ?_⟩)
  · rw [not_not, Kernel.currentPcb_zombies] at hnone
    rw [Sched.uncollected, hnone, List.map_nil]
  · obtain ⟨a, ha⟩ := Option.isSome_iff_exists.mp (Bool.and_eq_true _ _ ▸ hlive).1
    rw [hkin.waits, Sched.waits, updCurrent, updPcb_pcb, ha]
    simp
  · rw [hsched]
    exact switchToNextProc_mode
  · rw [Sched.collected, hkin.events, Sched.collected]
    rfl

/-- `KernelWait` with a valid pointer fails when there is no child, and then only. -/
theorem Kernel.kernelWait_error_iff {statusPtr : Nat}
    (hvalid : k.validateUserArg statusPtr 4 PROT_WRITE) :
    k.kernelWait statusPtr = .ok (k.ret ERROR) ↔
      k.zombies k.currentProc = [] ∧ k.children k.currentProc = [] := by
  unfold Kernel.kernelWait
  rw [if_neg (by simp [hvalid]), Kernel.currentPcb_zombies, Kernel.currentPcb_children]
  by_cases hz : k.zombies k.currentProc = []
  · rw [if_neg (not_not.mpr hz)]
    by_cases hc : k.children k.currentProc = []
    · simp [hz, hc]
    · rw [if_neg hc]
      refine ⟨fun hrun => ?_, fun hnil => absurd hnil.2 hc⟩
      -- A process that blocks has been switched away from.
      have hsched := Kernel.switchToNextProc_sched hrun
      have hmode : (k.ret ERROR).mode = .kernel := by
        rw [hsched]
        exact switchToNextProc_mode
      cases hmode
  · rw [if_pos hz]
    refine ⟨fun hrun => ?_, fun hnil => absurd hnil.1 hz⟩
    obtain ⟨-, -, -, -, -, -, -, hrc⟩ := Kernel.collectZombie_eq_ok hrun
    have hvalue : (k.ret ERROR).userContext.regs 0 = asUnsigned ERROR := rfl
    rw [hvalue] at hrc
    exact absurd hrc (by decide)

/-- A store that fails has no translation. -/
theorem Machine.storeByte_error {m : Machine} {va : Nat} {byte : Byte} {e : Stop}
    (h : m.storeByte va byte = .error e) : e = .fault := by
  cases htr : m.translate PROT_WRITE va with
  | ok x =>
      simp only [Machine.storeByte, htr, Lib.ok_bind] at h
      cases h
  | error e' =>
      simp only [Machine.storeByte, htr, Lib.error_bind, Except.error.injEq] at h
      subst h
      unfold Machine.translate at htr
      split at htr
      · dsimp only at htr
        split at htr
        · cases htr
        · exact (Except.error.inj htr).symm
      · exact (Except.error.inj htr).symm

theorem Machine.storeBytes_ne_assertion {m : Machine} {va : Nat} {bytes : List Byte} :
    m.storeBytes va bytes ≠ .error .assertion := by
  induction bytes generalizing m va with
  | nil => exact fun h => by cases h
  | cons b bytes ih =>
      unfold Machine.storeBytes
      cases hstore : m.storeByte va b with
      | ok m₁ => exact ih
      | error e =>
          rw [Machine.storeByte_error hstore]
          exact fun h => by cases h

/-- No assert fails in a process that goes on in `KernelWait` and has a zombie. -/
theorem Kernel.resume_ne_assertion (hwait : k.inKernelWait k.currentProc)
    (hz : ∃ c rest pcb, k.zombies k.currentProc = c :: rest ∧ k.pcb c = some pcb) :
    k.resume ≠ .error .assertion := by
  obtain ⟨a, statusPtr, ha, hctx⟩ := hwait
  obtain ⟨c, rest, childPcb, hz, hc⟩ := hz
  have hcontext : k.restoreUserContext.currentPcb.kernelContext = .kernelWait statusPtr := by
    show ((k.pcb k.currentProc).getD {}).kernelContext = _
    rw [ha]
    exact hctx
  have hzombies : k.restoreUserContext.currentPcb.zombieChildren = c :: rest :=
    (Kernel.currentPcb_zombies (k := k.restoreUserContext)).trans hz
  unfold Kernel.resume
  simp only [hcontext, Kernel.collectZombie, hzombies]
  rw [show k.restoreUserContext.pcb c = some childPcb from hc]
  dsimp only
  cases hstore : k.restoreUserContext.machine.storeWord statusPtr (asUnsigned childPcb.exitStatus) with
  | ok m => exact fun h => by cases h
  | error e =>
      intro h
      cases h
      exact Machine.storeBytes_ne_assertion hstore

/-- In every run, the exit status of every child is delivered once. -/
theorem exit_status_delivered_once (h : Reachable b k) (p : Pid) : k.DeliversOnce p := by
  obtain ⟨⟨-, hrun⟩, hfam⟩ := reachable_familyInv h
  have hapart := reachable_apart h
  have hlive := hrun.current.resolve_left id
  have hnil : ∀ q, k.uncollected q = [] ↔ k.zombies q = [] := fun q => List.map_eq_nil_iff
  have hchildren : ∀ q, k.children q = [] ↔ ∀ c, k.live c → k.parent c ≠ some q := by
    intro q
    rw [List.eq_nil_iff_forall_not_mem]
    simp only [hfam.children, not_and, ne_eq]
  -- What was collected, and what waits to be collected, is all that ever exited.
  have hkept : ∀ q, k.live q → k.childExits q = k.collected q ++ k.uncollected q :=
    fun q hq => hfam.run.delivered hq
  exact {
    children := fun c => hfam.children p c
    parent := fun c hc hexited => by
      have halive : k.live p := (hfam.run.parent_alive hc).1
      simp [Sched.live, hexited] at halive
    waiting := fun hp => by
      obtain ⟨hz, hc⟩ := hfam.waiting p hp
      have hocc : k.occ .wait p ≠ 0 := by simpa [Sched.occ, Sched.waits] using hp
      have hcur : p ≠ k.currentProc := by
        rintro rfl
        rw [hrun.waits_current] at hp
        cases hp
      obtain ⟨a, ha, statusPtr, hctx⟩ := hrun.suspended .wait p (by simp) hocc hcur
      refine ⟨⟨hcur, fun hready => ?_, a, statusPtr, ha, hctx⟩, hz, ?_⟩
      · exact Sched.occ_ready_ne_zero.mpr hready ((hrun.placed.unique hocc).2 .ready (by simp))
      · obtain ⟨c, hmem⟩ := List.exists_mem_of_ne_nil _ hc
        exact ⟨c, (hfam.children p c).mp hmem⟩
    order := ⟨hfam.run.collected_prefix p, hfam.run.left_once p⟩
    kept := hkept p
    fails := fun hcur statusPtr hvalid => by
      subst hcur
      rw [Kernel.kernelWait_error_iff hvalid, hkept _ hlive, and_comm, hchildren, ← hnil]
      simp
    stores := fun hcur uc env k' hcall hstep => by
      subst hcur
      obtain ⟨-, run⟩ := hstep.of_call hcall
      unfold Kernel.trapKernel at run
      simp only [hcall.2] at run
      exact Kernel.kernelWait_cases (k := { k with userContext := uc })
        ⟨hapart.isolated, hapart.ptbr1⟩ hlive run
    resumes := fun hcur statusPtr k' hentry hstep => by
      subst hcur
      obtain ⟨hcontext, run⟩ := hstep.of_resume hentry
      simp only [Kernel.resume, hcontext] at run
      exact Kernel.collectZombie_collects (k := k.restoreUserContext)
        ⟨hapart.isolated, hapart.ptbr1⟩ hlive run
    woken := fun hp e k' hstep => SchedStep.waits_iff hfam hrun hstep.sched hp
    zombie := fun mode hcur hwait => by
      subst hcur
      have hz := (hfam.woken _ hwait hlive (.inr mode)).resolve_left
        (by rw [hrun.waits_current]; decide)
      refine ⟨(hnil _).not.mpr hz, Kernel.resume_ne_assertion hwait ?_⟩
      obtain ⟨c, rest, hlist⟩ := List.exists_cons_of_ne_nil hz
      have hparent := ((hfam.zombies _ c).mp (hlist ▸ List.mem_cons_self)).2
      obtain ⟨pcb, hpcb, -⟩ := Option.bind_eq_some_iff.mp hparent
      exact ⟨c, rest, pcb, hlist, hpcb⟩ }

end

/-- Init forks twice and waits for a child. The children exit with status 7 and 8, the second
one first. Init goes on with the status of the second, and the next wait finds the first. -/
def waitRuns : List Event := initRuns ++
  [systemCall YALNIX_FORK 0 0 0, .resume, clockTick, .resume, systemCall YALNIX_FORK 0 0 0, .resume,
    clockTick, .resume, clockTick, .resume, systemCall YALNIX_WAIT stackBuffer 0 0, .resume,
    systemCall YALNIX_EXIT 7 0 0, .resume, systemCall YALNIX_EXIT 8 0 0, .resume,
    systemCall YALNIX_WAIT (stackBuffer + 4) 0 0]

/-- Init has collected the statuses of its children, one after a wait that blocked and one at
once, and finds both in its memory. -/
theorem exit_status_delivered_once_init : ∃ k, Kernel.run smallImage waitRuns = some k ∧
    k.collected INIT_PID = [(3, 7), (2, 8)] ∧ k.machine.Holds INIT_PID stackBuffer (wordBytes 7) ∧
    k.machine.Holds INIT_PID (stackBuffer + 4) (wordBytes 8) ∧ k.DeliversOnce INIT_PID := by
  have hsome : ((Kernel.run smallImage waitRuns).map fun k =>
      (k.collected INIT_PID, decide (k.machine.Holds INIT_PID stackBuffer (wordBytes 7)),
        decide (k.machine.Holds INIT_PID (stackBuffer + 4) (wordBytes 8))))
      = some ([(3, 7), (2, 8)], true, true) := by decide +kernel
  obtain ⟨k, hrun, heq⟩ := Option.map_eq_some_iff.mp hsome
  simp only [Prod.mk.injEq] at heq
  obtain ⟨hcollected, hfirst, hsecond⟩ := heq
  exact ⟨k, hrun, hcollected, of_decide_eq_true hfirst, of_decide_eq_true hsecond,
    exit_status_delivered_once (.of_run hrun) INIT_PID⟩

end Theynix
