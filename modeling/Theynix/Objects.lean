import Theynix.SchedStep

/-!
# `Theynix.Objects`: the tables of locks, cvars and pipes

`Sched.Objects` is the invariant of the three tables: an id below the counter names at most
one object, an entry of a table has its object, and no table has an entry twice. Only
`KernelLockInit`, `KernelCvarInit`, `KernelPipeInit` and `KernelReclaim` change the tables.
Every other step changes what is inside the objects (`SameObjects`).
-/

set_option autoImplicit false

namespace Theynix

open Theynix.Lib (bind_eq_ok ite_eq_ok)

namespace Sched

/-- The invariant of the tables. -/
structure Objects (s : Sched) : Prop where
  lockFresh : ∀ i, s.nextSynchResourceId ≤ i → s.lock i = none
  cvarFresh : ∀ i, s.nextSynchResourceId ≤ i → s.cvar i = none
  pipeFresh : ∀ i, s.nextSynchResourceId ≤ i → s.pipe i = none
  lockCvar : ∀ i, (s.lock i).isSome → s.cvar i = none
  lockPipe : ∀ i, (s.lock i).isSome → s.pipe i = none
  cvarPipe : ∀ i, (s.cvar i).isSome → s.pipe i = none
  lockTable : ∀ i ∈ s.locks, (s.lock i).isSome
  cvarTable : ∀ i ∈ s.cvars, (s.cvar i).isSome
  pipeTable : ∀ i ∈ s.pipes, (s.pipe i).isSome
  locksNodup : s.locks.Nodup
  cvarsNodup : s.cvars.Nodup
  pipesNodup : s.pipes.Nodup

/-- The tables are the same, and the same objects exist. -/
structure SameObjects (s s' : Sched) : Prop where
  nextId : s'.nextSynchResourceId = s.nextSynchResourceId
  locks : s'.locks = s.locks
  cvars : s'.cvars = s.cvars
  pipes : s'.pipes = s.pipes
  lock : ∀ i, (s'.lock i).isSome = (s.lock i).isSome
  cvar : ∀ i, (s'.cvar i).isSome = (s.cvar i).isSome
  pipe : ∀ i, (s'.pipe i).isSome = (s.pipe i).isSome

theorem Objects.same {s s' : Sched} (h : s.Objects) (hs : SameObjects s s') : s'.Objects where
  lockFresh i hi := by
    have hnone := h.lockFresh i (hs.nextId ▸ hi)
    simpa [hnone] using hs.lock i
  cvarFresh i hi := by
    have hnone := h.cvarFresh i (hs.nextId ▸ hi)
    simpa [hnone] using hs.cvar i
  pipeFresh i hi := by
    have hnone := h.pipeFresh i (hs.nextId ▸ hi)
    simpa [hnone] using hs.pipe i
  lockCvar i hi := by
    have hnone := h.lockCvar i (hs.lock i ▸ hi)
    simpa [hnone] using hs.cvar i
  lockPipe i hi := by
    have hnone := h.lockPipe i (hs.lock i ▸ hi)
    simpa [hnone] using hs.pipe i
  cvarPipe i hi := by
    have hnone := h.cvarPipe i (hs.cvar i ▸ hi)
    simpa [hnone] using hs.pipe i
  lockTable i hi := hs.lock i ▸ h.lockTable i (hs.locks ▸ hi)
  cvarTable i hi := hs.cvar i ▸ h.cvarTable i (hs.cvars ▸ hi)
  pipeTable i hi := hs.pipe i ▸ h.pipeTable i (hs.pipes ▸ hi)
  locksNodup := hs.locks ▸ h.locksNodup
  cvarsNodup := hs.cvars ▸ h.cvarsNodup
  pipesNodup := hs.pipes ▸ h.pipesNodup

/-- The part of the state that holds the tables and the objects. -/
def tables (s : Sched) :
    Nat × (List Nat × List Nat × List Nat) × (Nat → Option Lock) × (Nat → Option CVar) ×
      (Nat → Option Pipe) :=
  (s.nextSynchResourceId, (s.locks, s.cvars, s.pipes), s.lock, s.cvar, s.pipe)

namespace SameObjects

variable {s s₁ s₂ : Sched}

theorem refl (s : Sched) : SameObjects s s :=
  ⟨rfl, rfl, rfl, rfl, fun _ => rfl, fun _ => rfl, fun _ => rfl⟩

theorem trans (h : SameObjects s s₁) (h' : SameObjects s₁ s₂) : SameObjects s s₂ where
  nextId := h'.nextId.trans h.nextId
  locks := h'.locks.trans h.locks
  cvars := h'.cvars.trans h.cvars
  pipes := h'.pipes.trans h.pipes
  lock i := (h'.lock i).trans (h.lock i)
  cvar i := (h'.cvar i).trans (h.cvar i)
  pipe i := (h'.pipe i).trans (h.pipe i)

/-- A change outside the tables and the objects. -/
theorem keep (h : SameObjects s s₁) (heq : s₂.tables = s₁.tables) : SameObjects s s₂ := by
  simp only [tables, Prod.mk.injEq] at heq
  obtain ⟨hnext, ⟨hlocks, hcvars, hpipes⟩, hlock, hcvar, hpipe⟩ := heq
  exact h.trans ⟨hnext, hlocks, hcvars, hpipes, fun i => by rw [hlock], fun i => by rw [hcvar],
    fun i => by rw [hpipe]⟩

theorem updPcb (h : SameObjects s s₁) (p : Pid) (f : PCB → PCB) :
    SameObjects s (s₁.updPcb p f) :=
  h.keep rfl

theorem updCurrent (h : SameObjects s s₁) (f : PCB → PCB) : SameObjects s (s₁.updCurrent f) :=
  h.updPcb _ f

theorem observe (h : SameObjects s s₁) (o : Obs) : SameObjects s (s₁.observe o) :=
  h.keep rfl

theorem ready (h : SameObjects s s₁) (p : Pid) : SameObjects s (s₁.ready p) := h.keep rfl

theorem toUser (h : SameObjects s s₁) : SameObjects s s₁.toUser := h.keep rfl

theorem updTty (h : SameObjects s s₁) (t : Nat) (f : Tty → Tty) :
    SameObjects s (s₁.updTty t f) :=
  h.keep rfl

theorem freePcb (h : SameObjects s s₁) (p : Pid) : SameObjects s (s₁.freePcb p) :=
  h.keep rfl

theorem updLock (h : SameObjects s s₁) (i : Nat) (f : Lock → Lock) :
    SameObjects s (s₁.updLock i f) := by
  refine h.trans ⟨rfl, rfl, rfl, rfl, fun j => ?_, fun _ => rfl, fun _ => rfl⟩
  by_cases hj : j = i
  · simp [Sched.updLock, hj]
  · simp [Sched.updLock, hj]

theorem updCvar (h : SameObjects s s₁) (i : Nat) (f : CVar → CVar) :
    SameObjects s (s₁.updCvar i f) := by
  refine h.trans ⟨rfl, rfl, rfl, rfl, fun _ => rfl, fun j => ?_, fun _ => rfl⟩
  by_cases hj : j = i
  · simp [Sched.updCvar, hj]
  · simp [Sched.updCvar, hj]

theorem updPipe (h : SameObjects s s₁) (i : Nat) (f : Pipe → Pipe) :
    SameObjects s (s₁.updPipe i f) := by
  refine h.trans ⟨rfl, rfl, rfl, rfl, fun _ => rfl, fun _ => rfl, fun j => ?_⟩
  by_cases hj : j = i
  · simp [Sched.updPipe, hj]
  · simp [Sched.updPipe, hj]

theorem switchToProc (h : SameObjects s s₁) (next : Pid) (c : KernelContext) :
    SameObjects s (s₁.switchToProc next c) := by
  unfold Sched.switchToProc
  dsimp only
  split <;> exact h.keep rfl

theorem switchToNextProc (h : SameObjects s s₁) (c : KernelContext) :
    SameObjects s (s₁.switchToNextProc c) := by
  unfold Sched.switchToNextProc
  split
  · refine SameObjects.switchToProc ?_ _ c
    exact h.keep rfl
  · exact h.switchToProc _ c

end SameObjects

/-! ## The functions that keep the tables -/

section
variable {s s' : Sched}

theorem kernelRelease_sameObjects {lockId : Nat} {rc : Int}
    (h : s.kernelRelease lockId = .ok (rc, s')) : SameObjects s s' := by
  cases kernelRelease_cases h with
  | error => exact .refl s
  | available => exact (((SameObjects.refl s).updCurrent _).updLock _ _).observe _
  | handOver =>
      exact (((((SameObjects.refl s).updCurrent _).updLock _ _).updPcb _ _).ready _).observe _

theorem becomeZombie_sameObjects (parent : Pid) : SameObjects s (s.becomeZombie parent) := by
  unfold becomeZombie
  dsimp only
  split
  · exact ((SameObjects.refl s).updPcb _ _).ready _
  · exact (SameObjects.refl s).updPcb _ _

theorem leaveFamily_sameObjects (status : Int) : SameObjects s (s.leaveFamily status) := by
  unfold leaveFamily
  split
  · exact .refl s
  · dsimp only
    split
    · exact (SameObjects.refl s).keep rfl
    · refine SameObjects.trans ?_ (becomeZombie_sameObjects _)
      exact (SameObjects.refl s).keep rfl

theorem kernelExit_sameObjects {status : Int} (h : s.kernelExit status = .ok s') :
    SameObjects s s' := by
  unfold kernelExit at h
  rcases ite_eq_ok h with ⟨-, h⟩ | ⟨-, h⟩
  · cases h
  · obtain ⟨s₁, hrelease, hret⟩ := bind_eq_ok.mp h
    cases hret
    have h₁ : SameObjects s s₁ := releaseOwnedLocks_rule (P := SameObjects s)
      (fun _ _ _ _ hs hr => hs.trans (kernelRelease_sameObjects hr)) (.refl s) hrelease
    exact h₁.trans (leaveFamily_sameObjects status)

theorem decrementTicksRemaining_sameObjects (proc : Pid) :
    SameObjects s (s.decrementTicksRemaining proc).2 := by
  unfold decrementTicksRemaining
  dsimp only
  split <;> exact (SameObjects.refl s).keep rfl

theorem trapClock_sameObjects {afterFree : List FreedNext} (h : s.trapClock afterFree = .ok s') :
    SameObjects s s' := by
  obtain ⟨s₁, hmap, hrest⟩ := bind_eq_ok.mp h
  obtain ⟨_, h₁⟩ := mapTicks_rule (P := fun _ => SameObjects s)
    (fun _ proc _ hs => hs.trans (decrementTicksRemaining_sameObjects proc))
    ((SameObjects.refl s).observe _) hmap
  rcases ite_eq_ok hrest with ⟨-, hret⟩ | ⟨-, hret⟩ <;> cases hret
  · exact h₁.ready _
  · exact h₁

theorem serveReader_sameObjects {ttyId : Nat} {proc : Pid} {rest : List Pid} {pcb : PCB}
    {buffer input : List Byte} :
    SameObjects s (s.serveReader ttyId proc rest pcb buffer input) :=
  ((((SameObjects.refl s).updTty _ _).ready _).updPcb _ _).observe _

theorem trapTtyRecieve_sameObjects {ttyId : Nat} {input : List Byte}
    (h : s.trapTtyRecieve ttyId input = .ok s') : SameObjects s s' := by
  unfold trapTtyRecieve at h
  rcases ite_eq_ok h with ⟨-, h⟩ | ⟨-, h⟩
  · cases h
  have h₀ := (SameObjects.refl s).observe (.ttyReceived ttyId (input.take TERMINAL_MAX_LINE))
  rcases ite_eq_ok h with ⟨-, h⟩ | ⟨-, h⟩
  · cases h
    exact h₀.updTty _ _
  · obtain ⟨⟨left, s₁⟩, hserve, hrest⟩ := bind_eq_ok.mp h
    obtain ⟨_, h₁, -⟩ := serveReaders_rule (P := fun _ _ => SameObjects s)
      (fun _ _ _ _ _ _ hs _ _ _ => hs.trans serveReader_sameObjects) h₀ hserve
    rcases ite_eq_ok hrest with ⟨-, hret⟩ | ⟨-, hret⟩ <;> cases hret
    · exact h₁
    · exact h₁.updTty _ _

theorem transmitNext_sameObjects (ttyId : Nat) (proc : Pid) :
    SameObjects s (s.transmitNext ttyId proc) := by
  unfold transmitNext
  split
  · exact .refl s
  · exact (SameObjects.refl s).observe _

theorem trapTtyTransmit_sameObjects {ttyId : Nat} (h : s.trapTtyTransmit ttyId = .ok s') :
    SameObjects s s' := by
  have h₀ := (SameObjects.refl s).observe (.ttyTransmitted ttyId)
  have hfinish := fun proc rest => (((h₀.updTty ttyId fun t =>
    { t with waitingToTransmit := rest }).ready proc).observe (.ttyFinished ttyId proc))
  cases trapTtyTransmit_cases h with
  | advance => exact (h₀.updPcb _ _).trans (transmitNext_sameObjects _ _)
  | last => exact hfinish _ _
  | finish => exact (hfinish _ _).trans (transmitNext_sameObjects _ _)

theorem afterPipeWrite_sameObjects (pipeId : Nat) (p : Pipe) (bytes : List Byte) :
    SameObjects s (s.afterPipeWrite pipeId p bytes) := by
  have h₁ := fun f => ((SameObjects.refl s).updPipe pipeId f).observe (.pipeWritten pipeId bytes)
  unfold afterPipeWrite
  dsimp only
  split
  · exact (h₁ _).ready _
  · exact h₁ _

theorem kernelCvarSignal_sameObjects (cvarId : Nat) :
    SameObjects s (s.kernelCvarSignal cvarId).2 := by
  unfold kernelCvarSignal
  split
  · exact .refl s
  · split
    · exact .refl s
    · exact ((SameObjects.refl s).updCvar _ _).ready _

theorem kernelCvarBroadcast_sameObjects (cvarId : Nat) :
    SameObjects s (s.kernelCvarBroadcast cvarId).2 := by
  unfold kernelCvarBroadcast
  split
  · exact .refl s
  · exact ((SameObjects.refl s).updCvar _ _).keep rfl

theorem enqueueToTransmit_sameObjects (ttyId : Nat) (bytes : List Byte) :
    SameObjects s (s.enqueueToTransmit ttyId bytes) := by
  unfold enqueueToTransmit
  dsimp only
  split <;> exact (SameObjects.refl s).keep rfl

end

/-! ## The functions that change the tables -/

section
variable {s : Sched}

theorem Objects.lockNewLock (h : s.Objects) : s.lockNewLock.Objects := by
  have hc := h.cvarFresh _ (Nat.le_refl _)
  have hp := h.pipeFresh _ (Nat.le_refl _)
  have hne : ∀ i, s.nextSynchResourceId + 1 ≤ i → i ≠ s.nextSynchResourceId := by omega
  refine { h with
    lockFresh := fun i hi => ?_
    cvarFresh := fun i hi => h.cvarFresh i (Nat.le_of_succ_le hi)
    pipeFresh := fun i hi => h.pipeFresh i (Nat.le_of_succ_le hi)
    lockCvar := fun i hi => ?_
    lockPipe := fun i hi => ?_
    lockTable := fun i hi => ?_
    locksNodup := ?_ }
  · simpa [Sched.lockNewLock, hne i hi] using h.lockFresh i (Nat.le_of_succ_le hi)
  · by_cases hid : i = s.nextSynchResourceId
    · simpa [Sched.lockNewLock, hid] using hc
    · exact h.lockCvar i (by simpa [Sched.lockNewLock, hid] using hi)
  · by_cases hid : i = s.nextSynchResourceId
    · simpa [Sched.lockNewLock, hid] using hp
    · exact h.lockPipe i (by simpa [Sched.lockNewLock, hid] using hi)
  · by_cases hid : i = s.nextSynchResourceId
    · simp [Sched.lockNewLock, hid]
    · simpa [Sched.lockNewLock, hid] using h.lockTable i (by simpa [Sched.lockNewLock, hid] using hi)
  · refine List.nodup_append.mpr ⟨h.locksNodup, by simp, fun a ha b hb hab => ?_⟩
    have hsome := h.lockTable a ha
    rw [hab, List.mem_singleton.mp hb, h.lockFresh _ (Nat.le_refl _)] at hsome
    cases hsome

theorem Objects.cVarNewCVar (h : s.Objects) : s.cVarNewCVar.Objects := by
  have hl := h.lockFresh _ (Nat.le_refl _)
  have hp := h.pipeFresh _ (Nat.le_refl _)
  have hne : ∀ i, s.nextSynchResourceId + 1 ≤ i → i ≠ s.nextSynchResourceId := by omega
  refine { h with
    lockFresh := fun i hi => h.lockFresh i (Nat.le_of_succ_le hi)
    cvarFresh := fun i hi => ?_
    pipeFresh := fun i hi => h.pipeFresh i (Nat.le_of_succ_le hi)
    lockCvar := fun i hi => ?_
    cvarPipe := fun i hi => ?_
    cvarTable := fun i hi => ?_
    cvarsNodup := ?_ }
  · simpa [Sched.cVarNewCVar, hne i hi] using h.cvarFresh i (Nat.le_of_succ_le hi)
  · by_cases hid : i = s.nextSynchResourceId
    · exact absurd hi (by simp [Sched.cVarNewCVar, hid, hl])
    · simpa [Sched.cVarNewCVar, hid] using h.lockCvar i hi
  · by_cases hid : i = s.nextSynchResourceId
    · simpa [Sched.cVarNewCVar, hid] using hp
    · exact h.cvarPipe i (by simpa [Sched.cVarNewCVar, hid] using hi)
  · by_cases hid : i = s.nextSynchResourceId
    · simp [Sched.cVarNewCVar, hid]
    · simpa [Sched.cVarNewCVar, hid] using h.cvarTable i (by simpa [Sched.cVarNewCVar, hid] using hi)
  · refine List.nodup_append.mpr ⟨h.cvarsNodup, by simp, fun a ha b hb hab => ?_⟩
    have hsome := h.cvarTable a ha
    rw [hab, List.mem_singleton.mp hb, h.cvarFresh _ (Nat.le_refl _)] at hsome
    cases hsome

theorem Objects.pipeNewPipe (h : s.Objects) : s.pipeNewPipe.Objects := by
  have hl := h.lockFresh _ (Nat.le_refl _)
  have hc := h.cvarFresh _ (Nat.le_refl _)
  have hne : ∀ i, s.nextSynchResourceId + 1 ≤ i → i ≠ s.nextSynchResourceId := by omega
  refine { h with
    lockFresh := fun i hi => h.lockFresh i (Nat.le_of_succ_le hi)
    cvarFresh := fun i hi => h.cvarFresh i (Nat.le_of_succ_le hi)
    pipeFresh := fun i hi => ?_
    lockPipe := fun i hi => ?_
    cvarPipe := fun i hi => ?_
    pipeTable := fun i hi => ?_
    pipesNodup := ?_ }
  · simpa [Sched.pipeNewPipe, hne i hi] using h.pipeFresh i (Nat.le_of_succ_le hi)
  · by_cases hid : i = s.nextSynchResourceId
    · exact absurd hi (by simp [Sched.pipeNewPipe, hid, hl])
    · simpa [Sched.pipeNewPipe, hid] using h.lockPipe i hi
  · by_cases hid : i = s.nextSynchResourceId
    · exact absurd hi (by simp [Sched.pipeNewPipe, hid, hc])
    · simpa [Sched.pipeNewPipe, hid] using h.cvarPipe i hi
  · by_cases hid : i = s.nextSynchResourceId
    · simp [Sched.pipeNewPipe, hid]
    · simpa [Sched.pipeNewPipe, hid] using h.pipeTable i (by simpa [Sched.pipeNewPipe, hid] using hi)
  · refine List.nodup_append.mpr ⟨h.pipesNodup, by simp, fun a ha b hb hab => ?_⟩
    have hsome := h.pipeTable a ha
    rw [hab, List.mem_singleton.mp hb, h.pipeFresh _ (Nat.le_refl _)] at hsome
    cases hsome

/-- `KernelReclaim` takes at most one id out of a table, and touches nothing else. -/
theorem kernelReclaim_cases (s : Sched) (id : Nat) :
    (s.kernelReclaim id).2 = s ∨ (s.kernelReclaim id).2 = { s with locks := s.locks.erase id } ∨
      (s.kernelReclaim id).2 = { s with cvars := s.cvars.erase id } ∨
      (s.kernelReclaim id).2 = { s with pipes := s.pipes.erase id } := by
  unfold kernelReclaim
  cases s.findLock id with
  | some l =>
      refine .inr (.inl ?_)
      dsimp only
      split
      · rfl
      · split <;> rfl
  | none =>
      cases s.findCvar id with
      | some c =>
          refine .inr (.inr (.inl ?_))
          dsimp only
          split <;> rfl
      | none =>
          cases s.findPipe id with
          | some p =>
              refine .inr (.inr (.inr ?_))
              dsimp only
              split <;> rfl
          | none => exact .inl rfl

theorem Objects.kernelReclaim (h : s.Objects) (id : Nat) : (s.kernelReclaim id).2.Objects := by
  rcases kernelReclaim_cases s id with he | he | he | he <;> rw [he]
  · exact h
  · exact { h with
      lockTable := fun i hi => h.lockTable i (List.mem_of_mem_erase hi)
      locksNodup := h.locksNodup.erase id }
  · exact { h with
      cvarTable := fun i hi => h.cvarTable i (List.mem_of_mem_erase hi)
      cvarsNodup := h.cvarsNodup.erase id }
  · exact { h with
      pipeTable := fun i hi => h.pipeTable i (List.mem_of_mem_erase hi)
      pipesNodup := h.pipesNodup.erase id }

end

end Sched

open Sched

/-- Every step keeps the tables in order. -/
theorem SchedStep.objects {c : Cause} {s s' : Sched} (h : s.Objects) (hstep : SchedStep s c s') :
    s'.Objects := by
  have hs := SameObjects.refl s
  cases hstep with
  | quiet => exact h
  | finish _ _ => exact h.same hs.toUser
  | forkFailed _ => exact h.same (hs.keep rfl)
  | fork _ =>
      refine h.same (SameObjects.switchToProc ?_ _ _)
      exact hs.keep rfl
  | exit _ run => exact h.same ((kernelExit_sameObjects run).switchToNextProc _)
  | collect _ _ _ _ => exact h.same (((hs.updCurrent _).freePcb _).observe _).toUser
  | wait _ _ _ _ => exact h.same ((hs.updCurrent _).switchToNextProc _)
  | delay _ _ =>
      refine h.same (SameObjects.switchToNextProc ?_ _)
      exact hs.keep rfl
  | clock _ _ run => exact h.same ((trapClock_sameObjects run).switchToNextProc _)
  | consumeLine _ _ _ _ => exact h.same ((hs.updTty _ _).observe _).toUser
  | ttyReadBlock _ _ _ => exact h.same (((hs.updTty _ _).updCurrent _).switchToNextProc _)
  | ttyReceive _ _ run => exact h.same (trapTtyRecieve_sameObjects run)
  | ttyWrite _ _ => exact h.same ((enqueueToTransmit_sameObjects _ _).switchToNextProc _)
  | ttyTransmit _ _ run => exact h.same (trapTtyTransmit_sameObjects run)
  | pipeInit _ => exact h.pipeNewPipe.same (SameObjects.refl _).toUser
  | lockInit _ => exact h.lockNewLock.same (SameObjects.refl _).toUser
  | cvarInit _ => exact h.cVarNewCVar.same (SameObjects.refl _).toUser
  | pipeReadBlock _ _ _ => exact h.same ((hs.updPipe _ _).switchToNextProc _)
  | pipeRead _ _ _ => exact h.same ((hs.updPipe _ _).observe _).toUser
  | pipeWrite _ _ _ _ => exact h.same (afterPipeWrite_sameObjects _ _ _).toUser
  | acquireOwned _ _ _ _ => exact h.same (hs.observe _).toUser
  | acquireFree _ _ _ =>
      exact h.same ((((hs.updLock _ _).updCurrent _).observe _).observe _).toUser
  | acquireBlock _ _ _ _ => exact h.same (((hs.updLock _ _).observe _).switchToNextProc _)
  | acquireMissing _ _ => exact h.same hs.toUser
  | acquireReturn _ _ _ _ => exact h.same (hs.observe _).toUser
  | release _ run => exact h.same (kernelRelease_sameObjects run).toUser
  | cvarSignal _ => exact h.same (kernelCvarSignal_sameObjects _).toUser
  | cvarBroadcast _ => exact h.same (kernelCvarBroadcast_sameObjects _).toUser
  | cvarWait _ _ run _ =>
      exact h.same (((kernelRelease_sameObjects run).updCvar _ _).switchToNextProc _)
  | reclaim _ => exact (h.kernelReclaim _).same (SameObjects.refl _).toUser

theorem kernelStart_sched {b : BootImage} {k : Kernel} (h : Kernel.kernelStart b = .ok k) :
    k.toSched = Kernel.bootSched := by
  obtain ⟨idle, -, hrest⟩ := bind_eq_ok.mp h
  rcases ite_eq_ok hrest with ⟨-, hrest⟩ | ⟨-, hrest⟩
  · cases hrest
  · dsimp only at hrest
    rcases ite_eq_ok hrest with ⟨-, hrest⟩ | ⟨-, hrest⟩
    · cases hrest
    · obtain ⟨init, -, hrest⟩ := bind_eq_ok.mp hrest
      rcases ite_eq_ok hrest with ⟨-, hrest⟩ | ⟨-, hrest⟩
      · cases hrest
      · cases hrest
        rfl

/-- An invariant of the scheduler that holds at the start and is kept by every step holds
in every state of every run. -/
theorem Reachable.schedInvariant {I : Sched → Prop} (start : I Kernel.bootSched)
    (step : ∀ s c s', I s → SchedStep s c s' → I s') {b : BootImage} {k : Kernel}
    (h : Reachable b k) : I k.toSched :=
  ReachableWhen.invariant (I := fun k => I k.toSched)
    (fun _ hstart => kernelStart_sched hstart ▸ start)
    (fun _ _ _ hinv _ _ hstep => step _ _ _ hinv hstep.sched) h

theorem bootSched_objects : Kernel.bootSched.Objects := by
  constructor <;> simp [Kernel.bootSched]

theorem reachable_objects {b : BootImage} {k : Kernel} (h : Reachable b k) :
    k.toSched.Objects :=
  h.schedInvariant bootSched_objects fun _ _ _ hobj hstep => hstep.objects hobj

end Theynix
