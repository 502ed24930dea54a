import Theynix.Lib.Leftover
import Theynix.Pipes

/-!
# `Theynix.Wakeup`: readers that wait although there is enough to read

A write wakes one reader that it can satisfy, and a read wakes nobody. A reader that has
been woken looks at the pipe again when it runs. `Sched.onTheWay` lists what the readers
have asked for that have been woken and have not run yet. No wakeup is lost if, when they
have all run, every reader that still waits has asked for more than there is.

Which readers are satisfied depends on who else reads in between. `Lib.worst` bounds what
the readers on the way can leave in the pipe, and `Sched.LeavesNoneBehind` asks of a write
that this is less than what any reader it leaves waiting has asked for.

* `no_lost_wakeup`: in runs whose writes leave none behind, no wakeup is lost.
* `lost_wakeup`: a write of ten bytes wakes one of two readers that want three each, and
  the other waits with seven bytes in the pipe.
-/

set_option autoImplicit false

namespace Theynix

open Theynix.Lib (Adds worst worst_le worst_mono worst_served worst_blocked bind_eq_ok
  ite_eq_ok)

/-- What the process will ask of a pipe when it goes on in the kernel. -/
def KernelContext.pipeRequest (pipeId : Nat) : KernelContext → Option Nat
  | .kernelPipeRead i _ len => if i = pipeId then some len else none
  | _ => none

/-- What the process has asked of a pipe, if it is suspended in `KernelPipeRead`. -/
def PCB.pipeRequest (pipeId : Nat) (a : PCB) : Option Nat :=
  if a.kernelContextInitialized then a.kernelContext.pipeRequest pipeId else none

namespace Sched

/-- What a process has asked of a pipe. -/
def pipeRequest (s : Sched) (pipeId : Nat) (p : Pid) : Option Nat :=
  (s.pcb p).bind (PCB.pipeRequest pipeId)

/-- What the readers of a pipe have asked for that will look at it again: the process that
was just switched to, and those in the ready queue. -/
def onTheWay (s : Sched) (pipeId : Nat) : List Nat :=
  ((if s.mode = .kernel then [s.currentProc] else []) ++ s.readyQueue).filterMap
    (s.pipeRequest pipeId)

/-- If nobody is on the way to a pipe, then who waits for it has asked for more than there
is. -/
def NoLostWakeup (s : Sched) : Prop :=
  ∀ pipeId p, s.pipe pipeId = some p → s.onTheWay pipeId = [] →
    ∀ n q, (n, q) ∈ p.waitingToRead → p.numCharsAvailable < n

/-- A write leaves no reader waiting that the readers on the way could leave enough for. -/
def LeavesNoneBehind (s : Sched) : Cause → Prop
  | .writesPipe pipeId len => ∀ p ∈ s.pipe pipeId,
      let available := p.numCharsAvailable + len
      let (woken, left) := listFindFirstLessThanIdAndRemove p.waitingToRead available
      ∀ x ∈ left, worst (s.onTheWay pipeId ++ (woken.bind (s.pipeRequest pipeId)).toList)
        available.toNat < x.1
  | _ => True

instance (s : Sched) : (c : Cause) → Decidable (s.LeavesNoneBehind c)
  | .writesPipe pipeId len => by
      unfold LeavesNoneBehind
      infer_instance
  | .readsLine _ _ => instDecidableTrue
  | .clock _ => instDecidableTrue
  | .transmitted _ => instDecidableTrue
  | .received _ _ => instDecidableTrue
  | .other => instDecidableTrue

/-- What the readers in the ready queue have asked for, but for the running process. -/
def requests (s : Sched) (pipeId : Nat) : List Nat :=
  (s.readyQueue.filter fun p => p ≠ s.currentProc).filterMap (s.pipeRequest pipeId)

/-- Whatever the readers on the way leave in a pipe is less than what any waiting reader has
asked for. -/
def WakeInv (s : Sched) : Prop :=
  ∀ pipeId p, s.pipe pipeId = some p → ∀ x ∈ p.waitingToRead,
    worst (s.onTheWay pipeId) p.numCharsAvailable.toNat < x.1

section
variable {s s' : Sched} {parked parked' : Prop}

/-- The invariant gives what is wanted. -/
theorem WakeInv.noLostWakeup (h : s.WakeInv) : s.NoLostWakeup := by
  intro pipeId p hp hnone n q hq
  have hworst := h pipeId p hp (n, q) hq
  rw [hnone, worst] at hworst
  dsimp only at hworst
  omega

/-! ## The readers on the way -/

theorem pipeRequest_of_life {p : Pid} (h : (s'.pcb p).map PCB.life = (s.pcb p).map PCB.life)
    (i : Nat) : s'.pipeRequest i p = s.pipeRequest i p := by
  have hbind : ∀ x : Option PCB, x.bind (PCB.pipeRequest i)
      = (x.map PCB.life).bind fun l => if l.1 then l.2.pipeRequest i else none := by
    intro x
    cases x <;> rfl
  rw [pipeRequest, pipeRequest, hbind, hbind, h]

/-- The running process is not in the ready queue. -/
theorem Settled.current_notMem (h : s.Running) : s.currentProc ∉ s.readyQueue := by
  have hocc := h.placed.nowhere (a := s.currentProc) (fun hi => (hi.2.2.resolve_left id) rfl)
    .ready
  exact List.count_eq_zero.mp hocc

theorem Settled.requests_eq (h : s.Running) (i : Nat) :
    s.requests i = s.readyQueue.filterMap (s.pipeRequest i) := by
  rw [requests, List.filter_eq_self.mpr]
  intro p hp
  simpa using fun e : p = s.currentProc => h.current_notMem (e ▸ hp)

/-- In user mode the readers on the way are those in the ready queue. -/
theorem Settled.onTheWay_user (h : s.Running) (hmode : s.mode = .user) (i : Nat) :
    s.onTheWay i = s.requests i := by
  rw [h.requests_eq, onTheWay, hmode]
  rfl

/-- After a switch, the process that was switched to comes first. -/
theorem Settled.onTheWay_kernel (h : s.Running) (hmode : s.mode = .kernel) (i : Nat) :
    s.onTheWay i = (s.pipeRequest i s.currentProc).toList ++ s.requests i := by
  rw [h.requests_eq, onTheWay, hmode, if_pos rfl, List.filterMap_append]
  cases hreq : s.pipeRequest i s.currentProc <;> simp [hreq]

/-- A process that goes on elsewhere than in `KernelPipeRead` is not on the way. -/
theorem Settled.onTheWay_of_not {i : Nat} (h : s.Running)
    (hnot : s.mode = .kernel → s.pipeRequest i s.currentProc = none) :
    s.onTheWay i = s.requests i := by
  cases hmode : s.mode with
  | user => exact h.onTheWay_user hmode i
  | kernel => rw [h.onTheWay_kernel hmode, hnot hmode, Option.toList_none, List.nil_append]

/-- A process in the ready queue that asks a pipe for bytes was taken out of its waiting
list, or was in the ready queue before. -/
theorem Settled.requests_same (hset : s.Settled parked) (hset' : s'.Settled parked')
    (hready : s.readyQueue <+: s'.readyQueue) (hcur : s'.currentProc = s.currentProc)
    (hlife : ∀ p ∈ s'.readyQueue, p ≠ s.currentProc →
      (s'.pcb p).map PCB.life = (s.pcb p).map PCB.life)
    (hlive : ∀ p, s'.live p = true → s.live p = true) {i : Nat}
    (hpipe : ∀ p, s.occ (.pipe i) p ≠ 0 → s'.occ (.pipe i) p ≠ 0) :
    s'.requests i = s.requests i := by
  obtain ⟨new, hnew⟩ := hready
  have hrequest : ∀ p ∈ s'.readyQueue, p ≠ s.currentProc →
      s'.pipeRequest i p = s.pipeRequest i p := fun p hp hne =>
    pipeRequest_of_life (hlife p hp hne) i
  have hnone : ∀ p ∈ new, p ≠ s.currentProc → s.pipeRequest i p = none := by
    intro p hp hne
    have hp' : p ∈ s'.readyQueue := hnew ▸ List.mem_append_right _ hp
    have hocc' := occ_ready_ne_zero.mpr hp'
    obtain ⟨hlive', hidle, -⟩ := hset'.placed.inside_of_occ hocc'
    obtain ⟨hone, hother⟩ := hset'.placed.unique hocc'
    obtain ⟨q, hq, -⟩ := hset.placed.once ⟨hlive p hlive', hidle, .inr hne⟩
    by_cases hqr : q = .ready
    · -- It was in the ready queue already, so it is there twice.
      have hold : p ∈ s.readyQueue := occ_ready_ne_zero.mp (by rw [← hqr, hq]; decide)
      have hcount : s'.readyQueue.count p = 1 := hone
      have h₁ := List.count_pos_iff.mpr hold
      have h₂ := List.count_pos_iff.mpr hp
      rw [← hnew, List.count_append] at hcount
      omega
    -- It waited elsewhere. Only a reader of this pipe asks for bytes of it.
    · obtain ⟨a, ha, hsus⟩ := hset.suspended q p hqr (by rw [hq]; decide) hne
      by_contra hsome
      obtain ⟨n, hn⟩ := Option.ne_none_iff_exists'.mp hsome
      simp only [pipeRequest, ha, Option.bind_some, PCB.pipeRequest] at hn
      have hqi : q = .pipe i := by
        split at hn
        · cases hctx : a.kernelContext with
          | kernelPipeRead j buf len =>
              simp only [hctx, KernelContext.pipeRequest] at hn
              split at hn
              · rename_i hj
                rw [hctx] at hsus
                cases q with
                | ready => exact absurd rfl hqr
                | pipe r =>
                    obtain ⟨_, _, hsus⟩ := hsus
                    cases hsus
                    rw [hj]
                | clock => cases hsus
                | receive t => cases hsus.choose_spec
                | transmit t => cases hsus
                | lock j => cases hsus
                | cvar j => cases hsus.choose_spec
                | wait => cases hsus.choose_spec
              · cases hn
          | _ =>
              rw [hctx] at hn
              cases hn
        · cases hn
      subst hqi
      exact hpipe p (by rw [hq]; decide) (hother _ (by simp))
  rw [requests, requests, hcur, ← hnew, List.filter_append, List.filterMap_append]
  have hold : (s.readyQueue.filter fun p => p ≠ s.currentProc).filterMap (s'.pipeRequest i)
      = (s.readyQueue.filter fun p => p ≠ s.currentProc).filterMap (s.pipeRequest i) := by
    refine List.filterMap_congr fun p hp => ?_
    obtain ⟨hp, hne⟩ := List.mem_filter.mp hp
    exact hrequest p (hnew ▸ List.mem_append_left _ hp) (by simpa using hne)
  have hadded : (new.filter fun p => p ≠ s.currentProc).filterMap (s'.pipeRequest i) = [] := by
    refine List.filterMap_eq_nil_iff.mpr fun p hp => ?_
    obtain ⟨hp, hne⟩ := List.mem_filter.mp hp
    have hne : p ≠ s.currentProc := by simpa using hne
    rw [hrequest p (hnew ▸ List.mem_append_right _ hp) hne]
    exact hnone p hp hne
  rw [hold, hadded, List.append_nil]

/-- The readers on the way after `SwitchToNextProc` are those in the ready queue before. -/
theorem Settled.onTheWay_switch {c : KernelContext} (hset : s.Settled parked) (i : Nat)
    (hc : c.pipeRequest i ≠ none → s.currentProc ∉ s.readyQueue ∧ s.currentProc ≠ IDLE_PID) :
    (s.switchToNextProc c).onTheWay i = s.requests i := by
  -- A process that was suspended keeps its request, and the running process gets that of `c`.
  have hrequest : ∀ (rest : List Pid) (next p : Pid), (p = next → p ≠ s.currentProc →
        ∀ a, s.pcb p = some a → a.kernelContextInitialized = false → c.pipeRequest i = none) →
      (({ s with readyQueue := rest } : Sched).switchToProc next c).pipeRequest i p
        = if p = s.currentProc then
            ((s.pcb p).bind fun a => if a.kernelContextInitialized || decide (p = next) then
              c.pipeRequest i else none)
          else s.pipeRequest i p := by
    intro rest next p hfirst
    rw [pipeRequest, switchToProc_pcb, Option.bind_map]
    by_cases hp : p = s.currentProc
    · simp only [hp, true_or, if_true]
      rfl
    · simp only [hp, false_or, if_false, pipeRequest]
      cases ha : s.pcb p with
      | none => rfl
      | some a =>
          cases hinit : a.kernelContextInitialized with
          | true => simp [PCB.pipeRequest, hinit]
          | false =>
              by_cases hpn : p = next
              · simp [PCB.pipeRequest, hinit, hpn, hfirst hpn hp a ha hinit]
              · simp [PCB.pipeRequest, hinit, hpn]
  have hnone : ∀ next p : Pid, p = s.currentProc → c.pipeRequest i = none →
      ((s.pcb p).bind fun a => if a.kernelContextInitialized || decide (p = next) then
        c.pipeRequest i else none) = none := by
    intro next p _ hci
    cases s.pcb p with
    | none => rfl
    | some a => simp [hci]
  unfold switchToNextProc
  cases hq : s.readyQueue with
  | nil =>
      have hs : s = { s with readyQueue := [] } := by rw [← hq]
      dsimp only
      rw [requests, hq, List.filter_nil, List.filterMap_nil, onTheWay,
        switchToProc_readyQueue, hq, List.append_nil]
      have hmode : (s.switchToProc IDLE_PID c).mode = .kernel := rfl
      rw [hmode, if_pos rfl, switchToProc_currentProc, List.filterMap_eq_nil_iff]
      intro p hp
      rw [List.mem_singleton.mp hp, hs, hrequest]
      · split
        · rename_i hidle
          refine hnone _ _ hidle ?_
          by_contra hsome
          exact (hc hsome).2 hidle.symm
        · cases ha : s.pcb IDLE_PID with
          | none => simp [pipeRequest, ha]
          | some a =>
              obtain ⟨hinit, hctx⟩ := hset.idleContext a ha
              simp [pipeRequest, ha, PCB.pipeRequest, hctx, KernelContext.pipeRequest]
      · intro _ _ a ha hinit
        cases (hinit.symm.trans (hset.idleContext a ha).1)
  | cons next rest =>
      dsimp only
      have hmode : (({ s with readyQueue := rest } : Sched).switchToProc next c).mode = .kernel :=
        rfl
      rw [onTheWay, hmode, if_pos rfl, switchToProc_currentProc, switchToProc_readyQueue, requests,
        hq, List.singleton_append]
      have hall : ∀ p ∈ next :: rest,
          (({ s with readyQueue := rest } : Sched).switchToProc next c).pipeRequest i p
            = if p = s.currentProc then none else s.pipeRequest i p := by
        intro p hp
        rw [hrequest]
        · split
          · rename_i hcur
            refine hnone _ _ hcur ?_
            by_contra hsome
            exact (hc hsome).1 (hq ▸ hcur ▸ hp)
          · rfl
        · intro _ _ a ha hinit
          by_contra hsome
          exact (hc hsome).2 (hset.started p a ha hinit).1
      rw [List.filterMap_filter]
      refine List.filterMap_congr fun p hp => ?_
      rw [hall p hp]
      by_cases hcur : p = s.currentProc <;> simp [hcur]

/-! ## Steps that leave the pipes alone -/

theorem switchToNextProc_pipe {c : KernelContext} : (s.switchToNextProc c).pipe = s.pipe :=
  ((SameBut.refl .other s).switchToNextProc c).pipe (by simp)

theorem occ_pipe_congr {i : Nat} {p : Pid} (h : s'.pipe = s.pipe) :
    s'.occ (.pipe i) p = s.occ (.pipe i) p := by
  rw [occ, occ, h]

/-- The pipes are the same, and so are the readers on the way. -/
theorem WakeInv.congr (h : s.WakeInv) (hpipe : s'.pipe = s.pipe)
    (hway : ∀ i, s'.onTheWay i = s.onTheWay i) : s'.WakeInv := by
  intro i p hp x hx
  rw [hway]
  exact h i p (hpipe ▸ hp) x hx

/-- The running process is not suspended in `KernelPipeRead`, if it was just switched to. -/
def NoReader (s : Sched) : Prop :=
  ∀ i, s.mode = .kernel → s.pipeRequest i s.currentProc = none

theorem Calls.noReader (h : s.Calls) : s.NoReader :=
  fun _ hmode => by cases h.1.symm.trans hmode

theorem noReader_of_user (h : s.mode = .user) : s.NoReader :=
  fun _ hmode => by cases h.symm.trans hmode

/-- What a process that was just switched to asks of a pipe is what its context says. -/
theorem ResumesIn.pipeRequest {context : KernelContext} (h : s.ResumesIn context)
    (hrun : s.Running) (i : Nat) : s.pipeRequest i s.currentProc = context.pipeRequest i := by
  have hlive : (s.pcb s.currentProc).isSome :=
    (Bool.and_eq_true _ _ ▸ hrun.current.resolve_left id).1
  obtain ⟨a, ha⟩ := Option.isSome_iff_exists.mp hlive
  have hctx : a.kernelContext = context := by simpa [ha] using h.2
  have hinit : a.kernelContextInitialized = true := by
    by_contra hnot
    have hmode := (hrun.started _ a ha (by simpa using hnot)).2.1
    cases (hmode.symm.trans h.1)
  simp [Sched.pipeRequest, ha, PCB.pipeRequest, hinit, hctx]

theorem ResumesIn.noReader {context : KernelContext} (h : s.ResumesIn context) (hrun : s.Running)
    (hcontext : ∀ i, context.pipeRequest i = none) : s.NoReader :=
  fun i _ => (h.pipeRequest hrun i).trans (hcontext i)

theorem Acquires.noReader {lockId : Nat} (h : s.Acquires lockId) (hrun : s.Running) :
    s.NoReader := by
  rcases h with calls | entry
  · exact calls.noReader
  · exact entry.noReader hrun fun _ => rfl

/-- The kernel goes back to user mode. -/
theorem WakeInv.user (h : s.WakeInv) (hset : s.Running) (hset' : s'.Running)
    (hl : SameLives s s') (hmode : s'.mode = .user) (hpipe : s'.pipe = s.pipe)
    (hnot : s.NoReader) : s'.WakeInv := by
  refine h.congr hpipe fun i => ?_
  rw [hset'.onTheWay_user hmode, hset.onTheWay_of_not (hnot i)]
  exact hset.requests_same hset' hl.readyQueue hl.currentProc (fun p _ _ => hl.pcb p)
    (fun p hp => by rwa [hl.live] at hp) fun p hp => by rwa [occ_pipe_congr hpipe]

/-- The kernel switches to the next process. -/
theorem WakeInv.switch {s₁ : Sched} {c : KernelContext} (h : s.WakeInv) (hset : s.Running)
    (hset₁ : s₁.Settled parked) (hl : SameLives s s₁) (hpipe : s₁.pipe = s.pipe)
    (hnot : s.NoReader) (hc : ∀ i, c.pipeRequest i = none) :
    (s₁.switchToNextProc c).WakeInv := by
  refine h.congr (switchToNextProc_pipe.trans hpipe) fun i => ?_
  rw [hset₁.onTheWay_switch i fun hsome => absurd (hc i) hsome, hset.onTheWay_of_not (hnot i)]
  exact hset.requests_same hset₁ hl.readyQueue hl.currentProc (fun p _ _ => hl.pcb p)
    (fun p hp => by rwa [hl.live] at hp) fun p hp => by rwa [occ_pipe_congr hpipe]

/-- A system call that blocks, but not for a pipe. -/
theorem WakeInv.block {q : Queue} {c : KernelContext} (h : s.WakeInv) (hset : s.Running)
    (hcur : s.currentProc ≠ IDLE_PID) (hl : SameLives s s')
    (hin : Adds q s.currentProc s.occ s'.occ) (hpipe : s'.pipe = s.pipe) (hnot : s.NoReader)
    (hc : ∀ i, c.pipeRequest i = none) : (s'.switchToNextProc c).WakeInv :=
  h.switch hset (hset.park hcur hl hin) hl hpipe hnot hc

/-! ## Fork, wait and exit -/

/-- The child and its parent do not ask for anything after a fork. -/
theorem WakeInv.fork (h : s.WakeInv) (hset : s.Running) (calls : s.Calls) :
    (((({ s with nextPid := s.nextPid + 1 } : Sched).addChild s.nextPid).ready
      s.currentProc).switchToProc s.nextPid (.kernelFork s.nextPid)).WakeInv := by
  have hnone := hset.nextPid_pcb
  refine h.congr ?_ fun i => ?_
  · exact (((addChild_sameBut hset).ready s.currentProc).switchToProc _ _).pipe (by simp)
  rw [hset.onTheWay_user calls.1, hset.requests_eq]
  let s₁ := (({ s with nextPid := s.nextPid + 1 } : Sched).addChild s.nextPid).ready s.currentProc
  have hpcb : ∀ p, s₁.pcb p = (if p = s.nextPid then some { liveParent := some s.currentProc }
      else s.pcb p).map fun a => if p = s.currentProc then
        { a with liveChildren := a.liveChildren ++ [s.nextPid] } else a := by
    intro p
    simp only [s₁, Sched.ready, addChild, Sched.observe, updCurrent, updPcb_pcb]
  -- Parent and child are suspended in `KernelFork`, and ask for nothing.
  have hrequest : ∀ p, (s₁.switchToProc s.nextPid (.kernelFork s.nextPid)).pipeRequest i p
      = if p = s.currentProc ∨ p = s.nextPid then none else s.pipeRequest i p := by
    intro p
    rw [pipeRequest, switchToProc_pcb, Option.bind_map, hpcb]
    by_cases hp : p = s.currentProc
    · cases ha : (if p = s.nextPid then some ({ liveParent := some s.currentProc } : PCB)
        else s.pcb p) with
      | none => simp [hp]
      | some a =>
          have hcur : s₁.currentProc = s.currentProc := rfl
          simp [hp, hcur, PCB.pipeRequest, KernelContext.pipeRequest]
    · have hcur : s₁.currentProc = s.currentProc := rfl
      by_cases hpn : p = s.nextPid
      · have hne : ¬ s.nextPid = s.currentProc := hpn ▸ hp
        simp [hpn, hne, hcur, PCB.pipeRequest, KernelContext.pipeRequest]
      · rw [pipeRequest]
        cases s.pcb p with
        | none => simp [hpn, hp]
        | some a => simp [hpn, hp, hcur, PCB.pipeRequest]
  have hmode : (s₁.switchToProc s.nextPid (.kernelFork s.nextPid)).mode = .kernel := rfl
  have hready : (s₁.switchToProc s.nextPid (.kernelFork s.nextPid)).readyQueue
      = s.readyQueue ++ [s.currentProc] := switchToProc_readyQueue
  have hcur : (s₁.switchToProc s.nextPid (.kernelFork s.nextPid)).currentProc = s.nextPid := rfl
  show (s₁.switchToProc s.nextPid (.kernelFork s.nextPid)).onTheWay i = _
  rw [onTheWay, hmode, if_pos rfl, hcur, hready, List.filterMap_append, List.filterMap_append]
  simp only [List.filterMap_cons, hrequest, or_true, true_or, if_true, List.filterMap_nil,
    List.nil_append, List.append_nil]
  refine List.filterMap_congr fun p hp => ?_
  have hpc : p ≠ s.currentProc := fun e => hset.current_notMem (e ▸ hp)
  have hpn : p ≠ s.nextPid := by
    rintro rfl
    have hlive := (hset.placed.inside_of_occ (occ_ready_ne_zero.mpr hp)).1
    simp [Sched.live, hnone] at hlive
  rw [if_neg (by simp [hpc, hpn])]

/-- A child that is collected has exited, so it is not on the way to a pipe. -/
theorem WakeInv.collect {pcb : PCB} {child : Pid} {rest : List Pid} {status : Int}
    (h : s.WakeInv) (hset : s.Running) (current : s.pcb s.currentProc = some pcb)
    (zombies : pcb.zombieChildren = child :: rest) (hnot : s.NoReader)
    (hset' : (((s.updCurrent fun p => { p with zombieChildren := rest }).freePcb child).observe
      (.waited s.currentProc child status)).toUser.Running) :
    (((s.updCurrent fun p => { p with zombieChildren := rest }).freePcb child).observe
      (.waited s.currentProc child status)).toUser.WakeInv := by
  refine h.congr rfl fun i => ?_
  rw [hset'.onTheWay_user rfl, hset.onTheWay_of_not (hnot i)]
  have hexited := hset.zombies _ _ current child (zombies ▸ List.mem_cons_self)
  have hreq : ∀ p ∈ s.readyQueue, (((s.updCurrent fun p => { p with zombieChildren := rest }).freePcb
      child).observe (.waited s.currentProc child status)).toUser.pipeRequest i p
        = s.pipeRequest i p := by
    intro p hp
    have hlive := (hset.placed.inside_of_occ (occ_ready_ne_zero.mpr hp)).1
    have hpc : p ≠ child := by
      rintro rfl
      simp [Sched.live, hexited] at hlive
    refine pipeRequest_of_life ?_ i
    simp only [toUser, observe, freePcb, if_neg hpc, updCurrent, updPcb_pcb, Option.map_map]
    cases s.pcb p with
    | none => rfl
    | some a => by_cases hcur : p = s.currentProc <;> simp [hcur, PCB.life]
  rw [requests, requests]
  refine List.filterMap_congr fun p hp => hreq p (List.mem_filter.mp hp).1

theorem leaveFamily_readyQueue_initial (s : Sched) (status : Int) :
    s.readyQueue <+: (s.leaveFamily status).readyQueue := by
  unfold leaveFamily
  split
  · exact List.prefix_rfl
  · dsimp only
    split
    · exact List.prefix_rfl
    · unfold becomeZombie
      dsimp only
      split
      · exact List.prefix_append _ _
      · exact List.prefix_rfl

/-- An exit wakes only processes that wait for a lock or for a child. -/
theorem WakeInv.kernelExit {status : Int} (h : s.WakeInv) (hset : s.Running)
    (hcur : s.currentProc ≠ IDLE_PID) (hnot : s.NoReader) (hok : s.kernelExit status = .ok s') :
    (s'.switchToNextProc .kernelExit).WakeInv := by
  have hpipe := (kernelExit_sameBut hset hcur hok).pipe (by simp)
  refine h.congr (switchToNextProc_pipe.trans hpipe) fun i => ?_
  unfold Sched.kernelExit at hok
  rcases ite_eq_ok hok with ⟨-, hok⟩ | ⟨-, hok⟩
  · cases hok
  obtain ⟨s₁, hrelease, hret⟩ := bind_eq_ok.mp hok
  cases hret
  obtain ⟨hset₁, hl₁⟩ := hset.releaseOwnedLocks hrelease
  have hcur₁ : s₁.currentProc ≠ IDLE_PID := by rwa [hl₁.currentProc]
  obtain ⟨hparked, -, hcur₂⟩ := hset₁.leaveFamily hcur₁ status
  obtain ⟨-, hpipe₂, -, -, -⟩ := leaveFamily_keeps s₁ status
  have hpipe₁ : s₁.pipe = s.pipe := hpipe₂.symm.trans hpipe
  rw [hparked.onTheWay_switch i fun hsome => absurd rfl hsome, hset.onTheWay_of_not (hnot i)]
  have hlife : ∀ p ∈ (s₁.leaveFamily status).readyQueue, p ≠ s₁.currentProc →
      ((s₁.leaveFamily status).pcb p).map PCB.life = (s₁.pcb p).map PCB.life := by
    intro p hp _
    have hlive := (hparked.placed.inside_of_occ (occ_ready_ne_zero.mpr hp)).1
    obtain ⟨a', ha'⟩ := Option.isSome_iff_exists.mp (Bool.and_eq_true _ _ ▸ hlive).1
    obtain ⟨a, ha, hcore⟩ := leaveFamily_sameCores s₁ status p a' ha'
    rw [ha, ha', Option.map_some, Option.map_some]
    exact congrArg some (congrArg Prod.fst hcore).symm
  have hleave := hset₁.requests_same hparked (leaveFamily_readyQueue_initial s₁ status) hcur₂ hlife
    (fun p hp => live_of_leaveFamily hp) fun p hp => by rwa [occ_pipe_congr (i := i) hpipe₂]
  rw [hleave]
  exact hset.requests_same hset₁ hl₁.readyQueue hl₁.currentProc (fun p _ _ => hl₁.pcb p)
    (fun p hp => by rwa [hl₁.live] at hp) fun p hp => by rwa [occ_pipe_congr hpipe₁]

/-! ## Reads and writes -/

/-- A process that runs the loop of `KernelPipeRead` on one pipe is not on the way to
another. If it was woken, its request is the first on the way to its pipe. -/
theorem ReadsPipe.onTheWay {pipeId buf len : Nat} (reads : s.ReadsPipe pipeId buf len)
    (hset : s.Running) (i : Nat) :
    s.onTheWay i = s.requests i ∨ i = pipeId ∧ s.onTheWay i = len :: s.requests i := by
  rcases reads with ⟨calls, -⟩ | entry
  · exact .inl (hset.onTheWay_user calls.1 i)
  · have hreq := entry.pipeRequest hset i
    rw [hset.onTheWay_kernel entry.1, hreq]
    by_cases hi : pipeId = i
    · exact .inr ⟨hi.symm, by simp [KernelContext.pipeRequest, hi]⟩
    · exact .inl (by simp [KernelContext.pipeRequest, hi])

/-- A reader that finds too few bytes waits for more than anyone can leave. -/
theorem WakeInv.pipeReadBlock {pipeId buf len : Nat} {p : Pipe} (h : s.WakeInv)
    (hset : s.Running) (hwf : p.WellFormed) (reads : s.ReadsPipe pipeId buf len)
    (hp : s.pipe pipeId = some p) (hshort : p.numCharsAvailable < len) :
    ((s.updPipe pipeId fun p =>
      { p with waitingToRead := p.waitingToRead ++ [(len, s.currentProc)] }).switchToNextProc
        (.kernelPipeRead pipeId buf len)).WakeInv := by
  have hcur := hset.ne_idle_of_readsPipe reads
  have hl : SameLives s (s.updPipe pipeId fun p =>
      { p with waitingToRead := p.waitingToRead ++ [(len, s.currentProc)] }) :=
    (SameLives.refl s).updPipe _ _
  have hparked := hset.park hcur hl (adds_pipe_in hp rfl)
  have havailable := hwf.available
  intro i p' hp' x hx
  rw [switchToNextProc_pipe] at hp'
  rw [hparked.onTheWay_switch i fun _ => ⟨hset.current_notMem, hcur⟩]
  show worst (s.requests i) _ < _
  by_cases hi : i = pipeId
  · subst hi
    simp only [updPipe, if_true, hp, Option.map_some, Option.some.injEq] at hp'
    subst hp'
    -- Nobody on the way gets more than the reader that blocks found.
    have hway : worst (s.requests i) p.numCharsAvailable.toNat
        = worst (s.onTheWay i) p.numCharsAvailable.toNat := by
      rcases reads.onTheWay hset i with hway | ⟨-, hway⟩
      · rw [hway]
      · rw [hway, worst_blocked _ (by omega)]
    rcases List.mem_append.mp hx with hx | hx
    · rw [hway]
      exact h i p hp x hx
    · rw [List.mem_singleton.mp hx]
      have hle := worst_le (s.requests i) p.numCharsAvailable.toNat
      dsimp only
      omega
  · simp only [updPipe, if_neg hi] at hp'
    rcases reads.onTheWay hset i with hway | ⟨he, -⟩
    · rw [← hway]
      exact h i p' hp' x hx
    · exact absurd he hi

theorem pipeCopyIntoUserBuffer_available {p p' : Pipe} {len : Nat} {bytes : List Byte}
    (h : p.pipeCopyIntoUserBuffer len = .ok (bytes, p')) :
    (len : Int) ≤ p.numCharsAvailable ∧ p'.numCharsAvailable = p.numCharsAvailable - len := by
  obtain ⟨_, hassert, h⟩ := bind_eq_ok.mp h
  refine ⟨of_decide_eq_true (cAssert_eq_ok hassert), ?_⟩
  rcases ite_eq_ok h with ⟨-, hret⟩ | ⟨-, hret⟩ <;> cases hret <;> rfl

/-- A reader that is satisfied leaves no more than was counted on. -/
theorem WakeInv.pipeRead {pipeId buf len : Nat} {p p' : Pipe} {bytes : List Byte} (h : s.WakeInv)
    (hset : s.Running) (reads : s.ReadsPipe pipeId buf len) (hp : s.pipe pipeId = some p)
    (hrun : p.pipeCopyIntoUserBuffer len = .ok (bytes, p'))
    (hset' : ((s.updPipe pipeId fun _ => p').observe
      (.pipeRead pipeId s.currentProc len bytes)).toUser.Running) :
    ((s.updPipe pipeId fun _ => p').observe
      (.pipeRead pipeId s.currentProc len bytes)).toUser.WakeInv := by
  obtain ⟨hserved, havailable⟩ := pipeCopyIntoUserBuffer_available hrun
  have hwaiting := Pipe.pipeCopyIntoUserBuffer_waitingToRead hrun
  intro i q hq x hx
  rw [hset'.onTheWay_user rfl]
  show worst (s.requests i) _ < _
  by_cases hi : i = pipeId
  · subst hi
    simp only [toUser, observe, updPipe, if_true, hp, Option.map_some, Option.some.injEq] at hq
    subst hq
    have hbefore := h i p hp x (hwaiting ▸ hx)
    have hnum : p'.numCharsAvailable.toNat = p.numCharsAvailable.toNat - len := by omega
    rw [hnum]
    refine Nat.lt_of_le_of_lt ?_ hbefore
    rcases reads.onTheWay hset i with hway | ⟨-, hway⟩
    · rw [hway]
      exact worst_mono _ (Nat.sub_le _ _)
    · rw [hway]
      exact worst_served _ (by omega)
  · simp only [toUser, observe, updPipe, if_neg hi] at hq
    rcases reads.onTheWay hset i with hway | ⟨he, -⟩
    · rw [← hway]
      exact h i q hq x hx
    · exact absurd he hi

theorem write_available {p p' : Pipe} {bytes : List Byte} (h : p.write bytes = .ok p') :
    p'.numCharsAvailable = p.numCharsAvailable + bytes.length := by
  obtain ⟨p₁, hgrow, hcopy⟩ := Pipe.write_eq_ok h
  obtain ⟨_, -, hret⟩ := bind_eq_ok.mp hcopy
  cases hret
  rcases hgrow with ⟨-, hgrow⟩ | ⟨-, rfl⟩
  · rcases ite_eq_ok hgrow with ⟨-, hret⟩ | ⟨-, hret⟩ <;> cases hret
    rfl
  · rfl

/-- A process that becomes ready is on the way with what its context says. -/
theorem requests_ready {p : Pid} (hp : p ≠ s.currentProc) (i : Nat) :
    (s.ready p).requests i = s.requests i ++ (s.pipeRequest i p).toList := by
  have hcur : (s.ready p).currentProc = s.currentProc := rfl
  have hfilter : ([p].filter fun q => q ≠ (s.ready p).currentProc) = [p] := by
    simp [hcur, hp]
  have hready : (s.ready p).readyQueue = s.readyQueue ++ [p] := rfl
  have hsame : [p].filterMap ((s.ready p).pipeRequest i) = (s.pipeRequest i p).toList := by
    have hreq : (s.ready p).pipeRequest i p = s.pipeRequest i p := rfl
    cases h : s.pipeRequest i p <;> simp [hreq, h]
  rw [requests, hready, List.filter_append, List.filterMap_append, hfilter, hsame]
  rfl

/-- A write that leaves none behind. -/
theorem WakeInv.pipeWrite {pipeId : Nat} {p p' : Pipe} {bytes : List Byte} (h : s.WakeInv)
    (hset : s.Running) (calls : s.Calls) (hp : s.pipe pipeId = some p)
    (hrun : p.write bytes = .ok p')
    (hleaves : s.LeavesNoneBehind (.writesPipe pipeId bytes.length))
    (hset' : (s.afterPipeWrite pipeId p' bytes).toUser.Running) :
    (s.afterPipeWrite pipeId p' bytes).toUser.WakeInv := by
  have hwaiting := Pipe.write_waitingToRead hrun
  have havailable := write_available hrun
  have hleft := hleaves p hp
  dsimp only at hleft
  rw [← havailable, ← hwaiting] at hleft
  intro i q hq x hx
  rw [hset'.onTheWay_user rfl]
  cases hfind : listFindFirstLessThanIdAndRemove p'.waitingToRead p'.numCharsAvailable with
  | mk woken left =>
      rw [hfind] at hleft
      let s₁ := (s.updPipe pipeId fun _ => { p' with waitingToRead := left }).observe
        (.pipeWritten pipeId bytes)
      have hpipe : (s.afterPipeWrite pipeId p' bytes).toUser.pipe = s₁.pipe := by
        unfold afterPipeWrite
        rw [hfind]
        cases woken <;> rfl
      have hreq : (s.afterPipeWrite pipeId p' bytes).toUser.requests i
          = s.requests i ++ (woken.bind (s.pipeRequest i)).toList := by
        unfold afterPipeWrite
        rw [hfind]
        cases woken with
        | none => exact (List.append_nil _).symm
        | some proc =>
            have hne : proc ≠ s₁.currentProc := by
              -- The running process does not wait for the pipe.
              intro hproc
              have hproc : proc = s.currentProc := hproc
              obtain ⟨before, n, after, hall, -, -, -⟩ :=
                listFindFirstLessThanIdAndRemove_some hfind
              have hnowhere := hset.placed.nowhere (a := s.currentProc)
                (fun hi => (hi.2.2.resolve_left id) rfl) (.pipe pipeId)
              have hmem : s.currentProc ∈ p.waitingToRead.map Prod.snd := by
                rw [← hwaiting, hall]
                exact List.mem_map.mpr ⟨(n, proc), by simp, hproc⟩
              simp only [occ, hp, Option.map_some, Option.getD_some] at hnowhere
              exact absurd hmem (List.count_eq_zero.mp hnowhere)
            exact requests_ready (s := s₁) hne i
      rw [hreq]
      rw [hpipe] at hq
      by_cases hi : i = pipeId
      · subst hi
        simp only [s₁, observe, updPipe, if_true, hp, Option.map_some, Option.some.injEq] at hq
        subst hq
        rw [← hset.onTheWay_user calls.1]
        exact hleft x hx
      · simp only [s₁, observe, updPipe, if_neg hi] at hq
        have hnone : woken.bind (s.pipeRequest i) = none := by
          cases woken with
          | none => rfl
          | some proc =>
              obtain ⟨before, n, after, hall, -, -, -⟩ :=
                listFindFirstLessThanIdAndRemove_some hfind
              have hocc : s.occ (.pipe pipeId) proc ≠ 0 := by
                simp only [occ, hp, Option.map_some, Option.getD_some, ← hwaiting, hall]
                simp
              have hne : proc ≠ s.currentProc := by
                rintro rfl
                exact hocc (hset.placed.nowhere (a := s.currentProc)
                  (fun hi => (hi.2.2.resolve_left id) rfl) (.pipe pipeId))
              obtain ⟨a, ha, buf, len, hctx⟩ := hset.suspended _ proc (by simp) hocc hne
              simp [pipeRequest, ha, PCB.pipeRequest, hctx, KernelContext.pipeRequest, Ne.symm hi]
        rw [hnone, Option.toList_none, List.append_nil, ← hset.onTheWay_user calls.1]
        exact h i q hq x hx

/-! ## Every step -/

/-- A step that leaves no reader behind keeps the invariant. -/
theorem SchedStep.wakeInv {c : Cause} (h : s.WakeInv) (hrun : s.Running) (hobj : s.Objects)
    (hpipes : s.PipeInv) (hleaves : s.LeavesNoneBehind c) (hstep : SchedStep s c s') :
    s'.WakeInv := by
  have hrun' := hstep.running hrun hobj
  have hl := SameLives.refl s
  have hs : ∀ part, SameBut part s s := fun part => .refl part s
  cases hstep with
  | quiet => exact h
  | finish entry returns =>
      refine h.user hrun hrun' hl.toUser rfl rfl (entry.noReader hrun fun i => ?_)
      cases returns <;> rfl
  | forkFailed calls =>
      refine h.congr rfl fun i => ?_
      rw [hrun'.onTheWay_user rfl, hrun.onTheWay_user calls.1]
      rfl
  | fork calls => exact h.fork hrun calls
  | exit entry run =>
      have hcur : s.currentProc ≠ IDLE_PID := entry.elim And.right (hrun.ne_idle · (by simp))
      refine h.kernelExit hrun hcur ?_ run
      rcases entry with calls | entry
      · exact calls.noReader
      · exact entry.noReader hrun fun _ => rfl
  | collect entry current zombies _ =>
      refine h.collect hrun current zombies ?_ hrun'
      rcases entry with calls | ⟨_, entry⟩
      · exact calls.noReader
      · exact entry.noReader hrun fun _ => rfl
  | wait calls current _ _ =>
      have hflag := hrun.placed.nowhere (a := s.currentProc)
        (fun hi => (hi.2.2.resolve_left id) rfl) .wait
      exact h.block hrun calls.2 (hl.updPcb (by intro; rfl) (by intro; rfl))
        (adds_wait_in current (by simpa [occ, current] using hflag) rfl) rfl calls.noReader
        fun _ => rfl
  | delay calls _ =>
      exact h.block hrun calls.2 (enqueueForClock_sameLives _ _) (adds_enqueueForClock _) rfl
        calls.noReader fun _ => rfl
  | clock _ mode run =>
      obtain ⟨hparked, hl₁⟩ := hrun.trapClock run
      exact h.switch hrun hparked hl₁ ((trapClock_sameBut run).pipe (by simp))
        (noReader_of_user mode) fun _ => rfl
  | consumeLine _ _ calls _ =>
      exact h.user hrun hrun' ((hl.updTty _ _).observe (by intro; rfl)).toUser rfl rfl calls.noReader
  | ttyReadBlock _ calls _ =>
      exact h.block hrun calls.2 (enqueueToReceive_sameLives _ _ _) (adds_enqueueToReceive _ _)
        rfl calls.noReader fun _ => rfl
  | ttyReceive _ mode run =>
      have hl₁ := (hrun.trapTtyRecieve run).2
      exact h.user hrun hrun' hl₁ (hl₁.mode mode) ((trapTtyRecieve_sameBut run).pipe (by simp))
        (noReader_of_user mode)
  | ttyWrite calls transmits =>
      refine h.block hrun calls.2 (enqueueToTransmit_sameLives _ _ _)
        (adds_enqueueToTransmit _ _) ((enqueueToTransmit_sameBut _ _ _).pipe (by simp))
        calls.noReader fun _ => ?_
      cases transmits <;> rfl
  | ttyTransmit _ mode run =>
      have hl₁ := (hrun.trapTtyTransmit run).2
      exact h.user hrun hrun' hl₁ (hl₁.mode mode) ((trapTtyTransmit_sameBut run).pipe (by simp))
        (noReader_of_user mode)
  | pipeInit calls =>
      intro i p hp x hx
      rw [hrun'.onTheWay_user rfl]
      -- Nobody waits for the new pipe, and the others are as before.
      by_cases hi : i = s.nextSynchResourceId
      · simp only [toUser, pipeNewPipe, hi, if_true, Option.some.injEq] at hp
        subst hp
        cases hx
      · simp only [toUser, pipeNewPipe, if_neg hi] at hp
        have hbefore := h i p hp x hx
        rwa [hrun.onTheWay_user calls.1] at hbefore
  | lockInit calls =>
      exact h.user hrun hrun' (lockNewLock_sameLives s).toUser rfl rfl calls.noReader
  | cvarInit calls =>
      exact h.user hrun hrun' (cVarNewCVar_sameLives s).toUser rfl rfl calls.noReader
  | pipeReadBlock reads pipe short =>
      exact h.pipeReadBlock hrun (hpipes.wellFormed _ _ pipe) reads pipe short
  | pipeRead reads pipe run => exact h.pipeRead hrun reads pipe run hrun'
  | pipeWrite cause calls found run =>
      exact h.pipeWrite hrun calls (mem_of_findPipe found).2 run (cause ▸ hleaves) hrun'
  | acquireOwned acquires _ _ _ =>
      exact h.user hrun hrun' (hl.observe (by intro; rfl)).toUser rfl rfl (acquires.noReader hrun)
  | acquireFree acquires _ _ =>
      exact h.user hrun hrun' ((takeLock_sameLives _ _).observe (by intro; rfl)).toUser rfl rfl
        (acquires.noReader hrun)
  | acquireBlock acquires found _ _ =>
      exact h.block hrun (hrun.ne_idle_of_acquires acquires) (enqueueForLock_sameLives _ _)
        (adds_enqueueForLock found) rfl (acquires.noReader hrun) fun _ => rfl
  | acquireMissing entry _ =>
      exact h.user hrun hrun' hl.toUser rfl rfl (entry.noReader hrun fun _ => rfl)
  | acquireReturn entry _ _ _ =>
      exact h.user hrun hrun' (hl.observe (by intro; rfl)).toUser rfl rfl (entry.noReader hrun fun _ => rfl)
  | release calls run =>
      obtain ⟨hset₁, hl₁⟩ := hrun.kernelRelease run
      exact h.user hrun hrun' hl₁.toUser rfl ((kernelRelease_sameBut run).pipe (by simp))
        calls.noReader
  | cvarSignal calls =>
      exact h.user hrun hrun' (hrun.kernelCvarSignal _).2.toUser rfl
        ((kernelCvarSignal_sameBut _ _).pipe (by simp)) calls.noReader
  | cvarBroadcast calls =>
      exact h.user hrun hrun' (hrun.kernelCvarBroadcast _).2.toUser rfl
        ((kernelCvarBroadcast_sameBut _ _).pipe (by simp)) calls.noReader
  | @cvarWait cvarId _ _ _ s₁ calls found run _ =>
      obtain ⟨hset₁, hl₁⟩ := hrun.kernelRelease run
      have hcvar := (mem_of_findCvar found).2
      rw [← kernelRelease_cvar run] at hcvar
      have hl₂ : SameLives s₁ (s₁.enqueueForCvar cvarId) := (SameLives.refl s₁).updCvar _ _
      exact h.switch hrun (hset₁.park (hl₁.currentProc ▸ calls.2) hl₂ (adds_enqueueForCvar hcvar))
        (hl₁.trans hl₂) ((kernelRelease_sameBut run).pipe (by simp)) calls.noReader fun _ => rfl
  | reclaim calls =>
      exact h.user hrun hrun' (kernelReclaim_keeps s _).1.toUser rfl
        ((kernelReclaim_sameBut _ _).pipe (by simp)) calls.noReader

end

theorem bootSched_wakeInv : Kernel.bootSched.WakeInv := fun _ _ hp => by cases hp

end Sched

open Sched

/-! ## Runs -/

/-- The step is not a write, or one that leaves no reader behind. -/
def LeavesNoneBehind (k : Kernel) (e : Event) : Prop := k.toSched.LeavesNoneBehind (k.cause e)

instance (k : Kernel) (e : Event) : Decidable (LeavesNoneBehind k e) :=
  inferInstanceAs (Decidable (k.toSched.LeavesNoneBehind (k.cause e)))

/-- In every state of the runs whose writes leave no reader behind, no wakeup is lost. -/
theorem no_lost_wakeup {b : BootImage} {k : Kernel} (h : ReachableWhen LeavesNoneBehind b k) :
    k.toSched.NoLostWakeup := by
  have hinv : (k.toSched.Objects ∧ k.toSched.Running) ∧ k.toSched.PipeInv ∧ k.toSched.WakeInv := by
    refine ReachableWhen.invariant
      (I := fun k => (k.toSched.Objects ∧ k.toSched.Running) ∧ k.toSched.PipeInv ∧
        k.toSched.WakeInv) (fun k hstart => ?_) (fun k e k' hinv hleaves _ hstep => ?_) h
    · rw [kernelStart_sched hstart]
      exact ⟨⟨bootSched_objects, bootSched_running⟩, bootSched_pipeInv, bootSched_wakeInv⟩
    · obtain ⟨⟨hobj, hrun⟩, hpipes, hwake⟩ := hinv
      have hs := hstep.sched
      exact ⟨⟨hs.objects hobj, hs.running hrun hobj⟩, SchedStep.pipeInv hpipes hobj hrun hs,
        SchedStep.wakeInv hwake hrun hobj hpipes hleaves hs⟩
  exact hinv.2.2.noLostWakeup

/-- Two children of init ask a pipe for three bytes each, and init writes `len` bytes to it
and waits for the clock. -/
def twoReaders (len : Nat) : List Event := initRuns ++
  [systemCall YALNIX_PIPE_INIT stackBuffer 0 0,
    systemCall YALNIX_FORK 0 0 0, .resume, systemCall YALNIX_PIPE_READ 1 stackBuffer 3, .resume,
    systemCall YALNIX_FORK 0 0 0, .resume, systemCall YALNIX_PIPE_READ 1 stackBuffer 3, .resume,
    systemCall YALNIX_PIPE_WRITE 1 stackBuffer len, systemCall YALNIX_DELAY 5 0 0, .resume]

/-- Both readers could be satisfied, but one waits and nobody is on the way to wake it. -/
theorem lost_wakeup : ∃ k p, Kernel.run smallImage (twoReaders 10) = some k ∧
    Reachable smallImage k ∧ k.pipe 1 = some p ∧ k.toSched.onTheWay 1 = [] ∧
    p.waitingToRead = [(3, 3)] ∧ p.numCharsAvailable = 7 ∧ ¬ k.toSched.NoLostWakeup := by
  have hsome : ((Kernel.run smallImage (twoReaders 10)).bind fun k => (k.pipe 1).map fun p =>
      (k.toSched.onTheWay 1, p.waitingToRead, p.numCharsAvailable))
        = some ([], [(3, 3)], 7) := by decide +kernel
  obtain ⟨k, hrun, hk⟩ := Option.bind_eq_some_iff.mp hsome
  obtain ⟨p, hp, heq⟩ := Option.map_eq_some_iff.mp hk
  simp only [Prod.mk.injEq] at heq
  obtain ⟨hway, hwaiting, havailable⟩ := heq
  refine ⟨k, p, hrun, .of_run hrun, hp, hway, hwaiting, havailable, fun hnone => ?_⟩
  have hlost := hnone 1 p hp hway 3 3 (hwaiting ▸ List.mem_cons_self)
  omega

/-- A write that is just enough for the reader it wakes leaves the other to wait rightly. -/
theorem no_lost_wakeup_enough : ∃ k,
    Kernel.runWhen LeavesNoneBehind smallImage (twoReaders 3) = some k ∧
    k.toSched.NoLostWakeup := by
  have hsome : ((Kernel.runWhen LeavesNoneBehind smallImage (twoReaders 3)).map fun k =>
      k.currentProc) = some 2 := by decide +kernel
  obtain ⟨k, hrun, -⟩ := Option.map_eq_some_iff.mp hsome
  exact ⟨k, hrun, no_lost_wakeup (.of_run hrun)⟩

end Theynix
