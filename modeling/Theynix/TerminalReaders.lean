import Theynix.ExitStatus
import Theynix.Terminal
import Theynix.Turns

/-!
# `Theynix.TerminalReaders`: what the readers of a terminal get

`Theynix.Terminal` is about the stream of a terminal. Here its bytes are followed to the
memory of the readers. A reader that finds a line has its bytes at `buf` when the call
returns. To a reader that waits, `TrapTtyRecieve` hands them in `tty_receive_buffer`; nobody
else writes to this buffer, and the reader copies it to `buf` when it goes on.

* `tty_input_lossless_iff` says when the stream is kept: in a run whose reads have all kept
  their leftovers nothing was lost, and the next step loses nothing exactly when it keeps
  its leftovers too. Each step reads and hands over the bytes that the stream counts.
* `tty_input_repeats` is a run in which a reader gets the same bytes twice.
-/

set_option autoImplicit false

namespace Theynix

open Theynix.Lib (bind_eq_ok ite_eq_ok StreamEvent)

/-! ## Who changes what a process has received -/

namespace Sched

/-- `tty_receive_buffer` of a process holds these bytes, and `tty_receive_len` counts them. -/
def Handed (s : Sched) (p : Pid) (bytes : List Byte) : Prop :=
  ∃ a buffer, s.pcb p = some a ∧ a.receive = (some buffer, bytes.length) ∧
    buffer.take bytes.length = bytes

/-- But for some processes, every PCB was there before, and has received the same. -/
def SameReads (changed : Pid → Prop) (s s' : Sched) : Prop :=
  ∀ p a', ¬ changed p → s'.pcb p = some a' → ∃ a, s.pcb p = some a ∧ a.receive = a'.receive

namespace SameReads

variable {changed : Pid → Prop} {s s₁ s₂ : Sched}

theorem refl (s : Sched) : SameReads changed s s := fun _ a _ ha => ⟨a, ha, rfl⟩

theorem trans (h : SameReads changed s s₁) (h' : SameReads changed s₁ s₂) :
    SameReads changed s s₂ := by
  intro p a' hp ha'
  obtain ⟨a₁, ha₁, hsame₁⟩ := h' p a' hp ha'
  obtain ⟨a, ha, hsame⟩ := h p a₁ hp ha₁
  exact ⟨a, ha, hsame.trans hsame₁⟩

/-- The PCBs are the same. -/
theorem keep (h : SameReads changed s s₁) (hpcb : s₂.pcb = s₁.pcb) :
    SameReads changed s s₂ :=
  fun p a' hp ha' => h p a' hp (hpcb ▸ ha')

theorem updPcb (h : SameReads changed s s₁) {r : Pid} {f : PCB → PCB}
    (hf : changed r ∨ ∀ a, (f a).receive = a.receive) :
    SameReads changed s (s₁.updPcb r f) := by
  refine h.trans fun p a' hp ha' => ?_
  rw [updPcb_pcb] at ha'
  obtain ⟨a, ha, rfl⟩ := Option.map_eq_some_iff.mp ha'
  refine ⟨a, ha, ?_⟩
  split
  · rename_i hpr
    exact ((hf.resolve_left (hpr ▸ hp)) a).symm
  · rfl

theorem freePcb (h : SameReads changed s s₁) (r : Pid) : SameReads changed s (s₁.freePcb r) := by
  refine h.trans fun p a' _ ha' => ?_
  simp only [Sched.freePcb] at ha'
  split at ha'
  · cases ha'
  · exact ⟨a', ha', rfl⟩

theorem ready (h : SameReads changed s s₁) (p : Pid) : SameReads changed s (s₁.ready p) :=
  h.keep rfl

theorem observe (h : SameReads changed s s₁) (o : Obs) : SameReads changed s (s₁.observe o) :=
  h.keep rfl

theorem toUser (h : SameReads changed s s₁) : SameReads changed s s₁.toUser := h.keep rfl

theorem switchToProc (h : SameReads changed s s₁) (next : Pid) (c : KernelContext) :
    SameReads changed s (s₁.switchToProc next c) := by
  refine h.trans fun p a' _ ha' => ?_
  rw [switchToProc_pcb] at ha'
  obtain ⟨a, ha, rfl⟩ := Option.map_eq_some_iff.mp ha'
  exact ⟨a, ha, rfl⟩

theorem switchToNextProc (h : SameReads changed s s₁) (c : KernelContext) :
    SameReads changed s (s₁.switchToNextProc c) := by
  unfold Sched.switchToNextProc
  split
  · refine SameReads.switchToProc ?_ _ c
    exact h.keep rfl
  · exact h.switchToProc _ c

end SameReads

section
variable {changed : Pid → Prop} {s s' : Sched}

theorem kernelRelease_sameReads {lockId : Nat} {rc : Int}
    (h : s.kernelRelease lockId = .ok (rc, s')) : SameReads changed s s' := by
  have hdisown : SameReads changed s (s.disown lockId) :=
    (SameReads.refl s).updPcb (.inr fun _ => rfl)
  cases kernelRelease_cases h with
  | error => exact .refl s
  | available => exact hdisown.keep rfl
  | handOver =>
      refine SameReads.observe (SameReads.ready ?_ _) _
      exact SameReads.updPcb (hdisown.keep rfl) (.inr fun _ => rfl)

theorem kernelExit_sameReads {status : Int} (h : s.kernelExit status = .ok s') :
    SameReads changed s s' := by
  unfold kernelExit at h
  rcases ite_eq_ok h with ⟨-, h⟩ | ⟨-, h⟩
  · cases h
  obtain ⟨s₁, hrelease, hret⟩ := bind_eq_ok.mp h
  cases hret
  have h₁ : SameReads changed s s₁ := releaseOwnedLocks_rule (P := SameReads changed s)
    (fun _ _ _ _ hs hr => hs.trans (kernelRelease_sameReads hr)) (.refl s) hrelease
  refine h₁.trans fun p a' _ ha' => ?_
  obtain ⟨a, ha, hcore⟩ := leaveFamily_sameCores s₁ status p a' ha'
  exact ⟨a, ha, congrArg (fun c => c.2.2.2.2) hcore⟩

theorem trapClock_sameReads {afterFree : List FreedNext} (h : s.trapClock afterFree = .ok s') :
    SameReads changed s s' := by
  have htick : ∀ (s₁ : Sched) proc, SameReads changed s₁ (s₁.decrementTicksRemaining proc).2 := by
    intro s₁ proc
    have hdown : SameReads changed s₁ (s₁.updPcb proc fun p =>
        { p with clockTicksUntilReady := p.clockTicksUntilReady - 1 }) :=
      (SameReads.refl s₁).updPcb (.inr fun _ => rfl)
    unfold decrementTicksRemaining
    dsimp only
    split
    · exact hdown.keep rfl
    · exact hdown
  obtain ⟨s₁, hmap, hrest⟩ := bind_eq_ok.mp h
  obtain ⟨_, h₁⟩ := mapTicks_rule (P := fun _ => SameReads changed s)
    (fun s proc _ hs => hs.trans (htick s proc)) ((SameReads.refl s).observe _) hmap
  rcases ite_eq_ok hrest with ⟨-, hret⟩ | ⟨-, hret⟩ <;> cases hret
  · exact h₁.ready _
  · exact h₁

theorem trapTtyTransmit_sameReads {ttyId : Nat} (h : s.trapTtyTransmit ttyId = .ok s') :
    SameReads changed s s' := by
  have hnext : ∀ (s₁ : Sched) proc, SameReads changed s₁ (s₁.transmitNext ttyId proc) := by
    intro s₁ proc
    unfold transmitNext
    split
    · exact .refl s₁
    · exact (SameReads.refl s₁).observe _
  cases trapTtyTransmit_cases h with
  | advance =>
      refine SameReads.trans ?_ (hnext _ _)
      exact ((SameReads.refl s).observe _).updPcb (.inr (by intro a; simp only [PCB.receive]))
  | last => exact (SameReads.refl s).keep rfl
  | finish => exact ((SameReads.refl s).keep rfl).trans (hnext _ _)

theorem enqueueForClock_sameReads (s : Sched) (clockTicks : Int) :
    SameReads changed s (s.enqueueForClock clockTicks) := by
  have h₁ : SameReads changed s (s.updCurrent fun p => { p with clockTicksUntilReady := clockTicks }) :=
    (SameReads.refl s).updPcb (.inr fun _ => rfl)
  exact h₁.keep rfl

theorem enqueueToTransmit_sameReads (s : Sched) (ttyId : Nat) (bytes : List Byte) :
    SameReads changed s (s.enqueueToTransmit ttyId bytes) := by
  have h₁ : SameReads changed s (s.updCurrent fun p =>
      { p with
        ttyTransmitLen := bytes.length, ttyTransmitBuffer := bytes, ttyTransmitPointer := 0 }) :=
    (SameReads.refl s).updPcb (.inr fun _ => rfl)
  unfold enqueueToTransmit
  dsimp only
  split
  · exact h₁.keep rfl
  · exact h₁.keep rfl

theorem afterPipeWrite_sameReads (s : Sched) (pipeId : Nat) (p : Pipe) (bytes : List Byte) :
    SameReads changed s (s.afterPipeWrite pipeId p bytes) := by
  unfold afterPipeWrite
  dsimp only
  split
  · exact (SameReads.refl s).keep rfl
  · exact (SameReads.refl s).keep rfl

theorem kernelCvarSignal_pcb (s : Sched) (cvarId : Nat) :
    (s.kernelCvarSignal cvarId).2.pcb = s.pcb := by
  unfold kernelCvarSignal
  split
  · rfl
  · split <;> rfl

theorem kernelCvarBroadcast_pcb (s : Sched) (cvarId : Nat) :
    (s.kernelCvarBroadcast cvarId).2.pcb = s.pcb := by
  unfold kernelCvarBroadcast
  split <;> rfl

theorem kernelReclaim_pcb (s : Sched) (id : Nat) : (s.kernelReclaim id).2.pcb = s.pcb := by
  rcases kernelReclaim_cases s id with he | he | he | he <;> rw [he]

end

/-- A trap of a terminal apart, a step changes what the running process has received at most,
and gives a new process its own. -/
theorem SchedStep.sameReads {c : Cause} {s s' : Sched} (hstep : SchedStep s c s')
    (hc : ∀ t input, c ≠ .received t input) :
    SameReads (fun p => p = s.currentProc ∨ p = s.nextPid) s s' := by
  have hs : SameReads (fun p => p = s.currentProc ∨ p = s.nextPid) s s := .refl s
  cases hstep with
  | quiet => exact hs
  | finish _ _ => exact hs.keep rfl
  | forkFailed _ => exact hs.keep rfl
  | fork _ =>
      refine SameReads.switchToProc (SameReads.ready (SameReads.observe ?_ _) _) _ _
      refine SameReads.updPcb (fun p a' hp ha' => ⟨a', ?_, rfl⟩) (.inr fun _ => rfl)
      have hnew : p ≠ s.nextPid := fun h => hp (.inr h)
      simpa [hnew] using ha'
  | exit _ run => exact (kernelExit_sameReads run).switchToNextProc _
  | collect _ _ _ _ =>
      exact (((hs.updPcb (.inr (by intro; rfl))).freePcb _).observe _).toUser
  | wait _ _ _ _ => exact (hs.updPcb (.inr (by intro; rfl))).switchToNextProc _
  | delay _ _ => exact (enqueueForClock_sameReads _ _).switchToNextProc _
  | clock _ _ run => exact (trapClock_sameReads run).switchToNextProc _
  | consumeLine _ _ _ _ => exact hs.keep rfl
  | ttyReadBlock _ _ _ =>
      refine SameReads.switchToNextProc ?_ _
      exact SameReads.updPcb (hs.keep rfl) (.inl (.inl rfl))
  | ttyReceive cause _ _ => exact absurd cause (hc _ _)
  | ttyWrite _ _ => exact (enqueueToTransmit_sameReads _ _ _).switchToNextProc _
  | ttyTransmit _ _ run => exact trapTtyTransmit_sameReads run
  | pipeInit _ => exact hs.keep rfl
  | lockInit _ => exact hs.keep rfl
  | cvarInit _ => exact hs.keep rfl
  | pipeReadBlock _ _ _ => exact (hs.keep (by rfl)).switchToNextProc _
  | pipeRead _ _ _ => exact hs.keep rfl
  | pipeWrite _ _ _ _ => exact (afterPipeWrite_sameReads _ _ _ _).keep rfl
  | acquireOwned _ _ _ _ => exact hs.keep rfl
  | acquireFree _ _ _ =>
      exact ((((hs.keep (by rfl)).updPcb (.inr (by intro; rfl))).observe _).observe _).toUser
  | acquireBlock _ _ _ _ => exact (hs.keep (by rfl)).switchToNextProc _
  | acquireMissing _ _ => exact hs.keep rfl
  | acquireReturn _ _ _ _ => exact hs.keep rfl
  | release _ run => exact (kernelRelease_sameReads run).keep rfl
  | cvarSignal _ => exact hs.keep (kernelCvarSignal_pcb s _)
  | cvarBroadcast _ => exact hs.keep (kernelCvarBroadcast_pcb s _)
  | cvarWait _ _ run _ =>
      exact ((kernelRelease_sameReads run).keep (by rfl)).switchToNextProc _
  | reclaim _ => exact hs.keep (kernelReclaim_pcb s _)

/-! ## What a trap of a terminal hands over -/

/-- In the loop of `TrapTtyRecieve`, and at its end: the readers that have been served, with
what they have been handed. The others are still to be visited. -/
structure Hands (s₀ : Sched) (ttyId : Nat) (served : List (Pid × List Byte)) (procs : List Pid)
    (s : Sched) : Prop where
  events : ∀ t, s.inputEvents t =
    s₀.inputEvents t ++ if t = ttyId then served.map fun x => .take x.2 else []
  handed : ∀ x ∈ served, s.Handed x.1 x.2
  order : (s₀.ttys ttyId).waitingToReceive = served.map Prod.fst ++ procs
  waiting : (s.ttys ttyId).waitingToReceive = procs
  elsewhere : ∀ t ≠ ttyId, (s.ttys t).waitingToReceive = (s₀.ttys t).waitingToReceive
  readyQueue : s.readyQueue = s₀.readyQueue ++ served.map Prod.fst
  others : SameReads (fun p => p ∈ served.map Prod.fst) s₀ s

section
variable {s₀ s s' : Sched} {ttyId : Nat} {served : List (Pid × List Byte)} {procs : List Pid}

theorem SameReads.mono {changed changed' : Pid → Prop} (h : SameReads changed s s')
    (hsub : ∀ p, changed p → changed' p) : SameReads changed' s s' :=
  fun p a' hp ha' => h p a' (fun hc => hp (hsub p hc)) ha'

/-- What one process has been handed stays when another process is changed. -/
theorem Handed.updPcb {p r : Pid} {bytes : List Byte} {f : PCB → PCB} (h : s.Handed p bytes)
    (hp : p ≠ r) : (s.updPcb r f).Handed p bytes := by
  obtain ⟨a, buffer, ha, hreceive, htake⟩ := h
  refine ⟨a, buffer, ?_, hreceive, htake⟩
  rw [updPcb_pcb, ha, Option.map_some, if_neg hp]

/-- One round of the loop hands the first process its part of the input. -/
theorem Hands.serveReader {proc : Pid} {rest : List Pid} {pcb : PCB} {buffer input : List Byte}
    (h : Hands s₀ ttyId served (proc :: rest) s) (hnodup : (s₀.ttys ttyId).waitingToReceive.Nodup)
    (hpcb : s.pcb proc = some pcb) :
    Hands s₀ ttyId (served ++ [(proc, input.take pcb.ttyReceiveLen)]) rest
      (s.serveReader ttyId proc rest pcb buffer input) := by
  have hnew : ∀ x ∈ served, x.1 ≠ proc := by
    intro x hx he
    rw [h.order] at hnodup
    exact (List.nodup_append.mp hnodup).2.2 x.1 (List.mem_map_of_mem hx) proc
      List.mem_cons_self he
  refine ⟨fun t => ?_, fun x hx => ?_, ?_, ?_, fun t ht => ?_, ?_, ?_⟩
  · have hbefore := h.events t
    refine inputEvents_observe.trans ?_
    rw [List.map_append]
    by_cases ht : t = ttyId
    · rw [if_pos ht] at hbefore ⊢
      rw [← List.append_assoc, ← hbefore]
      simp [Obs.inputEvent, ht, inputEvents, Sched.events, Sched.ready, updTty, Sched.updPcb]
    · rw [if_neg ht] at hbefore ⊢
      rw [← hbefore]
      have hne : ¬ ttyId = t := fun he => ht he.symm
      simp [Obs.inputEvent, hne, inputEvents, Sched.events, Sched.ready, updTty, Sched.updPcb]
  · rcases List.mem_append.mp hx with hx | hx
    · obtain ⟨a, b, ha, hreceive, htake⟩ :=
        Handed.updPcb (r := proc) (f := fun p =>
          { p with
            ttyReceiveBuffer := some
              (input.take pcb.ttyReceiveLen ++ buffer.drop (input.take pcb.ttyReceiveLen).length)
            ttyReceiveLen := (input.take pcb.ttyReceiveLen).length }) (h.handed x hx) (hnew x hx)
      exact ⟨a, b, ha, hreceive, htake⟩
    · rw [List.mem_singleton.mp hx]
      refine ⟨{ pcb with
          ttyReceiveBuffer := some
            (input.take pcb.ttyReceiveLen ++ buffer.drop (input.take pcb.ttyReceiveLen).length)
          ttyReceiveLen := (input.take pcb.ttyReceiveLen).length }, _, ?_, rfl, List.take_left⟩
      simp [Sched.serveReader, Sched.observe, updPcb_pcb, Sched.ready, updTty, hpcb]
  · rw [h.order, List.map_append, List.append_assoc]
    rfl
  · simp [Sched.serveReader, Sched.observe, Sched.updPcb, Sched.ready, updTty]
  · rw [← h.elsewhere t ht]
    simp [Sched.serveReader, Sched.observe, Sched.updPcb, Sched.ready, updTty, ht]
  · show s.readyQueue ++ [proc] = _
    rw [h.readyQueue, List.map_append, List.append_assoc]
    rfl
  · have hothers : SameReads (fun p => p ∈ (served ++ [(proc, input.take
        pcb.ttyReceiveLen)]).map Prod.fst) s₀ s :=
      h.others.mono fun p hp => by
        rw [List.map_append]
        exact List.mem_append_left _ hp
    unfold Sched.serveReader
    refine SameReads.keep (SameReads.updPcb (hothers.keep rfl) (.inl ?_) (r := proc)) rfl
    simp

/-- What `TrapTtyRecieve` does: it logs the line and what it hands over, in the order in which
it serves the readers. They become ready, and the others go on waiting. -/
structure Receives (s : Sched) (ttyId : Nat) (line : List Byte) (served : List (Pid × List Byte))
    (s' : Sched) : Prop where
  events : ∀ t, s'.inputEvents t =
    s.inputEvents t ++ if t = ttyId then .put line :: served.map (fun x => .take x.2) else []
  handed : ∀ x ∈ served, s'.Handed x.1 x.2
  order : (s.ttys ttyId).waitingToReceive
    = served.map Prod.fst ++ (s'.ttys ttyId).waitingToReceive
  elsewhere : ∀ t ≠ ttyId, (s'.ttys t).waitingToReceive = (s.ttys t).waitingToReceive
  readyQueue : s'.readyQueue = s.readyQueue ++ served.map Prod.fst
  others : SameReads (fun p => p ∈ (s.ttys ttyId).waitingToReceive) s s'

theorem trapTtyRecieve_receives {input : List Byte}
    (hnodup : (s.ttys ttyId).waitingToReceive.Nodup)
    (h : s.trapTtyRecieve ttyId input = .ok s') :
    ∃ served, s.Receives ttyId (input.take TERMINAL_MAX_LINE) served s' := by
  unfold Sched.trapTtyRecieve at h
  rcases ite_eq_ok h with ⟨-, h⟩ | ⟨-, h⟩
  · cases h
  dsimp only at h
  generalize input.take TERMINAL_MAX_LINE = line at h ⊢
  have hput : ∀ t, (s.observe (.ttyReceived ttyId line)).inputEvents t
      = s.inputEvents t ++ if t = ttyId then [.put line] else [] := by
    intro t
    rw [inputEvents_observe]
    by_cases ht : t = ttyId
    · simp [Obs.inputEvent, ht]
    · have hne : ¬ ttyId = t := fun he => ht he.symm
      simp [Obs.inputEvent, ht, hne]
  rcases ite_eq_ok h with ⟨hnone, h⟩ | ⟨-, h⟩
  · cases h
    refine ⟨[], hput, fun x hx => (by cases hx), ?_, fun t ht => ?_, (List.append_nil _).symm,
      (SameReads.refl s).keep rfl⟩
    · simp [updTty, Sched.observe]
    · simp [updTty, Sched.observe, ht]
  · obtain ⟨⟨left, s₁⟩, hserve, hrest⟩ := bind_eq_ok.mp h
    have hstart : Hands (s.observe (.ttyReceived ttyId line)) ttyId []
        (s.ttys ttyId).waitingToReceive (s.observe (.ttyReceived ttyId line)) := by
      refine ⟨fun t => ?_, fun x hx => (by cases hx), rfl, rfl, fun _ _ => rfl,
        (List.append_nil _).symm, .refl _⟩
      rw [List.map_nil, ite_self, List.append_nil]
    obtain ⟨procs, ⟨served, hhands⟩, -⟩ := serveReaders_rule
      (P := fun procs _ s₁ => ∃ served, Hands (s.observe (.ttyReceived ttyId line)) ttyId served
        procs s₁)
      (fun _ _ _ _ _ _ hs _ hpcb _ => hs.elim fun _ hs => ⟨_, hs.serveReader hnodup hpcb⟩)
      ⟨[], hstart⟩ hserve
    have hevents : ∀ t, s₁.inputEvents t = s.inputEvents t ++
        if t = ttyId then .put line :: served.map (fun x => .take x.2) else [] := by
      intro t
      rw [hhands.events, hput, List.append_assoc]
      by_cases ht : t = ttyId
      · simp only [if_pos ht]
        rfl
      · simp only [if_neg ht]
        rfl
    have hothers : SameReads (fun p => p ∈ (s.ttys ttyId).waitingToReceive) s s₁ :=
      ((SameReads.refl s).keep rfl).trans (hhands.others.mono fun p hp => by
        show p ∈ ((s.observe (.ttyReceived ttyId line)).ttys ttyId).waitingToReceive
        rw [hhands.order]
        exact List.mem_append_left _ hp)
    rcases ite_eq_ok hrest with ⟨-, hret⟩ | ⟨-, hret⟩ <;> cases hret
    · exact ⟨served, hevents, hhands.handed, hhands.waiting ▸ hhands.order, hhands.elsewhere,
        hhands.readyQueue, hothers⟩
    · refine ⟨served, hevents, hhands.handed, ?_, fun t ht => ?_, hhands.readyQueue,
        hothers.keep rfl⟩
      · simp only [updTty, if_true]
        exact hhands.waiting ▸ hhands.order
      · simp only [updTty, if_neg ht]
        exact hhands.elsewhere t ht

/-- A process waits for the input of a terminal once. -/
theorem Settled.receiveNodup {parked : Prop} (h : s.Settled parked) (ttyId : Nat) :
    (s.ttys ttyId).waitingToReceive.Nodup :=
  List.nodup_iff_count_le_one.mpr fun p => h.placed.le_one (.receive ttyId) p

/-- But for a trap of a terminal, no step adds to what the terminals have delivered. -/
theorem SchedStep.received_eq {c : Cause} (hrun : s.Running) (hstep : SchedStep s c s')
    (hc : ∀ t input, c ≠ .received t input) (t : Nat) : s'.received t = s.received t := by
  obtain ⟨part, s₁, hpart, hsame⟩ := hstep.part hrun
  have hlast : s'.received t = s₁.received t := by
    rw [received, inputEvents, hsame.events .ttyInput (by simp) (by simp), received, inputEvents]
  rw [hlast]
  by_cases hinput : part = .ttyInput
  · subst hinput
    cases hpart with
    | consumeLine _ _ _ =>
        rw [received, inputEvents_observe]
        simp only [Obs.inputEvent]
        split <;> simp [received, inputEvents, Sched.events, updTty, Lib.Stream.puts]
    | ttyReadBlock _ _ => rfl
    | ttyReceive cause _ => exact absurd cause (hc _ _)
  · rw [received, inputEvents, hpart.same.events .ttyInput (fun h => hinput h.symm) (by simp),
      received, inputEvents]

end

end Sched

open Sched

/-! ## The steps of the kernel -/

/-- What a step delivers from a terminal. -/
def Event.delivers (ttyId : Nat) : Event → List Byte
  | .trap uc env =>
    if uc.vector = TRAP_TTY_RECEIVE ∧ uc.code = ttyId then env.ttyInput.take TERMINAL_MAX_LINE
    else []
  | _ => []

section
variable {k k' : Kernel}

theorem Kernel.callCause_ne_received (t : Nat) (input : List Byte) :
    k.callCause ≠ .received t input := by
  unfold Kernel.callCause Kernel.ttyReadCause Kernel.pipeWriteCause
  dsimp only
  intro h
  repeat' split at h
  all_goals cases h

theorem Kernel.cause_of_receive {uc : UserContext} {env : Env}
    (h : uc.vector = TRAP_TTY_RECEIVE) : k.cause (.trap uc env) = .received uc.code env.ttyInput := by
  simp only [Kernel.cause, h]
  rfl

/-- The steps that come from the input of a terminal. -/
theorem Kernel.cause_received {e : Event} {t : Nat} {input : List Byte}
    (h : k.cause e = .received t input) : ∃ uc env, e = .trap uc env ∧
      uc.vector = TRAP_TTY_RECEIVE ∧ uc.code = t ∧ env.ttyInput = input := by
  cases e with
  | trap uc env =>
      unfold Kernel.cause at h
      dsimp only at h
      split at h
      · exact absurd h (Kernel.callCause_ne_received t input)
      repeat' split at h
      all_goals first | cases h; done | skip
      rename_i hvector
      cases h
      exact ⟨uc, env, rfl, hvector, rfl, rfl⟩
  | resume => cases h
  | userLoad | userStore | cachedStore => cases h
  | setKernelBrk addr => cases h

/-- A trap of a terminal that has input is `TrapTtyRecieve`. -/
theorem Step.of_receive {uc : UserContext} {env : Env} (h : uc.vector = TRAP_TTY_RECEIVE)
    (hstep : Step k (.trap uc env) k') :
    k.toSched.trapTtyRecieve uc.code env.ttyInput = .ok k'.toSched := by
  cases hstep with
  | trap mode idle run =>
      have htrap : ({ k with userContext := uc } : Kernel).trap env = (do
          let s ← k.toSched.trapTtyRecieve uc.code env.ttyInput
          return ({ k with userContext := uc } : Kernel).withSched s) := by
        unfold Kernel.trap
        simp only [h]
        rfl
      rw [htrap] at run
      obtain ⟨s, hs, hret⟩ := bind_eq_ok.mp run
      cases hret
      exact hs

/-- The steps by which a terminal receives something are the traps that deliver it. -/
theorem Step.received {e : Event} (hrun : k.toSched.Running) (hstep : Step k e k') (t : Nat) :
    k'.received t = k.received t ++ e.delivers t := by
  by_cases hc : ∃ t₀ input, k.cause e = .received t₀ input
  · obtain ⟨t₀, input, hcause⟩ := hc
    obtain ⟨uc, env, rfl, hvector, rfl, rfl⟩ := Kernel.cause_received hcause
    obtain ⟨served, hreceives⟩ :=
      Sched.trapTtyRecieve_receives (hrun.receiveNodup _) (hstep.of_receive hvector)
    rw [Sched.received, hreceives.events t, Lib.Stream.puts_append, Sched.received]
    congr 1
    by_cases ht : t = uc.code
    · simp [Event.delivers, ht, hvector]
    · have hne : ¬ uc.code = t := fun he => ht he.symm
      simp only [Event.delivers, if_neg ht, hne, and_false, if_false]
      rfl
  · rw [SchedStep.received_eq hrun hstep.sched (fun t₀ input h => hc ⟨t₀, input, h⟩)]
    cases e with
    | trap uc env =>
        have hvector : uc.vector ≠ TRAP_TTY_RECEIVE :=
          fun h => hc ⟨_, _, Kernel.cause_of_receive h⟩
        simp [Event.delivers, hvector]
    | resume => exact (List.append_nil _).symm
    | userLoad | userStore | cachedStore => exact (List.append_nil _).symm
    | setKernelBrk addr => exact (List.append_nil _).symm

/-! ## The memory of the readers -/

/-- The process is suspended in a `KernelTtyRead` into `buf`. -/
def Kernel.InTtyRead (k : Kernel) (p : Pid) (buf : Nat) : Prop :=
  ∃ a, k.pcb p = some a ∧ a.life = (true, .kernelTtyRead buf)

/-- A `KernelTtyRead` of up to `len` bytes into `buf` leaves the bytes that it takes at `buf` in
the memory of its process, and returns their number. -/
def Kernel.ReadsFromTty (k k' : Kernel) (ttyId buf : Nat) (len : Int) : Prop :=
  ∃ bytes : List Byte, (bytes.length : Int) ≤ len ∧
    k'.servedBytes ttyId = k.servedBytes ttyId ++ bytes ∧
    k'.machine.Holds k.currentProc buf bytes ∧ k'.currentProc = k.currentProc ∧
    k'.mode = .user ∧ k'.userContext.regs 0 = asUnsigned bytes.length

/-- A `KernelTtyRead` finds no line: its process waits behind the other readers. -/
def Kernel.BlocksInTtyRead (k k' : Kernel) (ttyId buf : Nat) : Prop :=
  (k.ttys ttyId).lineBuffers = [] ∧
    (k'.ttys ttyId).waitingToReceive = (k.ttys ttyId).waitingToReceive ++ [k.currentProc] ∧
    k'.servedBytes ttyId = k.servedBytes ttyId ∧ k'.mode = .kernel ∧
    k'.InTtyRead k.currentProc buf

/-- The way of the bytes from a terminal into the memory of the readers. -/
structure Kernel.InputBytes (k : Kernel) : Prop where
  received : ∀ e k', Step k e k' → ∀ t, k'.received t = k.received t ++ e.delivers t
  read : ∀ uc env k', uc.Calls YALNIX_TTY_READ → Step k (.trap uc env) k' →
    k' = ({ k with userContext := uc } : Kernel).ret ERROR ∨
      ∃ ttyId < NUM_TERMINALS, asInt (uc.regs 0) = ttyId ∧
        (k.ReadsFromTty k' ttyId (uc.regs 1) (asInt (uc.regs 2)) ∨
          k.BlocksInTtyRead k' ttyId (uc.regs 1))
  /-- The readers that wait are served in order, and become ready. -/
  handed : ∀ uc env k', uc.vector = TRAP_TTY_RECEIVE → Step k (.trap uc env) k' →
    ∃ served : List (Pid × List Byte),
      k'.servedBytes uc.code = k.servedBytes uc.code ++ served.flatMap Prod.snd ∧
      (∀ x ∈ served, k'.Handed x.1 x.2) ∧
      (k.ttys uc.code).waitingToReceive
        = served.map Prod.fst ++ (k'.ttys uc.code).waitingToReceive ∧
      k'.readyQueue = k.readyQueue ++ served.map Prod.fst
  /-- A reader that does not run stays where it is. -/
  stays : ∀ e k', Step k e k' → ∀ p buf, p ≠ k.currentProc → k.live p → k.InTtyRead p buf →
    k'.InTtyRead p buf
  /-- What a reader has been handed stays as long as it does not run. -/
  kept : ∀ e k', Step k e k' → ∀ p bytes, p ≠ k.currentProc → k.live p →
    (∀ t, p ∉ (k.ttys t).waitingToReceive) → k.Handed p bytes →
    (∀ t, p ∉ (k'.ttys t).waitingToReceive) ∧ k'.Handed p bytes
  /-- A reader that goes on copies what it has been handed to its buffer. -/
  resumed : ∀ k' buf bytes, k.mode = .kernel → k.InTtyRead k.currentProc buf →
    k.Handed k.currentProc bytes → Step k .resume k' →
    k'.machine.Holds k.currentProc buf bytes ∧ k'.currentProc = k.currentProc ∧
      k'.mode = .user ∧ k'.userContext.regs 0 = asUnsigned bytes.length

/-- The part of `KernelTtyRead` that consumes a line. -/
theorem Kernel.consumeLine_reads {ttyId buf len : Nat} {lb : LineBuffer} {rest : List LineBuffer}
    {env : Env} (hapart : k.Apart) (hlive : k.live k.currentProc = true)
    (h : k.consumeLine ttyId lb rest buf len env = .ok k') :
    k.ReadsFromTty k' ttyId buf len := by
  obtain ⟨m, hstore, hret⟩ := bind_eq_ok.mp h
  generalize hbytes : (lb.buffer ++ env.heapBehind ++ List.replicate len 0).take len = bytes
    at hstore hret
  have hlength : bytes.length = len := by
    rw [← hbytes, List.length_take, List.length_append, List.length_replicate]
    omega
  have hcopied : (lb.afterRead len).2 ≤ len := by
    unfold LineBuffer.afterRead
    split
    · exact Nat.le_refl len
    · rename_i hlong
      exact Nat.not_lt.mp hlong
  have hholds : m.Holds k.currentProc buf (bytes.take (lb.afterRead len).2) :=
    (hapart.storeBytes_holds hlive hstore).take _
  have htaken : (bytes.take (lb.afterRead len).2).length = (lb.afterRead len).2 := by
    rw [List.length_take, hlength, Nat.min_eq_left hcopied]
  generalize lb.afterRead len = read at hret hcopied hholds htaken
  obtain ⟨leftovers, copied⟩ := read
  cases hret
  refine ⟨bytes.take copied, by rw [htaken]; exact Int.ofNat_le.mpr hcopied, ?_, hholds, rfl, rfl,
    by rw [htaken]; rfl⟩
  have hevents : ((k.toSched.updTty ttyId fun t =>
      { t with lineBuffers := leftovers.toList ++ rest }).observe
        (.ttyServed ttyId k.currentProc (bytes.take copied))).inputEvents ttyId
      = k.inputEvents ttyId ++ [.take (bytes.take copied)] := by
    rw [inputEvents_observe]
    simp [Obs.inputEvent, inputEvents, Sched.events, updTty]
  show Lib.Stream.takes _ = _
  refine (congrArg Lib.Stream.takes hevents).trans ?_
  simp [Sched.servedBytes, Lib.Stream.takes]

/-- `KernelTtyRead` fails, reads at once, or blocks. -/
theorem Kernel.kernelTtyRead_cases {ttyId len : Int} {buf : Nat} {env : Env}
    (hrun : k.toSched.Running) (hapart : k.Apart)
    (h : k.kernelTtyRead ttyId buf len env = .ok k') :
    k' = k.ret ERROR ∨ ∃ t < NUM_TERMINALS, ttyId = (t : Int) ∧
      (k.ReadsFromTty k' t buf len ∨ k.BlocksInTtyRead k' t buf) := by
  have hlive := hrun.current.resolve_left id
  unfold Kernel.kernelTtyRead at h
  rcases ite_eq_ok h with ⟨-, h⟩ | ⟨hterminal, h⟩
  · cases h
    exact .inl rfl
  rcases ite_eq_ok h with ⟨-, h⟩ | ⟨hlen, h⟩
  · cases h
    exact .inl rfl
  rcases ite_eq_ok h with ⟨-, h⟩ | ⟨-, h⟩
  · cases h
    exact .inl rfl
  refine .inr ⟨ttyId.toNat, by omega, by omega, ?_⟩
  split at h
  · have hreads := Kernel.consumeLine_reads hapart hlive h
    rw [Int.toNat_of_nonneg (Int.not_lt.mp hlen)] at hreads
    exact .inl hreads
  · rename_i hnone
    have hsched := Kernel.switchToNextProc_sched h
    have hsame : SameBut .other (k.toSched.enqueueToReceive ttyId.toNat len.toNat) k'.toSched := by
      rw [hsched]
      exact (SameBut.refl _ _).switchToNextProc _
    refine .inr ⟨hnone, ?_, ?_, ?_, ?_⟩
    · rw [hsame.receive (by simp)]
      simp [enqueueToReceive, updCurrent, Sched.updPcb, updTty]
    · rw [Sched.servedBytes, inputEvents, hsame.events .ttyInput (by simp) (by simp)]
      rfl
    · rw [hsched]
      exact switchToNextProc_mode
    · obtain ⟨a, ha⟩ := Option.isSome_iff_exists.mp (Bool.and_eq_true _ _ ▸ hlive).1
      have hinit := hrun.current_initialized ha
      have hpcb : (k.toSched.enqueueToReceive ttyId.toNat len.toNat).pcb k.currentProc
          = some { a with
              ttyReceiveLen := len.toNat
              ttyReceiveBuffer := some (List.replicate len.toNat 0) } := by
        simp [enqueueToReceive, updCurrent, updPcb_pcb, updTty, ha]
      rw [Kernel.InTtyRead, hsched]
      exact switchToNextProc_suspends hpcb hinit

/-- No step makes a process wait for a terminal but the running one. -/
theorem Step.readers {e : Event} {p : Pid} (hrun : k.toSched.Running) (hstep : Step k e k')
    (hp : p ≠ k.currentProc) (t : Nat) (hnot : p ∉ (k.ttys t).waitingToReceive) :
    p ∉ (k'.ttys t).waitingToReceive := by
  obtain ⟨part, s₁, hpart, hsame⟩ := hstep.sched.part hrun
  rw [hsame.receive (by simp)]
  by_cases hinput : part = .ttyInput
  · subst hinput
    cases hpart with
    | @consumeLine ttyId _ _ _ _ _ _ =>
        by_cases ht : t = ttyId <;> simpa [observe, updTty, ht] using hnot
    | @ttyReadBlock ttyId _ _ _ =>
        by_cases ht : t = ttyId
        · subst ht
          simp [enqueueToReceive, updCurrent, Sched.updPcb, updTty, hnot, hp]
        · simpa [enqueueToReceive, updCurrent, Sched.updPcb, updTty, ht] using hnot
    | @ttyReceive ttyId input _ _ run =>
        obtain ⟨served, hreceives⟩ := Sched.trapTtyRecieve_receives (hrun.receiveNodup _) run
        by_cases ht : t = ttyId
        · subst ht
          rw [hreceives.order] at hnot
          exact fun hmem => hnot (List.mem_append_right _ hmem)
        · rw [hreceives.elsewhere t ht]
          exact hnot
  · rw [hpart.same.receive hinput]
    exact hnot

/-- A process that does not run and does not wait for a terminal has received the same after
the step. -/
theorem Step.keepsHanded {e : Event} {p : Pid} {bytes : List Byte} (hrun : k.toSched.Running)
    (hstep : Step k e k') (hp : p ≠ k.currentProc) (hlive' : k'.live p)
    (hnot : ∀ t, p ∉ (k.ttys t).waitingToReceive) (h : k.Handed p bytes) : k'.Handed p bytes := by
  obtain ⟨a, buffer, ha, hreceive, htake⟩ := h
  obtain ⟨a', ha'⟩ := Option.isSome_iff_exists.mp (Bool.and_eq_true _ _ ▸ hlive').1
  obtain ⟨changed, hchanged, hsame⟩ : ∃ changed : Pid → Prop, ¬ changed p ∧
      Sched.SameReads changed k.toSched k'.toSched := by
    by_cases hc : ∃ t input, k.cause e = .received t input
    · obtain ⟨t, input, hcause⟩ := hc
      obtain ⟨uc, env, rfl, hvector, rfl, rfl⟩ := Kernel.cause_received hcause
      obtain ⟨served, hreceives⟩ :=
        Sched.trapTtyRecieve_receives (hrun.receiveNodup _) (hstep.of_receive hvector)
      exact ⟨_, hnot uc.code, hreceives.others⟩
    · refine ⟨_, ?_, SchedStep.sameReads hstep.sched fun t input he =>
        hc ⟨t, input, he⟩⟩
      rintro (he | he)
      · exact hp he
      · exact absurd (he ▸ hrun.pcbLt p (by rw [ha]; rfl)) (Nat.lt_irrefl _)
  obtain ⟨a₀, ha₀, hsame⟩ := hsame p a' hchanged ha'
  cases ha.symm.trans ha₀
  exact ⟨a', buffer, ha', hsame ▸ hreceive, htake⟩

/-- A step leaves a process alive that does not run. -/
theorem Step.live_of_ne {e : Event} {p : Pid} (hfam : k.toSched.FamilyInv)
    (hrun : k.toSched.Running) (hstep : Step k e k') (hp : p ≠ k.currentProc)
    (hlive : k.live p = true) : k'.live p = true :=
  ((SchedStep.kin hstep.sched).live hfam hrun).1 hlive hp

end

/-- In every state of every run, the bytes of a terminal reach the memory of the readers. -/
theorem reachable_inputBytes {b : BootImage} {k : Kernel} (h : Reachable b k) : k.InputBytes := by
  obtain ⟨⟨-, hrun⟩, hfam⟩ := reachable_familyInv h
  have hapart := reachable_apart h
  constructor
  case received => exact fun e k' hstep t => hstep.received hrun t
  case read =>
    intro uc env k' hcall hstep
    obtain ⟨-, run⟩ := hstep.of_call hcall
    unfold Kernel.trapKernel at run
    simp only [hcall.2] at run
    exact Kernel.kernelTtyRead_cases (k := { k with userContext := uc }) hrun
      ⟨hapart.isolated, hapart.ptbr1⟩ run
  case handed =>
    intro uc env k' hvector hstep
    obtain ⟨served, hreceives⟩ :=
      Sched.trapTtyRecieve_receives (hrun.receiveNodup _) (hstep.of_receive hvector)
    refine ⟨served, ?_, hreceives.handed, hreceives.order, hreceives.readyQueue⟩
    rw [Sched.servedBytes, hreceives.events uc.code, if_pos rfl, Lib.Stream.takes_append,
      Lib.Stream.takes_put_cons, Lib.Stream.takes_map_take]
    rfl
  case stays =>
    intro e k' hstep p buf hp hlive hread
    obtain ⟨a, ha, hlife⟩ := hread
    obtain ⟨a', ha'⟩ := Option.isSome_iff_exists.mp
      (Bool.and_eq_true _ _ ▸ hstep.live_of_ne hfam hrun hp hlive).1
    exact ⟨a', ha', (hstep.life hrun hp ha (congrArg Prod.fst hlife) ha').trans hlife⟩
  case kept =>
    intro e k' hstep p bytes hp hlive hnot hhanded
    exact ⟨fun t => hstep.readers hrun hp t (hnot t),
      hstep.keepsHanded hrun hp (hstep.live_of_ne hfam hrun hp hlive) hnot hhanded⟩
  case resumed =>
    intro k' buf bytes mode hread hhanded hstep
    obtain ⟨a, ha, hlife⟩ := hread
    obtain ⟨a₁, buffer, ha₁, hreceive, htake⟩ := hhanded
    cases ha.symm.trans ha₁
    have hcontext : a.kernelContext = .kernelTtyRead buf := congrArg Prod.snd hlife
    have hentry : k.toSched.ResumesIn (.kernelTtyRead buf) := ⟨mode, by rw [ha]; exact hcontext⟩
    obtain ⟨hresumes, run⟩ := hstep.of_resume hentry
    have hpcb : k.restoreUserContext.currentPcb = a := by
      show (k.pcb k.currentProc).getD {} = a
      rw [ha]
      rfl
    simp only [Kernel.resume, hresumes] at run
    obtain ⟨m, hstore, hret⟩ := bind_eq_ok.mp run
    cases hret
    have hbuffer : a.ttyReceiveBuffer = some buffer := congrArg Prod.fst hreceive
    have hlen : a.ttyReceiveLen = bytes.length := congrArg Prod.snd hreceive
    rw [hpcb, hbuffer, hlen, Option.getD_some, htake] at hstore
    refine ⟨Kernel.Apart.storeBytes_holds (k := k.restoreUserContext)
      ⟨hapart.isolated, hapart.ptbr1⟩ (hrun.current.resolve_left id) hstore, rfl, rfl, ?_⟩
    have hresult : asUnsigned k.restoreUserContext.currentPcb.ttyReceiveLen
        = asUnsigned bytes.length := by
      rw [hpcb, hlen]
    exact hresult

/-- In a run whose reads have kept their leftovers, no byte of a terminal was lost or
repeated. The next step loses and repeats none exactly when it keeps its leftovers. What the
steps count as received is what the traps deliver, and what they count as served reaches the
memory of the readers. -/
theorem tty_input_lossless_iff {b : BootImage} {k : Kernel}
    (h : ReachableWhen KeepsLeftovers b k) :
    k.toSched.InputLossless ∧
      (∀ e k', Step k e k' → (k'.toSched.InputLossless ↔ KeepsLeftovers k e)) ∧
      k.InputBytes := by
  obtain ⟨⟨hobj, hrun⟩, hinput⟩ := reachable_inputInv h
  refine ⟨hinput.lossless, fun e k' hstep => ⟨hstep.keepsLeftovers hinput, fun hkeeps => ?_⟩,
    reachable_inputBytes h.reachable⟩
  exact (SchedStep.inputInv hinput hrun hkeeps hstep.sched).lossless

/-- A terminal has a line for the kernel. -/
def ttyLine (ttyId : Nat) (line : List Byte) : Event :=
  .trap { vector := TRAP_TTY_RECEIVE, code := ttyId } { ttyInput := line }

/-- Terminal 0 delivers two bytes, and init reads them, `len` bytes at first. -/
def readTwice (len : Nat) : List Event := initRuns ++
  [ttyLine 0 [97, 98], systemCall YALNIX_TTY_READ 0 stackBuffer len,
    systemCall YALNIX_TTY_READ 0 stackBuffer 2]

/-- A reader that asks for one of two bytes gets the same byte again. -/
theorem tty_input_repeats : ∃ k, Kernel.run smallImage (readTwice 1) = some k ∧
    Reachable smallImage k ∧ k.toSched.received 0 = [97, 98] ∧
    k.toSched.servedBytes 0 = [97, 97] ∧ ¬ k.toSched.InputLossless := by
  have hsome : ((Kernel.run smallImage (readTwice 1)).map fun k =>
      (k.toSched.received 0, k.toSched.servedBytes 0, k.toSched.stored 0))
        = some ([97, 98], [97, 97], []) := by decide +kernel
  obtain ⟨k, hrun, heq⟩ := Option.map_eq_some_iff.mp hsome
  simp only [Prod.mk.injEq] at heq
  refine ⟨k, hrun, .of_run hrun, heq.1, heq.2.1, fun hlossless => ?_⟩
  have hbytes := (hlossless 0).1
  rw [heq.1, heq.2.1, heq.2.2] at hbytes
  exact absurd hbytes (by decide)

/-- Init reads a line that has been stored, and then waits for the next one. -/
def readBoth : List Event := initRuns ++
  [ttyLine 0 [97, 98], systemCall YALNIX_TTY_READ 0 stackBuffer 2,
    systemCall YALNIX_TTY_READ 0 (stackBuffer + 8) 3, .resume, ttyLine 0 [99, 100], clockTick,
    .resume]

/-- A reader that asks for whole lines gets every byte once, at once or after it has waited,
and finds them in its memory. -/
theorem tty_input_lossless_iff_whole : ∃ k,
    Kernel.runWhen KeepsLeftovers smallImage readBoth = some k ∧
    k.toSched.received 0 = [97, 98, 99, 100] ∧ k.toSched.servedBytes 0 = [97, 98, 99, 100] ∧
    k.machine.Holds INIT_PID stackBuffer [97, 98] ∧
    k.machine.Holds INIT_PID (stackBuffer + 8) [99, 100] ∧ k.userContext.regs 0 = 2 ∧
    k.toSched.InputLossless ∧ k.InputBytes := by
  have hsome : ((Kernel.runWhen KeepsLeftovers smallImage readBoth).map fun k =>
      (k.toSched.received 0, k.toSched.servedBytes 0,
        decide (k.machine.Holds INIT_PID stackBuffer [97, 98]),
        decide (k.machine.Holds INIT_PID (stackBuffer + 8) [99, 100]), k.userContext.regs 0))
        = some ([97, 98, 99, 100], [97, 98, 99, 100], true, true, 2) := by decide +kernel
  obtain ⟨k, hrun, heq⟩ := Option.map_eq_some_iff.mp hsome
  simp only [Prod.mk.injEq] at heq
  obtain ⟨hreceived, hserved, hfirst, hsecond, hresult⟩ := heq
  obtain ⟨hlossless, -, hbytes⟩ := tty_input_lossless_iff (.of_run hrun)
  exact ⟨k, hrun, hreceived, hserved, of_decide_eq_true hfirst, of_decide_eq_true hsecond, hresult,
    hlossless, hbytes⟩

end Theynix
