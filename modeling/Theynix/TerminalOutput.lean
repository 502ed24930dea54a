import Theynix.Lib.Transmitter
import Theynix.Footprint
import Theynix.UserBytes

/-!
# `Theynix.TerminalOutput`: the output of a terminal

`KernelTtyWriteInternal` puts the process into the queue of the terminal and, when it is the
only one there, transmits its first line. `TrapTtyTransmit` transmits the next line of the
first process or, when there is none, makes the process ready and begins with the next one.
Together they are a transmitter: the queue of the terminal, with what each process has left,
is its queue, and the terminal is busy exactly while somebody waits.

* `tty_output_served`: in every state of every run, what a terminal was given and has
  reported is the services of the writes to it, one after the other, as far as they have
  come; a process waits until its write is done, and then becomes ready.
-/

set_option autoImplicit false

namespace Theynix

open Theynix.Lib (bind_eq_ok ite_eq_ok TransmitEvent Transmitter)

/-! ## The transmitter of a terminal -/

/-- What an event means to the output of a terminal. -/
def Obs.outputEvent (ttyId : Nat) : Obs → Option (TransmitEvent Pid Byte)
  | .ttyWritten t p bytes => if t = ttyId then some (.write p bytes) else none
  | .ttyTransmit t chunk => if t = ttyId then some (.send chunk) else none
  | .ttyTransmitted t => if t = ttyId then some .sent else none
  | .ttyFinished t p => if t = ttyId then some (.done p) else none
  | _ => none

namespace Sched

/-- What has happened to the output of a terminal, oldest first. -/
def outputEvents (s : Sched) (ttyId : Nat) : List (TransmitEvent Pid Byte) :=
  (s.events .ttyOutput).filterMap (Obs.outputEvent ttyId)

/-- What a process has left to transmit: `tty_transmit_buffer` from `tty_transmit_pointer`. -/
def unsent (s : Sched) (p : Pid) : List Byte :=
  ((s.transmit p).map fun x => x.2.1.drop x.2.2).getD []

/-- The queue of a terminal, with what each process has left to transmit. While it is not
empty, the terminal transmits. -/
def transmitter (s : Sched) (ttyId : Nat) : Transmitter Pid Byte where
  queue := (s.ttys ttyId).waitingToTransmit.map fun p => (p, s.unsent p)
  phase := if (s.ttys ttyId).waitingToTransmit = [] then .idle else .busy

/-- `tty_transmit_len` is the length of what is left. -/
def Measured (s : Sched) (p : Pid) : Prop :=
  ∃ x, s.transmit p = some x ∧ x.1 = (x.2.1.drop x.2.2).length

/-- The invariant: each terminal is a transmitter. -/
structure OutputInv (s : Sched) : Prop where
  measured : ∀ t, ∀ p ∈ (s.ttys t).waitingToTransmit, s.Measured p
  run : ∀ t, Transmitter.run TERMINAL_MAX_LINE {} (s.outputEvents t) = some (s.transmitter t)

section
variable {s s' : Sched}

/-- Events that are about something else mean nothing to the output. -/
theorem outputEvents_eq (t : Nat) : s.outputEvents t = s.history.filterMap (Obs.outputEvent t) := by
  rw [outputEvents, events, List.filterMap_filter]
  refine List.filterMap_congr fun o _ => ?_
  cases o <;> rfl

theorem outputEvents_append {t : Nat} {os : List Obs} (h : s'.history = s.history ++ os) :
    s'.outputEvents t = s.outputEvents t ++ os.filterMap (Obs.outputEvent t) := by
  rw [outputEvents_eq, h, List.filterMap_append, ← outputEvents_eq]

theorem unsent_congr {p : Pid} (h : s'.transmit p = s.transmit p) :
    s'.unsent p = s.unsent p := by
  rw [unsent, h, unsent]

theorem Measured.congr {p : Pid} (hp : s.Measured p) (h : s'.transmit p = s.transmit p) :
    s'.Measured p := by
  rw [Measured, h]
  exact hp

/-- The transmitter depends on the queue and on what those in it have left. -/
theorem transmitter_congr {t : Nat}
    (hqueue : (s'.ttys t).waitingToTransmit = (s.ttys t).waitingToTransmit)
    (hunsent : ∀ p ∈ (s.ttys t).waitingToTransmit, s'.transmit p = s.transmit p) :
    s'.transmitter t = s.transmitter t := by
  have hmap : (s.ttys t).waitingToTransmit.map (fun p => (p, s'.unsent p))
      = (s.ttys t).waitingToTransmit.map fun p => (p, s.unsent p) :=
    List.map_congr_left fun p hp => by rw [unsent_congr (hunsent p hp)]
  rw [transmitter, hqueue, hmap, transmitter]

/-- A step that touches another part. -/
theorem OutputInv.same (h : s.OutputInv) {part : Part} (hs : SameBut part s s')
    (hpart : part ≠ .ttyOutput) : s'.OutputInv := by
  have hqueue := hs.writers hpart
  refine ⟨fun t p hp => ?_, fun t => ?_⟩
  · have hwaits : p ∈ (s.ttys t).waitingToTransmit := hqueue t ▸ hp
    exact (h.measured t p hwaits).congr (hs.transmit hpart t p hwaits)
  · rw [outputEvents, hs.events .ttyOutput hpart.symm (by simp),
      transmitter_congr (hqueue t) (hs.transmit hpart t)]
    exact h.run t

/-- A change to one terminal, with what happens to it. -/
theorem OutputInv.change (h : s.OutputInv) (t : Nat) (os : List Obs)
    (hhistory : s'.history = s.history ++ os)
    (habout : ∀ u, u ≠ t → os.filterMap (Obs.outputEvent u) = [])
    (hothers : ∀ u, u ≠ t → (s'.ttys u).waitingToTransmit = (s.ttys u).waitingToTransmit ∧
      ∀ p ∈ (s.ttys u).waitingToTransmit, s'.transmit p = s.transmit p)
    (hmeasured : ∀ p ∈ (s'.ttys t).waitingToTransmit, s'.Measured p)
    (hrun : Transmitter.run TERMINAL_MAX_LINE (s.transmitter t) (os.filterMap (Obs.outputEvent t))
      = some (s'.transmitter t)) : s'.OutputInv := by
  refine ⟨fun u p hp => ?_, fun u => ?_⟩
  · by_cases hu : u = t
    · exact hmeasured p (hu ▸ hp)
    · obtain ⟨hqueue, htransmit⟩ := hothers u hu
      rw [hqueue] at hp
      exact (h.measured u p hp).congr (htransmit p hp)
  · rw [outputEvents_append hhistory]
    by_cases hu : u = t
    · rw [hu]
      exact (Transmitter.run_append (h.run t)).trans hrun
    · obtain ⟨hqueue, htransmit⟩ := hothers u hu
      rw [habout u hu, List.append_nil, transmitter_congr hqueue htransmit]
      exact h.run u

/-! ## Writing -/

theorem transmit_eq_some {p : Pid} {x : Nat × List Byte × Nat} (h : s.transmit p = some x) :
    ∃ a, s.pcb p = some a ∧ a.transmit = x :=
  Option.map_eq_some_iff.mp h

theorem enqueueToTransmit_writers (ttyId : Nat) (bytes : List Byte) (t : Nat) :
    ((s.enqueueToTransmit ttyId bytes).ttys t).waitingToTransmit
      = (s.ttys t).waitingToTransmit ++ if t = ttyId then [s.currentProc] else [] := by
  unfold enqueueToTransmit
  dsimp only
  split
  · by_cases ht : t = ttyId <;> simp [observe, updTty, updCurrent, updPcb, ht]
  · by_cases ht : t = ttyId <;> simp [observe, updTty, updCurrent, updPcb, ht]

theorem enqueueToTransmit_transmit (ttyId : Nat) (bytes : List Byte) (p : Pid) :
    (s.enqueueToTransmit ttyId bytes).transmit p
      = if p = s.currentProc then (s.pcb p).map fun _ => (bytes.length, bytes, 0)
        else s.transmit p := by
  have hupd : ∀ s₁ : Sched, s₁.pcb = (s.updCurrent fun a =>
      { a with
        ttyTransmitLen := bytes.length, ttyTransmitBuffer := bytes,
        ttyTransmitPointer := 0 }).pcb → s₁.transmit p
      = if p = s.currentProc then (s.pcb p).map fun _ => (bytes.length, bytes, 0)
        else s.transmit p := by
    intro s₁ hpcb
    rw [transmit, hpcb]
    refine transmit_updPcb.trans ?_
    by_cases hp : p = s.currentProc
    · simp only [hp, if_true]
      rfl
    · simp only [hp, if_false]
      rfl
  unfold enqueueToTransmit
  dsimp only
  split
  · exact hupd _ rfl
  · exact hupd _ rfl

theorem enqueueToTransmit_history (ttyId : Nat) (bytes : List Byte) :
    (s.enqueueToTransmit ttyId bytes).history = s.history ++
      .ttyWritten ttyId s.currentProc bytes ::
        (if (s.ttys ttyId).waitingToTransmit = [] then
          [.ttyTransmit ttyId (bytes.take TERMINAL_MAX_LINE)] else []) := by
  unfold enqueueToTransmit
  dsimp only
  simp only [List.isEmpty_iff]
  split
  · rename_i hnil
    rw [if_pos (show (s.ttys ttyId).waitingToTransmit = [] from hnil)]
    exact List.append_assoc _ _ _
  · rename_i hne
    rw [if_neg (show ¬ (s.ttys ttyId).waitingToTransmit = [] from hne)]
    rfl

/-- `KernelTtyWriteInternal` is a write, whose first piece is sent when there is no other. -/
theorem OutputInv.enqueueToTransmit (h : s.OutputInv) (ttyId : Nat) (bytes : List Byte)
    (hpcb : (s.pcb s.currentProc).isSome)
    (hcur : ∀ t, s.currentProc ∉ (s.ttys t).waitingToTransmit) :
    (s.enqueueToTransmit ttyId bytes).OutputInv := by
  obtain ⟨a, ha⟩ := Option.isSome_iff_exists.mp hpcb
  have hsame : ∀ t, ∀ p ∈ (s.ttys t).waitingToTransmit,
      (s.enqueueToTransmit ttyId bytes).transmit p = s.transmit p := by
    intro t p hp
    have hne : p ≠ s.currentProc := fun he => hcur t (he ▸ hp)
    rw [enqueueToTransmit_transmit, if_neg hne]
  have hcurrent : (s.enqueueToTransmit ttyId bytes).transmit s.currentProc
      = some (bytes.length, bytes, 0) := by
    rw [enqueueToTransmit_transmit, if_pos rfl, ha]
    rfl
  have hqueue : (s.enqueueToTransmit ttyId bytes).transmitter ttyId
      = { queue := (s.transmitter ttyId).queue ++ [(s.currentProc, bytes)], phase := .busy } := by
    have hmap : (s.ttys ttyId).waitingToTransmit.map
        (fun p => (p, (s.enqueueToTransmit ttyId bytes).unsent p))
        = (s.transmitter ttyId).queue :=
      List.map_congr_left fun p hp => by rw [unsent_congr (hsame ttyId p hp)]
    have hunsent : (s.enqueueToTransmit ttyId bytes).unsent s.currentProc = bytes := by
      rw [unsent, hcurrent]
      rfl
    rw [transmitter, enqueueToTransmit_writers, if_pos rfl, List.map_append, hmap,
      List.map_singleton, hunsent, if_neg (by simp)]
  refine h.change ttyId _ (enqueueToTransmit_history ttyId bytes) (fun u hu => ?_)
    (fun u hu => ⟨?_, hsame u⟩) (fun p hp => ?_) ?_
  · have hne : ¬ ttyId = u := fun he => hu he.symm
    split <;> simp [Obs.outputEvent, hne]
  · rw [enqueueToTransmit_writers, if_neg hu, List.append_nil]
  · rw [enqueueToTransmit_writers, if_pos rfl] at hp
    rcases List.mem_append.mp hp with hp | hp
    · exact (h.measured ttyId p hp).congr (hsame ttyId p hp)
    · rw [List.mem_singleton.mp hp]
      exact ⟨_, hcurrent, rfl⟩
  · rw [hqueue]
    by_cases hnil : (s.ttys ttyId).waitingToTransmit = []
    · have hidle : s.transmitter ttyId = {} := by rw [transmitter, hnil]; rfl
      rw [if_pos hnil, hidle]
      simpa [Obs.outputEvent] using Transmitter.run_write_first
    · have hbusy : (s.transmitter ttyId).phase = .busy := by rw [transmitter, if_neg hnil]
      rw [if_neg hnil]
      simp [Obs.outputEvent, Transmitter.run, Transmitter.step, hbusy]

/-! ## The trap of a terminal that has transmitted -/

/-- The next piece of a process is the start of what it has left. -/
theorem transmitNext_eq {p : Pid} (h : s.Measured p) (ttyId : Nat) :
    s.transmitNext ttyId p
      = s.observe (.ttyTransmit ttyId ((s.unsent p).take TERMINAL_MAX_LINE)) := by
  obtain ⟨x, hx, hlen⟩ := h
  obtain ⟨a, ha, rfl⟩ := transmit_eq_some hx
  have hunsent : s.unsent p = a.ttyTransmitBuffer.drop a.ttyTransmitPointer := by
    rw [unsent, hx]
    rfl
  have hlength : a.ttyTransmitLen = (s.unsent p).length := by
    rw [hunsent]
    exact hlen
  rw [transmitNext, ha]
  dsimp only
  rw [← hunsent, hlength, ← List.take_eq_take_min]

/-- The first process of a terminal, and what the others have left. -/
theorem transmitter_cons {t : Nat} {proc : Pid} {rest : List Pid}
    (hqueue : (s.ttys t).waitingToTransmit = proc :: rest) :
    s.transmitter t =
      { queue := (proc, s.unsent proc) :: rest.map (fun p => (p, s.unsent p)), phase := .busy } := by
  rw [transmitter, hqueue]
  rfl

/-- The first process has more than a line left, of which the next line is transmitted. -/
theorem OutputInv.advance (h : s.OutputInv) {ttyId : Nat} {proc : Pid} {rest : List Pid}
    {pcb : PCB} (waiting : (s.ttys ttyId).waitingToTransmit = proc :: rest)
    (first : s.pcb proc = some pcb) (long : pcb.ttyTransmitLen > TERMINAL_MAX_LINE)
    (hrest : proc ∉ rest) (hothers : ∀ t, t ≠ ttyId → proc ∉ (s.ttys t).waitingToTransmit) :
    ((s.advanceTransmit ttyId proc).transmitNext ttyId proc).OutputInv := by
  -- What the first process has left, before and after.
  have hproc : s.transmit proc
      = some (pcb.ttyTransmitLen, pcb.ttyTransmitBuffer, pcb.ttyTransmitPointer) := by
    rw [transmit, first]
    rfl
  have hunsent : s.unsent proc = pcb.ttyTransmitBuffer.drop pcb.ttyTransmitPointer := by
    rw [unsent, hproc]
    rfl
  have hlength : pcb.ttyTransmitLen = (s.unsent proc).length := by
    obtain ⟨x, hx, hlen⟩ := h.measured ttyId proc (waiting ▸ List.mem_cons_self)
    rw [hproc] at hx
    cases hx
    rw [hunsent]
    exact hlen
  have hproc' : (s.advanceTransmit ttyId proc).transmit proc
      = some (pcb.ttyTransmitLen - TERMINAL_MAX_LINE, pcb.ttyTransmitBuffer,
        pcb.ttyTransmitPointer + TERMINAL_MAX_LINE) := by
    rw [advanceTransmit, transmit_updPcb]
    show (s.pcb proc).map _ = _
    rw [first, Option.map_some, if_pos rfl]
    rfl
  have hunsent' : (s.advanceTransmit ttyId proc).unsent proc
      = (s.unsent proc).drop TERMINAL_MAX_LINE := by
    rw [unsent, hproc', hunsent, List.drop_drop]
    rfl
  have hmeasured : (s.advanceTransmit ttyId proc).Measured proc := by
    refine ⟨_, hproc', ?_⟩
    show pcb.ttyTransmitLen - TERMINAL_MAX_LINE
      = (pcb.ttyTransmitBuffer.drop (pcb.ttyTransmitPointer + TERMINAL_MAX_LINE)).length
    rw [hlength, hunsent, List.length_drop, List.length_drop]
    omega
  -- The others have the same left.
  have hsame : ∀ p, p ≠ proc → (s.advanceTransmit ttyId proc).transmit p = s.transmit p := by
    intro p hp
    rw [advanceTransmit, transmit_updPcb]
    simp only [if_neg hp]
    rfl
  rw [transmitNext_eq hmeasured]
  refine h.change ttyId [.ttyTransmitted ttyId,
    .ttyTransmit ttyId (((s.advanceTransmit ttyId proc).unsent proc).take TERMINAL_MAX_LINE)]
    (List.append_assoc _ _ _) (fun u hu => ?_) (fun u hu => ⟨rfl, fun p hp => ?_⟩)
    (fun p hp => ?_) ?_
  · have hne : ¬ ttyId = u := fun he => hu he.symm
    simp [Obs.outputEvent, hne]
  · exact hsame p fun he => hothers u hu (he ▸ hp)
  · by_cases hp' : p = proc
    · rw [hp']
      exact hmeasured
    · exact (h.measured ttyId p hp).congr (hsame p hp')
  · have hafter : ((s.advanceTransmit ttyId proc).observe (.ttyTransmit ttyId
          (((s.advanceTransmit ttyId proc).unsent proc).take TERMINAL_MAX_LINE))).transmitter ttyId
        = { queue := (proc, (s.unsent proc).drop TERMINAL_MAX_LINE) ::
              rest.map (fun p => (p, s.unsent p)), phase := .busy } := by
      have hmap : rest.map (fun p => (p, (s.advanceTransmit ttyId proc).unsent p))
          = rest.map fun p => (p, s.unsent p) :=
        List.map_congr_left fun p hp => by
          rw [unsent_congr (hsame p fun he => hrest (he ▸ hp))]
      rw [← hunsent', ← hmap]
      refine Eq.trans (transmitter_cons ?_) rfl
      exact waiting
    rw [hafter, transmitter_cons waiting, hunsent']
    have hlong : TERMINAL_MAX_LINE < (s.unsent proc).length := hlength ▸ long
    simpa [Obs.outputEvent] using Transmitter.run_sent_more hlong

theorem finishTransmit_writers (ttyId : Nat) (proc : Pid) (rest : List Pid) (t : Nat) :
    ((s.finishTransmit ttyId proc rest).ttys t).waitingToTransmit
      = if t = ttyId then rest else (s.ttys t).waitingToTransmit := by
  by_cases ht : t = ttyId <;> simp [finishTransmit, observe, ready, updTty, ht]

/-- The last line of the first process has been transmitted. It becomes ready, and the next
one begins. -/
theorem OutputInv.finish (h : s.OutputInv) {ttyId : Nat} {proc : Pid} {rest : List Pid}
    {pcb : PCB} (waiting : (s.ttys ttyId).waitingToTransmit = proc :: rest)
    (first : s.pcb proc = some pcb) (short : pcb.ttyTransmitLen ≤ TERMINAL_MAX_LINE)
    {os : List Obs} (hhistory : s'.history = (s.finishTransmit ttyId proc rest).history ++ os)
    (hsame : s'.ttys = (s.finishTransmit ttyId proc rest).ttys ∧ s'.pcb = s.pcb)
    (hos : os = rest.head?.toList.map fun next =>
      .ttyTransmit ttyId ((s.unsent next).take TERMINAL_MAX_LINE)) : s'.OutputInv := by
  obtain ⟨httys, hpcb⟩ := hsame
  have htransmit : ∀ p, s'.transmit p = s.transmit p := fun p => by rw [transmit, hpcb, transmit]
  have hshort : (s.unsent proc).length ≤ TERMINAL_MAX_LINE := by
    obtain ⟨x, hx, hlen⟩ := h.measured ttyId proc (waiting ▸ List.mem_cons_self)
    obtain ⟨a, ha, rfl⟩ := transmit_eq_some hx
    rw [first] at ha
    cases ha
    rw [unsent, hx]
    exact hlen ▸ short
  have hrest : ∀ p ∈ rest, p ∈ (s.ttys ttyId).waitingToTransmit := fun p hp => by
    rw [waiting]
    exact List.mem_cons_of_mem _ hp
  have hafter : s'.transmitter ttyId
      = { queue := rest.map fun p => (p, s.unsent p),
          phase := if rest = [] then .idle else .busy } := by
    have hmap : rest.map (fun p => (p, s'.unsent p)) = rest.map fun p => (p, s.unsent p) :=
      List.map_congr_left fun p _ => by rw [unsent_congr (htransmit p)]
    rw [transmitter, httys, finishTransmit_writers, if_pos rfl, hmap]
  refine h.change ttyId (.ttyTransmitted ttyId :: .ttyFinished ttyId proc :: os) ?_
    (fun u hu => ?_) (fun u hu => ⟨?_, fun p _ => htransmit p⟩) (fun p hp => ?_) ?_
  · rw [hhistory]
    show ((s.history ++ [_]) ++ [_]) ++ os = _
    rw [List.append_assoc, List.append_assoc]
    rfl
  · have hne : ¬ ttyId = u := fun he => hu he.symm
    subst hos
    cases rest <;> simp [Obs.outputEvent, hne]
  · rw [httys, finishTransmit_writers, if_neg hu]
  · rw [httys, finishTransmit_writers, if_pos rfl] at hp
    exact (h.measured ttyId p (hrest p hp)).congr (htransmit p)
  · rw [hafter, transmitter_cons waiting, hos]
    cases rest with
    | nil =>
        have hrun : Transmitter.run TERMINAL_MAX_LINE
            { queue := [(proc, s.unsent proc)], phase := .busy } [.sent, .done proc]
            = some { queue := [] } := Transmitter.run_sent_last hshort
        simpa [Obs.outputEvent] using hrun
    | cons next rest =>
        simpa [Obs.outputEvent] using Transmitter.run_sent_next (q := next) hshort

/-- A process that waits for a terminal is in its queue once, and in no other. -/
theorem Settled.writer {parked : Prop} (h : s.Settled parked) {t : Nat} {p : Pid}
    (hp : p ∈ (s.ttys t).waitingToTransmit) :
    s.occ (.transmit t) p = 1 ∧ ∀ q, q ≠ .transmit t → s.occ q p = 0 := by
  have hocc : s.occ (.transmit t) p ≠ 0 := Nat.pos_iff_ne_zero.mp (List.count_pos_iff.mpr hp)
  exact h.placed.unique hocc

/-- `TrapTtyTransmit`, of a terminal whose processes wait for nothing else. -/
theorem OutputInv.trapTtyTransmit (h : s.OutputInv) (hrun : s.Running) {ttyId : Nat}
    (hok : s.trapTtyTransmit ttyId = .ok s') : s'.OutputInv := by
  cases trapTtyTransmit_cases hok with
  | @advance proc rest pcb waiting first long =>
      have hmem : proc ∈ (s.ttys ttyId).waitingToTransmit := waiting ▸ List.mem_cons_self
      obtain ⟨honce, hnowhere⟩ := hrun.writer hmem
      refine h.advance waiting first long (fun hrest => ?_) fun t ht hwaits => ?_
      · have htwice : (proc :: rest).count proc = 1 := waiting ▸ honce
        rw [List.count_cons_self] at htwice
        have hpos := List.count_pos_iff.mpr hrest
        omega
      · have hzero := hnowhere (.transmit t) (by simpa using ht)
        exact absurd (List.count_pos_iff.mpr hwaits) (Nat.not_lt.mpr (Nat.le_of_eq hzero))
  | @last proc pcb waiting first short =>
      have hhistory : (s.finishTransmit ttyId proc []).history
          = (s.finishTransmit ttyId proc []).history ++ [] := (List.append_nil _).symm
      exact h.finish waiting first short hhistory ⟨rfl, rfl⟩ rfl
  | @finish proc next rest pcb waiting first short =>
      have hnext : s.Measured next := h.measured ttyId next (by rw [waiting]; simp)
      have hmeasured : (s.finishTransmit ttyId proc (next :: rest)).Measured next :=
        hnext.congr rfl
      rw [transmitNext_eq hmeasured]
      exact h.finish waiting first short rfl ⟨rfl, rfl⟩ rfl

/-- Who is running waits for no terminal. -/
theorem Settled.not_writer (h : s.Running) (t : Nat) :
    s.currentProc ∉ (s.ttys t).waitingToTransmit := by
  intro hp
  have hzero : s.occ (.transmit t) s.currentProc = 0 :=
    h.placed.nowhere (fun hi => (hi.2.2.resolve_left id) rfl) _
  exact absurd (List.count_pos_iff.mpr hp) (Nat.not_lt.mpr (Nat.le_of_eq hzero))

end

end Sched

open Sched

section
variable {s s' : Sched}

/-- Every step keeps the terminals transmitters. -/
theorem SchedStep.outputInv {c : Cause} (h : s.OutputInv) (hrun : s.Running)
    (hstep : SchedStep s c s') : s'.OutputInv := by
  obtain ⟨part, s₁, hpart, hsame⟩ := hstep.part hrun
  refine OutputInv.same ?_ hsame (by simp)
  by_cases hout : part = .ttyOutput
  · subst hout
    cases hpart with
    | ttyOutput same output =>
        cases output with
        | write calls =>
            have hlive := hrun.current.resolve_left id
            exact h.enqueueToTransmit _ _ (Bool.and_eq_true _ _ ▸ hlive).1 hrun.not_writer
        | transmitted cause run => exact h.trapTtyTransmit hrun run
  · exact h.same hpart.same hout

theorem bootSched_outputInv : Kernel.bootSched.OutputInv :=
  ⟨fun _ _ hp => (by cases hp), fun _ => rfl⟩

end

/-! ## Runs -/

theorem reachable_outputInv {b : BootImage} {k : Kernel} (h : Reachable b k) :
    k.toSched.OutputInv := by
  have hinv := h.schedInvariant
    (I := fun s => (s.Objects ∧ s.Running) ∧ s.OutputInv)
    ⟨⟨bootSched_objects, bootSched_running⟩, bootSched_outputInv⟩
    fun s c s' hinv hstep =>
      have hrun := hstep.running hinv.1.2 hinv.1.1
      ⟨⟨hstep.objects hinv.1.1, hrun⟩, hstep.outputInv hinv.2 hinv.1.2⟩
  exact hinv.2

/-- The output of a terminal is complete, in order and not mixed, as far as it has come. -/
structure Sched.OutputServed (s : Sched) (ttyId : Nat) : Prop where
  /-- Lines are given to the terminal one at a time, each after the terminal has reported the
  one before, those of a write one after the other, and the writes in order. Nothing is
  missing when nobody waits. -/
  served : ∃ missing, Transmitter.output (s.outputEvents ttyId) ++ missing
      = (Transmitter.writes (s.outputEvents ttyId)).flatMap (Transmitter.service TERMINAL_MAX_LINE) ∧
    ((s.ttys ttyId).waitingToTransmit = [] → missing = [])
  /-- The terminal has one line to report while somebody waits, and otherwise none. -/
  outstanding : Transmitter.sends (s.outputEvents ttyId) = Transmitter.sents (s.outputEvents ttyId)
    + if (s.ttys ttyId).waitingToTransmit = [] then 0 else 1
  /-- The writes that are done are the first ones, and who made the others waits, in order. -/
  waiting : Transmitter.dones (s.outputEvents ttyId) ++ (s.ttys ttyId).waitingToTransmit
    = (Transmitter.writes (s.outputEvents ttyId)).map Prod.fst
  /-- Who waits neither runs nor is in any other queue. -/
  blocked : ∀ p ∈ (s.ttys ttyId).waitingToTransmit, p ≠ s.currentProc ∧
    s.occ (.transmit ttyId) p = 1 ∧ ∀ q, q ≠ .transmit ttyId → s.occ q p = 0
  /-- A line that the terminal reports is expected. -/
  expected : ttyId < NUM_TERMINALS → (s.ttys ttyId).waitingToTransmit ≠ [] →
    ∃ s', s.trapTtyTransmit ttyId = .ok s'

section
variable {s s' : Sched}

theorem Sched.OutputInv.outputServed (h : s.OutputInv) (hrun : s.Running) (ttyId : Nat) :
    s.OutputServed ttyId where
  served := by
    refine ⟨_, Transmitter.run_service (by decide) (h.run ttyId), fun hnil => ?_⟩
    rw [transmitter, hnil]
    rfl
  outstanding := by
    rw [Transmitter.run_sends (h.run ttyId), Nat.add_comm, transmitter]
    by_cases hnil : (s.ttys ttyId).waitingToTransmit = []
    · rw [hnil]
      rfl
    · rw [if_neg hnil, if_neg hnil]
      rfl
  waiting := by
    have hqueue := Transmitter.run_dones (h.run ttyId)
    simpa [transmitter, List.map_map, Function.comp_def] using hqueue
  blocked p hp := by
    refine ⟨?_, hrun.writer hp⟩
    rintro rfl
    exact hrun.not_writer ttyId hp
  expected hterminal hne := by
    obtain ⟨proc, rest, hqueue⟩ := List.exists_cons_of_ne_nil hne
    obtain ⟨pcb, hpcb⟩ := hrun.pcb_of_writer (t := ttyId) (hqueue ▸ List.mem_cons_self)
    have hqueue' : ((s.observe (.ttyTransmitted ttyId)).ttys ttyId).waitingToTransmit
        = proc :: rest := hqueue
    have hpcb' : (s.observe (.ttyTransmitted ttyId)).pcb proc = some pcb := hpcb
    simp only [Sched.trapTtyTransmit, if_neg (Nat.not_le.mpr hterminal), hqueue', hpcb']
    split
    · exact ⟨_, rfl⟩
    · split
      · exact ⟨_, rfl⟩
      · exact ⟨_, rfl⟩

/-- Only a report of the terminal takes a process out of its queue. -/
theorem SchedStep.writers_prefix {c : Cause} (hrun : s.Running) (hstep : SchedStep s c s')
    (hc : ∀ t, c ≠ .transmitted t) (ttyId : Nat) :
    (s.ttys ttyId).waitingToTransmit <+: (s'.ttys ttyId).waitingToTransmit := by
  obtain ⟨part, s₁, hpart, hsame⟩ := hstep.part hrun
  rw [hsame.writers (by simp)]
  by_cases hout : part = .ttyOutput
  · subst hout
    cases hpart with
    | ttyOutput same output =>
        cases output with
        | write calls =>
            rw [enqueueToTransmit_writers]
            exact List.prefix_append _ _
        | transmitted cause run => exact absurd cause (hc _)
  · simp only [hpart.same.writers hout ttyId, List.prefix_rfl]

/-- A process that the report of a terminal takes out of the queue becomes ready. -/
theorem Sched.trapTtyTransmit_writers {t : Nat} (hok : s.trapTtyTransmit t = .ok s')
    {ttyId : Nat} {p : Pid} (hp : p ∈ (s.ttys ttyId).waitingToTransmit) :
    p ∈ (s'.ttys ttyId).waitingToTransmit ∨ s'.readyQueue = s.readyQueue ++ [p] ∧
      ∃ more, s'.outputEvents ttyId = s.outputEvents ttyId ++ .sent :: .done p :: more := by
  have hfinish : ∀ {proc : Pid} {rest : List Pid} {s₁ : Sched} {os : List Obs},
      (s.ttys t).waitingToTransmit = proc :: rest →
      s₁.ttys = (s.finishTransmit t proc rest).ttys → s₁.readyQueue = s.readyQueue ++ [proc] →
      s₁.history = (s.finishTransmit t proc rest).history ++ os →
      p ∈ (s₁.ttys ttyId).waitingToTransmit ∨ s₁.readyQueue = s.readyQueue ++ [p] ∧
        ∃ more, s₁.outputEvents ttyId = s.outputEvents ttyId ++ .sent :: .done p :: more := by
    intro proc rest s₁ os waiting httys hready hhistory
    by_cases ht : ttyId = t
    · subst ht
      rw [waiting] at hp
      rcases List.mem_cons.mp hp with rfl | hp
      · refine .inr ⟨hready, os.filterMap (Obs.outputEvent ttyId), ?_⟩
        have hall : s₁.history
            = s.history ++ (.ttyTransmitted ttyId :: .ttyFinished ttyId p :: os) := by
          rw [hhistory]
          show ((s.history ++ [_]) ++ [_]) ++ os = _
          rw [List.append_assoc, List.append_assoc]
          rfl
        rw [outputEvents_append hall]
        simp [Obs.outputEvent]
      · refine .inl ?_
        rw [httys, finishTransmit_writers, if_pos rfl]
        exact hp
    · refine .inl ?_
      rw [httys, finishTransmit_writers, if_neg ht]
      exact hp
  cases trapTtyTransmit_cases hok with
  | @advance proc rest pcb waiting first long =>
      refine .inl ?_
      unfold transmitNext
      split
      · exact hp
      · exact hp
  | @last proc pcb waiting first short =>
      exact hfinish waiting rfl rfl (List.append_nil _).symm
  | @finish proc next rest pcb waiting first short =>
      unfold transmitNext
      split
      · exact hfinish waiting rfl rfl (List.append_nil _).symm
      · exact hfinish waiting rfl rfl rfl

end

section
variable {k k' : Kernel}

theorem Kernel.callCause_ne_transmitted (t : Nat) : k.callCause ≠ .transmitted t := by
  unfold Kernel.callCause Kernel.ttyReadCause Kernel.pipeWriteCause
  dsimp only
  intro h
  repeat' split at h
  all_goals cases h

/-- A step that comes from the report of a terminal is `TrapTtyTransmit`. -/
theorem Step.of_transmitted {e : Event} {t : Nat} (hstep : Step k e k')
    (hcause : k.cause e = .transmitted t) : k.toSched.trapTtyTransmit t = .ok k'.toSched := by
  cases hstep with
  | @trap _ uc env mode idle run =>
      unfold Kernel.cause at hcause
      dsimp only at hcause
      rcases Decidable.em (uc.vector = TRAP_KERNEL) with hv | hkernel
      · rw [if_pos hv] at hcause
        exact absurd hcause (Kernel.callCause_ne_transmitted t)
      rw [if_neg hkernel] at hcause
      rcases Decidable.em (uc.vector = TRAP_CLOCK) with hv | hclock
      · rw [if_pos hv] at hcause
        cases hcause
      rw [if_neg hclock] at hcause
      split at hcause
      case isFalse => split at hcause <;> cases hcause
      case isTrue hvector =>
        cases hcause
        have htrap : ({ k with userContext := uc } : Kernel).trap env
            = ({ k with userContext := uc } : Kernel).trapTtyTransmit uc.code := by
          unfold Kernel.trap
          simp only [hvector]
          rfl
        rw [htrap] at run
        obtain ⟨s, hs, hret⟩ := bind_eq_ok.mp run
        cases hret
        exact hs
  | resume mode run => cases hcause
  | userLoad | userStore | cachedStore => cases hcause
  | setKernelBrk run => cases hcause

/-- A process waits for a terminal until its write is done, and then becomes ready. -/
theorem Step.writers {e : Event} (hrun : k.toSched.Running) (hstep : Step k e k') {ttyId : Nat}
    {p : Pid} (hp : p ∈ (k.ttys ttyId).waitingToTransmit) :
    p ∈ (k'.ttys ttyId).waitingToTransmit ∨ k'.readyQueue = k.readyQueue ++ [p] ∧
      ∃ more, k'.toSched.outputEvents ttyId
        = k.toSched.outputEvents ttyId ++ .sent :: .done p :: more := by
  by_cases hc : ∃ t, k.cause e = .transmitted t
  · obtain ⟨t, hcause⟩ := hc
    exact Sched.trapTtyTransmit_writers (hstep.of_transmitted hcause) hp
  · have hinitial := hstep.sched.writers_prefix hrun (fun t he => hc ⟨t, he⟩) ttyId
    exact .inl (hinitial.subset hp)

/-- A `KernelTtyWrite` of `len` bytes from `buf` hands what its process has there to the
terminal. -/
def Kernel.WritesToTty (k k' : Kernel) (ttyId : Int) (buf : Nat) (len : Int) : Prop :=
  0 ≤ ttyId ∧ ttyId < NUM_TERMINALS ∧ ∃ bytes : List Byte, (bytes.length : Int) = len ∧
    k.machine.Holds k.currentProc buf bytes ∧
    Transmitter.writes (k'.toSched.outputEvents ttyId.toNat)
      = Transmitter.writes (k.toSched.outputEvents ttyId.toNat) ++ [(k.currentProc, bytes)]

/-- A `KernelTtyWrite` that passes its checks writes what is in the memory of the process. -/
theorem Kernel.kernelTtyWrite_writes {ttyId len : Int} {buf : Nat} (hapart : k.Apart)
    (h : k.kernelTtyWrite ttyId buf len = .ok k') :
    k' = k.ret ERROR ∨ k.WritesToTty k' ttyId buf len := by
  unfold Kernel.kernelTtyWrite at h
  rcases ite_eq_ok h with ⟨-, h⟩ | ⟨hterminal, h⟩
  · cases h
    exact .inl rfl
  rcases ite_eq_ok h with ⟨-, h⟩ | ⟨hlen, h⟩
  · cases h
    exact .inl rfl
  rcases ite_eq_ok h with ⟨-, h⟩ | ⟨-, h⟩
  · cases h
    exact .inl rfl
  obtain ⟨bytes, hload, hrest⟩ := bind_eq_ok.mp h
  have hlength := Machine.loadBytes_length hload
  refine .inr ⟨by omega, by omega, bytes, by omega, hapart.loadBytes_holds hload, ?_⟩
  have hsame : SameBut .other (k.toSched.enqueueToTransmit ttyId.toNat bytes) k'.toSched := by
    rw [Kernel.switchToNextProc_sched hrest]
    exact (SameBut.refl _ _).switchToNextProc _
  have hevents : k'.toSched.outputEvents ttyId.toNat
      = (k.toSched.enqueueToTransmit ttyId.toNat bytes).outputEvents ttyId.toNat := by
    rw [outputEvents, hsame.events .ttyOutput (by simp) (by simp), outputEvents]
  rw [hevents, outputEvents_append (enqueueToTransmit_history _ _), Transmitter.writes,
    List.filterMap_append]
  congr 1
  split <;> simp [Obs.outputEvent]

end

/-- In every state of every run the output of each terminal is served, line by line. A
process waits until its last line has been reported, and then becomes ready. What
`KernelTtyWrite` writes is what is at `buf` in the memory of the process. -/
theorem tty_output_served {b : BootImage} {k : Kernel} (h : Reachable b k) :
    (∀ ttyId, k.toSched.OutputServed ttyId) ∧
    (∀ bytes : List Byte, (Transmitter.chunks TERMINAL_MAX_LINE bytes).flatten = bytes ∧
      ∀ c ∈ Transmitter.chunks TERMINAL_MAX_LINE bytes, c.length ≤ TERMINAL_MAX_LINE) ∧
    (∀ e k', Step k e k' → ∀ ttyId, ∀ p ∈ (k.ttys ttyId).waitingToTransmit,
      p ∈ (k'.ttys ttyId).waitingToTransmit ∨ k'.readyQueue = k.readyQueue ++ [p] ∧
        ∃ more, k'.toSched.outputEvents ttyId
          = k.toSched.outputEvents ttyId ++ .sent :: .done p :: more) ∧
    ∀ uc env k', uc.Calls YALNIX_TTY_WRITE → Step k (.trap uc env) k' →
      k' = ({ k with userContext := uc } : Kernel).ret ERROR ∨
        k.WritesToTty k' (asInt (uc.regs 0)) (uc.regs 1) (asInt (uc.regs 2)) := by
  have hrun := (reachable_running h).2
  refine ⟨(reachable_outputInv h).outputServed hrun, fun bytes => ⟨?_, ?_⟩, ?_, ?_⟩
  · exact Transmitter.flatten_chunks _ _
  · exact Transmitter.length_le_of_mem_chunks (by decide)
  · exact fun e k' hstep ttyId p hp => hstep.writers hrun hp
  · intro uc env k' hcall hstep
    obtain ⟨-, run⟩ := hstep.of_call hcall
    unfold Kernel.trapKernel at run
    simp only [hcall.2] at run
    have hapart := reachable_apart h
    exact Kernel.kernelTtyWrite_writes (k := { k with userContext := uc })
      ⟨hapart.isolated, hapart.ptbr1⟩ run

/-- A terminal has transmitted its line. -/
def ttyTransmitted (ttyId : Nat) : Event :=
  .trap { vector := TRAP_TTY_TRANSMIT, code := ttyId } {}

/-- Init stores three bytes and forks. The child writes the first two to terminal 0 and init
the last two. The terminal then reports that it has transmitted the bytes of the child. -/
def writeTwice : List Event := initRuns ++ userStores stackBuffer [1, 2, 3] ++
  [systemCall YALNIX_FORK 0 0 0, .resume, systemCall YALNIX_TTY_WRITE 0 stackBuffer 2, .resume,
    systemCall YALNIX_TTY_WRITE 0 (stackBuffer + 1) 2, .resume, ttyTransmitted 0]

theorem tty_output_served_two : ∃ k, Kernel.run smallImage writeTwice = some k ∧
    k.toSched.outputEvents 0 = [.write 2 [1, 2], .send [1, 2], .write 1 [2, 3], .sent, .done 2,
      .send [2, 3]] ∧ k.machine.Holds 2 stackBuffer [1, 2, 3] ∧
    k.machine.Holds INIT_PID stackBuffer [1, 2, 3] ∧ k.readyQueue = [2] ∧
    k.toSched.OutputServed 0 := by
  have hsome : ((Kernel.run smallImage writeTwice).map fun k =>
      (k.toSched.outputEvents 0, decide (k.machine.Holds 2 stackBuffer [1, 2, 3]),
        decide (k.machine.Holds INIT_PID stackBuffer [1, 2, 3]), k.readyQueue))
        = some ([.write 2 [1, 2], .send [1, 2], .write 1 [2, 3], .sent, .done 2,
          .send [2, 3]], true, true, [2]) := by decide +kernel
  obtain ⟨k, hrun, heq⟩ := Option.map_eq_some_iff.mp hsome
  simp only [Prod.mk.injEq, decide_eq_true_eq] at heq
  obtain ⟨hevents, hchild, hinit, hready⟩ := heq
  exact ⟨k, hrun, hevents, hchild, hinit, hready, (tty_output_served (.of_run hrun)).1 0⟩

end Theynix
