import Theynix.Lib.Stream
import Theynix.Footprint

/-!
# `Theynix.Terminal`: the input of a terminal

What a terminal has received is a stream: readers take from its front, and the stored lines
are what is left. `KernelTtyRead` breaks this when it asks for less than the first line
holds. It copies the leftovers from the start of the line, not from the first byte that was
not read. `reachable_inputInv` says that a run whose reads have all kept their leftovers has
kept the stream, and `Step.keepsLeftovers` that a step which keeps it keeps its leftovers.
-/

set_option autoImplicit false

namespace Theynix

open Theynix.Lib (bind_eq_ok ite_eq_ok StreamEvent)

/-! ## Lines -/

namespace LineBuffer

/-- The bytes of the line. -/
def line (lb : LineBuffer) : List Byte := lb.buffer.take lb.length

/-- What is left of the line after a read of `len` bytes is what was not read. -/
def LeftoversKept (lb : LineBuffer) (len : Nat) : Prop :=
  len < lb.length → lb.buffer.take (lb.length - len) = lb.line.drop len

instance (lb : LineBuffer) (len : Nat) : Decidable (lb.LeftoversKept len) :=
  inferInstanceAs (Decidable (_ → _))

/-- The line buffer that a read of `len` bytes leaves, as a list of at most one element. -/
def leftovers (lb : LineBuffer) (len : Nat) : List LineBuffer := (lb.afterRead len).1.toList

/-- The bytes that a read of `len` bytes is given, when `behind` follows the buffer. -/
def served (lb : LineBuffer) (behind : List Byte) (len : Nat) : List Byte :=
  ((lb.buffer ++ behind).take len).take (lb.afterRead len).2

section
variable {lb : LineBuffer} {behind : List Byte} {len : Nat}

/-- A read that asks for less than the line gets the start of the line. -/
theorem served_short (hwhole : lb.length ≤ lb.buffer.length) (h : len < lb.length) :
    lb.served behind len = lb.line.take len := by
  have hbuffer : len ≤ lb.buffer.length := by omega
  simp only [served, afterRead, gt_iff_lt, if_pos h, List.take_take, Nat.min_self, line]
  rw [List.take_append_of_le_length hbuffer, Nat.min_eq_left (Nat.le_of_lt h)]

/-- A read that asks for no less than the line gets the line. -/
theorem served_all (hwhole : lb.length ≤ lb.buffer.length) (h : ¬ len < lb.length) :
    lb.served behind len = lb.line := by
  simp only [served, afterRead, gt_iff_lt, if_neg h, List.take_take, line]
  rw [Nat.min_eq_left (Nat.not_lt.mp h), List.take_append_of_le_length hwhole]

/-- What a read that asks for less than the line leaves. -/
theorem line_leftovers (h : len < lb.length) :
    (lb.leftovers len).flatMap line = lb.buffer.take (lb.length - len) := by
  simp [leftovers, afterRead, h, line, List.take_take]

/-- What is served and what is left are the line, exactly when the leftovers are kept. -/
theorem leftoversKept_iff (hwhole : lb.length ≤ lb.buffer.length) :
    lb.LeftoversKept len ↔
      lb.line = lb.served behind len ++ (lb.leftovers len).flatMap line := by
  by_cases h : len < lb.length
  · rw [served_short hwhole h, line_leftovers h, LeftoversKept]
    constructor
    · intro hkept
      rw [hkept h, List.take_append_drop]
    · intro hline _
      have hsplit := (List.take_append_drop len lb.line).trans hline
      exact (List.append_cancel_left hsplit).symm
  · have hleft : lb.leftovers len = [] := by simp [leftovers, afterRead, h]
    rw [served_all hwhole h, hleft, List.flatMap_nil, List.append_nil]
    exact ⟨fun _ => rfl, fun _ hlt => absurd hlt h⟩

/-- The leftovers fill their buffer. -/
theorem whole_of_mem_leftovers (hwhole : lb.length ≤ lb.buffer.length) {x : LineBuffer}
    (hx : x ∈ lb.leftovers len) : x.length ≤ x.buffer.length := by
  by_cases h : len < lb.length
  · simp only [leftovers, afterRead, gt_iff_lt, if_pos h, Option.toList_some,
      List.mem_singleton] at hx
    subst hx
    simp only [List.length_take]
    omega
  · simp [leftovers, afterRead, h] at hx

end

end LineBuffer

/-! ## The stream of a terminal -/

/-- What an event means to the input of a terminal. -/
def Obs.inputEvent (ttyId : Nat) : Obs → Option (StreamEvent Byte)
  | .ttyReceived t line => if t = ttyId then some (.put line) else none
  | .ttyServed t _ bytes => if t = ttyId then some (.take bytes) else none
  | _ => none

namespace Sched

/-- What has happened to the input of a terminal, oldest first. -/
def inputEvents (s : Sched) (ttyId : Nat) : List (StreamEvent Byte) :=
  (s.events .ttyInput).filterMap (Obs.inputEvent ttyId)

/-- The bytes that a terminal has received, in order. -/
def received (s : Sched) (ttyId : Nat) : List Byte := Lib.Stream.puts (s.inputEvents ttyId)

/-- The bytes that readers of a terminal have been given, in the order in which the readers
were served. -/
def servedBytes (s : Sched) (ttyId : Nat) : List Byte := Lib.Stream.takes (s.inputEvents ttyId)

/-- The bytes in the stored lines of a terminal. -/
def stored (s : Sched) (ttyId : Nat) : List Byte :=
  (s.ttys ttyId).lineBuffers.flatMap LineBuffer.line

/-- Nothing that a terminal received was lost, repeated or reordered, and readers only wait
when no line is stored. -/
def InputLossless (s : Sched) : Prop :=
  ∀ ttyId, s.received ttyId = s.servedBytes ttyId ++ s.stored ttyId ∧
    ((s.ttys ttyId).lineBuffers = [] ∨ (s.ttys ttyId).waitingToReceive = [])

/-- The invariant: the input is a stream whose contents are the stored lines. -/
structure InputInv (s : Sched) : Prop where
  whole : ∀ t lb, lb ∈ (s.ttys t).lineBuffers → lb.length ≤ lb.buffer.length
  stream : ∀ t, Lib.Stream.run [] (s.inputEvents t) = some (s.stored t)
  exclusive : ∀ t, (s.ttys t).lineBuffers = [] ∨ (s.ttys t).waitingToReceive = []

/-- A step that reads a line keeps what is left of it. -/
def KeepsLeftovers (s : Sched) : Cause → Prop
  | .readsLine ttyId len => ∀ lb ∈ (s.ttys ttyId).lineBuffers.head?, lb.LeftoversKept len
  | _ => True

instance (s : Sched) : (c : Cause) → Decidable (s.KeepsLeftovers c)
  | .readsLine _ len => inferInstanceAs (Decidable (∀ lb ∈ _, LineBuffer.LeftoversKept lb len))
  | .writesPipe _ _ => instDecidableTrue
  | .clock _ => instDecidableTrue
  | .transmitted _ => instDecidableTrue
  | .received _ _ => instDecidableTrue
  | .other => instDecidableTrue

section
variable {s s' : Sched}

theorem InputInv.lossless (h : s.InputInv) : s.InputLossless := by
  refine fun t => ⟨?_, h.exclusive t⟩
  exact Lib.Stream.run_puts (h.stream t)

theorem inputEvents_observe {o : Obs} {t : Nat} :
    (s.observe o).inputEvents t = s.inputEvents t ++ (o.inputEvent t).toList := by
  rw [inputEvents, events_observe]
  split
  · rw [List.filterMap_append]
    cases ho : o.inputEvent t <;> simp [inputEvents, ho]
  · rename_i hpart
    cases o <;> first | exact absurd rfl hpart | simp [inputEvents, Obs.inputEvent]

/-- A step that touches another part. -/
theorem InputInv.same (h : s.InputInv) {part : Part} (hs : SameBut part s s')
    (hpart : part ≠ .ttyInput) : s'.InputInv := by
  have hlines := hs.lines hpart
  refine ⟨fun t lb hlb => h.whole t lb (by rwa [← hlines]), fun t => ?_, fun t => ?_⟩
  · rw [inputEvents, hs.events .ttyInput hpart.symm (by simp), stored, hlines]
    exact h.stream t
  · rw [hlines, hs.receive hpart]
    exact h.exclusive t

/-- A stored line is read, and what is left of it is kept. -/
theorem InputInv.consumeLine (h : s.InputInv) {ttyId len : Nat} {lb : LineBuffer}
    {rest : List LineBuffer} (hlines : (s.ttys ttyId).lineBuffers = lb :: rest)
    (behind : List Byte) (hkept : lb.LeftoversKept len) :
    ((s.updTty ttyId fun t => { t with lineBuffers := lb.leftovers len ++ rest }).observe
      (.ttyServed ttyId s.currentProc (lb.served behind len))).InputInv := by
  have hwhole := h.whole ttyId lb (hlines ▸ List.mem_cons_self)
  refine ⟨fun t x hx => ?_, fun t => ?_, fun t => ?_⟩
  · by_cases ht : t = ttyId
    · simp only [observe, updTty, ht, if_true] at hx
      rcases List.mem_append.mp hx with hx | hx
      · exact LineBuffer.whole_of_mem_leftovers hwhole hx
      · exact h.whole ttyId x (hlines ▸ List.mem_cons_of_mem _ hx)
    · simp only [observe, updTty, if_neg ht] at hx
      exact h.whole t x hx
  · have hrun : Lib.Stream.run [] (s.inputEvents t) = some (s.stored t) := h.stream t
    rw [inputEvents_observe]
    by_cases ht : t = ttyId
    · subst ht
      have hstored : s.stored t = lb.served behind len ++
          ((lb.leftovers len).flatMap LineBuffer.line ++ rest.flatMap LineBuffer.line) := by
        rw [stored, hlines, List.flatMap_cons, (LineBuffer.leftoversKept_iff hwhole).mp hkept,
          List.append_assoc]
      rw [hstored] at hrun
      simp only [Obs.inputEvent, if_true, Option.toList_some]
      refine (Lib.Stream.run_concat hrun).trans ((Lib.Stream.step_take _ _).trans ?_)
      simp [stored, observe, updTty]
    · have hne : ¬ ttyId = t := fun he => ht he.symm
      simp only [Obs.inputEvent, if_neg hne, Option.toList_none, List.append_nil]
      refine hrun.trans ?_
      simp [stored, observe, updTty, ht]
  · by_cases ht : t = ttyId
    · have hwaiting := (h.exclusive ttyId).resolve_left (by simp [hlines])
      exact .inr (by simp [observe, updTty, ht, hwaiting])
    · simpa [observe, updTty, ht] using h.exclusive t

/-- A line that cannot be given to anyone is stored. -/
theorem InputInv.storeLine {ttyId : Nat} {input : List Byte} {lb : LineBuffer}
    (hwhole : ∀ t x, x ∈ (s.ttys t).lineBuffers → x.length ≤ x.buffer.length)
    (hstream : ∀ t, Lib.Stream.run [] (s.inputEvents t)
      = some (if t = ttyId then s.stored t ++ input else s.stored t))
    (hexclusive : ∀ t, (s.ttys t).lineBuffers = [] ∨ (s.ttys t).waitingToReceive = [])
    (hwaiting : (s.ttys ttyId).waitingToReceive = [])
    (hlb : lb.length ≤ lb.buffer.length) (hline : lb.line = input) :
    (s.updTty ttyId fun t => { t with lineBuffers := t.lineBuffers ++ [lb] }).InputInv := by
  refine ⟨fun t x hx => ?_, fun t => (hstream t).trans ?_, fun t => ?_⟩
  · by_cases ht : t = ttyId
    · simp only [updTty, ht, if_true] at hx
      rcases List.mem_append.mp hx with hx | hx
      · exact hwhole ttyId x hx
      · rwa [List.mem_singleton.mp hx]
    · simp only [updTty, if_neg ht] at hx
      exact hwhole t x hx
  · by_cases ht : t = ttyId
    · simp [stored, updTty, ht, hline]
    · simp [stored, updTty, ht]
  · by_cases ht : t = ttyId
    · exact .inr (by simp [updTty, ht, hwaiting])
    · simpa [updTty, ht] using hexclusive t

/-- In the loop of `TrapTtyRecieve`: the stream holds the input that is not consumed yet,
and the processes that are still to be visited are those that wait. -/
structure Serving (ttyId : Nat) (procs : List Pid) (input : List Byte) (s : Sched) : Prop where
  lines : (s.ttys ttyId).lineBuffers = []
  waiting : (s.ttys ttyId).waitingToReceive = procs
  whole : ∀ t x, x ∈ (s.ttys t).lineBuffers → x.length ≤ x.buffer.length
  stream : ∀ t, Lib.Stream.run [] (s.inputEvents t)
    = some (if t = ttyId then s.stored t ++ input else s.stored t)
  exclusive : ∀ t, (s.ttys t).lineBuffers = [] ∨ (s.ttys t).waitingToReceive = []

/-- One round of the loop: the first process takes its part of the input. -/
theorem Serving.serveReader {ttyId : Nat} {proc : Pid} {rest : List Pid} {input : List Byte}
    (h : Serving ttyId (proc :: rest) input s) (pcb : PCB) (buffer : List Byte) :
    Serving ttyId rest (input.drop pcb.ttyReceiveLen)
      (s.serveReader ttyId proc rest pcb buffer input) := by
  have hlines : ∀ t, ((s.serveReader ttyId proc rest pcb buffer input).ttys t).lineBuffers
      = (s.ttys t).lineBuffers := by
    intro t
    by_cases ht : t = ttyId <;> simp [Sched.serveReader, observe, updPcb, ready, updTty, ht]
  have hstored : ∀ t, (s.serveReader ttyId proc rest pcb buffer input).stored t = s.stored t :=
    fun t => by rw [stored, hlines, stored]
  have hevents : ∀ t, (s.serveReader ttyId proc rest pcb buffer input).inputEvents t
      = s.inputEvents t ++ ((Obs.ttyServed ttyId proc (input.take pcb.ttyReceiveLen)).inputEvent
        t).toList := fun _ => inputEvents_observe
  refine ⟨(hlines _).trans h.lines, by simp [Sched.serveReader, observe, updPcb, ready, updTty],
    fun t x hx => h.whole t x (by rwa [← hlines]), fun t => ?_, fun t => ?_⟩
  · have hrun := h.stream t
    rw [hevents, hstored]
    by_cases ht : t = ttyId
    · subst ht
      have hempty : s.stored t = [] := by rw [stored, h.lines, List.flatMap_nil]
      simp only [if_true, hempty, List.nil_append] at hrun
      rw [← List.take_append_drop pcb.ttyReceiveLen input] at hrun
      simp only [Obs.inputEvent, if_true, Option.toList_some, hempty, List.nil_append]
      exact (Lib.Stream.run_concat hrun).trans (Lib.Stream.step_take _ _)
    · have hne : ¬ ttyId = t := fun he => ht he.symm
      simp only [Obs.inputEvent, if_neg hne, if_neg ht, Option.toList_none, List.append_nil] at hrun ⊢
      exact hrun
  · rw [hlines]
    by_cases ht : t = ttyId
    · exact .inl (ht ▸ h.lines)
    · refine (h.exclusive t).imp id fun hw => ?_
      simpa [Sched.serveReader, observe, updPcb, ready, updTty, ht] using hw

/-- `TrapTtyRecieve` gives the line to those who wait and stores what is left. -/
theorem InputInv.trapTtyRecieve (h : s.InputInv) {ttyId : Nat} {input : List Byte}
    (hrun : s.trapTtyRecieve ttyId input = .ok s') : s'.InputInv := by
  unfold Sched.trapTtyRecieve at hrun
  rcases ite_eq_ok hrun with ⟨-, hrun⟩ | ⟨-, hrun⟩
  · cases hrun
  dsimp only at hrun
  generalize input.take TERMINAL_MAX_LINE = line at hrun
  have hstream : ∀ t, Lib.Stream.run [] ((s.observe (.ttyReceived ttyId line)).inputEvents t)
      = some (if t = ttyId then s.stored t ++ line else s.stored t) := by
    intro t
    rw [inputEvents_observe]
    by_cases ht : t = ttyId
    · subst ht
      simp only [Obs.inputEvent, if_true, Option.toList_some]
      exact Lib.Stream.run_concat (h.stream t)
    · have hne : ¬ ttyId = t := fun he => ht he.symm
      simp only [Obs.inputEvent, if_neg hne, if_neg ht, Option.toList_none, List.append_nil]
      exact h.stream t
  rcases ite_eq_ok hrun with ⟨hnone, hrun⟩ | ⟨hsome, hrun⟩
  · cases hrun
    exact InputInv.storeLine (s := s.observe _) h.whole hstream h.exclusive hnone
      (by simp) (by simp [LineBuffer.line])
  · obtain ⟨⟨left, s₁⟩, hserve, hrest⟩ := bind_eq_ok.mp hrun
    have hstart : Serving ttyId (s.ttys ttyId).waitingToReceive line
        (s.observe (.ttyReceived ttyId line)) :=
      ⟨(h.exclusive ttyId).resolve_right hsome, rfl, h.whole, hstream, h.exclusive⟩
    obtain ⟨procs, hs₁, hdone⟩ := serveReaders_rule (P := Serving ttyId)
      (fun _ _ _ _ _ _ hs _ _ _ => hs.serveReader _ _) hstart hserve
    rcases ite_eq_ok hrest with ⟨hempty, hret⟩ | ⟨hleft, hret⟩ <;> cases hret
    · dsimp only at hempty
      refine ⟨hs₁.whole, fun t => (hs₁.stream t).trans ?_, hs₁.exclusive⟩
      simp [hempty]
    · have hprocs := hdone.resolve_right hleft
      exact InputInv.storeLine hs₁.whole hs₁.stream hs₁.exclusive (hs₁.waiting.trans hprocs)
        (Nat.le_refl _) (by simp [LineBuffer.line])

/-- A step that keeps what is left of a line it reads keeps the stream. -/
theorem SchedStep.inputInv {c : Cause} (h : s.InputInv) (hrun : s.Running)
    (hkeeps : s.KeepsLeftovers c) (hstep : SchedStep s c s') : s'.InputInv := by
  obtain ⟨part, s₁, hpart, hsame⟩ := hstep.part hrun
  refine InputInv.same ?_ hsame (by simp)
  by_cases hinput : part = .ttyInput
  · subst hinput
    cases hpart with
    | consumeLine cause behind lines =>
        rw [cause] at hkeeps
        exact h.consumeLine lines behind (hkeeps _ (by simp [lines]))
    | @ttyReadBlock ttyId _ _ lines =>
        refine ⟨fun t lb hlb => h.whole t lb ?_, fun t => (h.stream t).trans ?_, fun t => ?_⟩
        · by_cases ht : t = ttyId <;>
            simpa [enqueueToReceive, updCurrent, updPcb, updTty, ht] using hlb
        · by_cases ht : t = ttyId <;>
            simp [stored, enqueueToReceive, updCurrent, updPcb, updTty, ht]
        · by_cases ht : t = ttyId
          · exact .inl (by simp [enqueueToReceive, updCurrent, updPcb, updTty, ht, lines])
          · simpa [enqueueToReceive, updCurrent, updPcb, updTty, ht] using h.exclusive t
    | ttyReceive _ run => exact h.trapTtyRecieve run
  · exact h.same hpart.same hinput

end

theorem bootSched_inputInv : Kernel.bootSched.InputInv := by
  refine ⟨fun _ _ hlb => (by cases hlb), fun _ => ?_, fun _ => .inl rfl⟩
  simp [Kernel.bootSched, inputEvents, events, stored]

end Sched

open Sched

/-! ## Runs -/

/-- The step reads no line, or keeps what is left of it. -/
def KeepsLeftovers (k : Kernel) (e : Event) : Prop := k.toSched.KeepsLeftovers (k.cause e)

instance (k : Kernel) (e : Event) : Decidable (KeepsLeftovers k e) :=
  inferInstanceAs (Decidable (k.toSched.KeepsLeftovers (k.cause e)))

/-- A `KernelTtyRead` that passes its checks. -/
theorem Kernel.kernelTtyRead_of_cause {k : Kernel} {ttyId len : Nat} (env : Env)
    (vector : k.userContext.vector = TRAP_KERNEL) (h : k.callCause = .readsLine ttyId len)
    {lb : LineBuffer} {rest : List LineBuffer} (hlines : (k.ttys ttyId).lineBuffers = lb :: rest) :
    ∃ buf, k.trap env = k.consumeLine ttyId lb rest buf len env := by
  unfold Kernel.callCause at h
  dsimp only at h
  split at h
  case isFalse =>
    split at h
    · unfold Kernel.pipeWriteCause at h
      repeat' split at h
      all_goals cases h
    · cases h
  case isTrue hcode =>
    have htrap : k.trap env = k.kernelTtyRead (asInt (k.userContext.regs 0))
        (k.userContext.regs 1) (asInt (k.userContext.regs 2)) env := by
      rw [Kernel.trap_call vector]
      unfold Kernel.trapKernel
      repeat rw [if_neg (by rw [hcode]; decide)]
      rw [if_pos hcode]
    unfold Kernel.ttyReadCause at h
    split at h
    · cases h
    rename_i hterminal
    split at h
    · cases h
    rename_i hlen
    split at h
    · cases h
    rename_i hvalid
    injection h with ht hl
    refine ⟨k.userContext.regs 1, ?_⟩
    rw [htrap, Kernel.kernelTtyRead, if_neg hterminal, if_neg hlen, if_neg hvalid, ht, hl, hlines]

/-- A step that reads a stored line. -/
theorem Step.consumesLine {k k' : Kernel} {e : Event} {ttyId len : Nat} {lb : LineBuffer}
    {rest : List LineBuffer} (hstep : Step k e k') (hcause : k.cause e = .readsLine ttyId len)
    (hlines : (k.ttys ttyId).lineBuffers = lb :: rest) :
    ∃ behind, k'.toSched = ((k.toSched.updTty ttyId fun t =>
        { t with lineBuffers := lb.leftovers len ++ rest }).observe
          (.ttyServed ttyId k.currentProc (lb.served behind len))).toUser := by
  cases hstep with
  | @trap _ uc env mode idle run =>
      unfold Kernel.cause at hcause
      dsimp only at hcause
      split at hcause
      case isFalse =>
        repeat' split at hcause
        all_goals cases hcause
      case isTrue vector =>
        obtain ⟨buf, hread⟩ := Kernel.kernelTtyRead_of_cause (k := { k with userContext := uc })
          env vector hcause hlines
        rw [hread] at run
        obtain ⟨m, -, hret⟩ := bind_eq_ok.mp run
        cases hret
        refine ⟨env.heapBehind ++ List.replicate len 0, ?_⟩
        rw [LineBuffer.served, ← List.append_assoc]
        rfl
  | resume _ _ => cases hcause
  | userLoad | userStore | cachedStore => cases hcause
  | setKernelBrk _ => cases hcause

/-- A step after which nothing has been lost has kept what is left of the line it read. -/
theorem Step.keepsLeftovers {k k' : Kernel} {e : Event} (h : k.toSched.InputInv)
    (hstep : Step k e k') (hlossless : k'.toSched.InputLossless) : KeepsLeftovers k e := by
  unfold KeepsLeftovers
  cases hcause : k.cause e with
  | readsLine ttyId len =>
      intro lb hlb
      obtain ⟨rest, hlines⟩ : ∃ rest, (k.ttys ttyId).lineBuffers = lb :: rest := by
        cases hall : (k.ttys ttyId).lineBuffers with
        | nil => simp [hall] at hlb
        | cons x rest =>
            simp only [hall, List.head?_cons, Option.mem_def, Option.some.injEq] at hlb
            exact ⟨rest, hlb ▸ rfl⟩
      have hwhole := h.whole ttyId lb (hlines ▸ List.mem_cons_self)
      obtain ⟨behind, hk'⟩ := hstep.consumesLine hcause hlines
      obtain ⟨hbefore, -⟩ := h.lossless ttyId
      obtain ⟨hafter, -⟩ := hlossless ttyId
      have hevents : k'.toSched.inputEvents ttyId
          = k.toSched.inputEvents ttyId ++ [.take (lb.served behind len)] := by
        rw [hk']
        refine inputEvents_observe.trans ?_
        simp [Obs.inputEvent, updTty, inputEvents, Sched.events]
      have hstored : k'.toSched.stored ttyId
          = (lb.leftovers len).flatMap LineBuffer.line ++ rest.flatMap LineBuffer.line := by
        simp [hk', Sched.stored, toUser, observe, updTty]
      have hstored₀ : k.toSched.stored ttyId = lb.line ++ rest.flatMap LineBuffer.line := by
        rw [Sched.stored, hlines, List.flatMap_cons]
      -- The received bytes are the same before and after the step.
      have hboth : k.toSched.servedBytes ttyId ++ k.toSched.stored ttyId
          = (k.toSched.servedBytes ttyId ++ lb.served behind len) ++ k'.toSched.stored ttyId := by
        rw [← hbefore]
        have hreceived : k'.toSched.received ttyId = k.toSched.received ttyId := by
          simp [Sched.received, hevents, Lib.Stream.puts]
        have hserved : k'.toSched.servedBytes ttyId
            = k.toSched.servedBytes ttyId ++ lb.served behind len := by
          simp [Sched.servedBytes, hevents, Lib.Stream.takes]
        rw [← hserved, ← hafter, hreceived]
      rw [hstored, hstored₀, List.append_assoc, List.append_right_inj, ← List.append_assoc,
        List.append_left_inj] at hboth
      exact (LineBuffer.leftoversKept_iff hwhole).mpr hboth
  | writesPipe _ _ => trivial
  | clock _ => trivial
  | transmitted _ => trivial
  | received _ _ => trivial
  | other => trivial

/-- In the runs whose reads keep their leftovers, the input of every terminal is a stream. -/
theorem reachable_inputInv {b : BootImage} {k : Kernel} (h : ReachableWhen KeepsLeftovers b k) :
    (k.toSched.Objects ∧ k.toSched.Running) ∧ k.toSched.InputInv := by
  refine ReachableWhen.invariant
    (I := fun k => (k.toSched.Objects ∧ k.toSched.Running) ∧ k.toSched.InputInv)
    (fun k hstart => ?_) (fun k e k' hinv hkeeps _ hstep => ?_) h
  · rw [kernelStart_sched hstart]
    exact ⟨⟨bootSched_objects, bootSched_running⟩, bootSched_inputInv⟩
  · obtain ⟨⟨hobj, hrun⟩, hinput⟩ := hinv
    have hs := hstep.sched
    exact ⟨⟨hs.objects hobj, hs.running hrun hobj⟩, SchedStep.inputInv hinput hrun hkeeps hs⟩

end Theynix
