import Mathlib.Data.List.Basic

/-!
# `Theynix.Lib.Transmitter`: writes that are transmitted in pieces

The abstract transmitter is a queue of writes, of which the first is being transmitted in
pieces of at most `max` elements, and the phase its device is in. `Transmitter.step` is
partial: a piece is sent only when the device is idle, the next piece only after the device
has reported the one before, and a write is done only after its last piece. That a list of
events has a run therefore says that the pieces are never mixed.

* `run_service`: everything but the writes is a prefix of the services of the writes, one
  after the other, and `pending` is what is missing.
* `run_dones`: the writes are done in the order in which they were made.
* `run_sends`: at most one piece is on its way.
-/

set_option autoImplicit false

namespace Theynix.Lib

universe u
variable {π β : Type u}

/-- What can happen to a transmitter. -/
inductive TransmitEvent (π β : Type u)
  /-- Somebody wants to have something transmitted. -/
  | write (p : π) (bytes : List β)
  /-- A piece is given to the device. -/
  | send (chunk : List β)
  /-- The device has transmitted its piece. -/
  | sent
  /-- The first write has been transmitted. -/
  | done (p : π)
deriving DecidableEq

/-- The phases of the device. -/
inductive TransmitPhase
  | idle
  | busy
  /-- The last piece of a write has been transmitted. -/
  | ended
deriving DecidableEq

/-- The writes that are not done, with what is left of them, and the phase of the device. -/
structure Transmitter (π β : Type u) where
  queue : List (π × List β) := []
  phase : TransmitPhase := .idle

namespace Transmitter

/-! ## Pieces -/

/-- The pieces of a write. A write of nothing is one empty piece. -/
def chunks (max : Nat) (bytes : List β) : List (List β) :=
  if max = 0 ∨ bytes.length ≤ max then [bytes]
  else bytes.take max :: chunks max (bytes.drop max)
termination_by bytes.length
decreasing_by
  rw [List.length_drop]
  omega

theorem chunks_short {max : Nat} {bytes : List β} (h : bytes.length ≤ max) :
    chunks max bytes = [bytes] := by
  rw [chunks, if_pos (.inr h)]

theorem chunks_long {max : Nat} {bytes : List β} (hmax : 0 < max) (h : max < bytes.length) :
    chunks max bytes = bytes.take max :: chunks max (bytes.drop max) := by
  rw [chunks, if_neg (by omega)]

/-- The pieces are the write. -/
theorem flatten_chunks (max : Nat) (bytes : List β) : (chunks max bytes).flatten = bytes := by
  induction bytes using chunks.induct max with
  | case1 bytes h => rw [chunks, if_pos h, List.flatten_singleton]
  | case2 bytes h ih =>
      rw [chunks, if_neg h, List.flatten_cons, ih]
      exact List.take_append_drop max bytes

/-- No piece is too long. -/
theorem length_le_of_mem_chunks {max : Nat} {bytes : List β} (hmax : 0 < max) :
    ∀ c ∈ chunks max bytes, c.length ≤ max := by
  induction bytes using chunks.induct max with
  | case1 bytes h =>
      intro c hc
      rw [chunks, if_pos h] at hc
      rw [List.mem_singleton.mp hc]
      omega
  | case2 bytes h ih =>
      intro c hc
      rw [chunks, if_neg h] at hc
      rcases List.mem_cons.mp hc with rfl | hc
      · rw [List.length_take]
        exact Nat.min_le_left _ _
      · exact ih c hc

/-! ## Services -/

/-- What has to happen for a write: its pieces are sent one after the other, and then it is
done. -/
def service (max : Nat) (w : π × List β) : List (TransmitEvent π β) :=
  (chunks max w.2).flatMap (fun c => [.send c, .sent]) ++ [.done w.1]

theorem service_short {max : Nat} {p : π} {bytes : List β} (h : bytes.length ≤ max) :
    service max (p, bytes) = [.send bytes, .sent, .done p] := by
  rw [service, chunks_short h]
  rfl

theorem service_long {max : Nat} {p : π} {bytes : List β} (hmax : 0 < max)
    (h : max < bytes.length) :
    service max (p, bytes)
      = .send (bytes.take max) :: .sent :: service max (p, bytes.drop max) := by
  rw [service, chunks_long hmax h]
  rfl

/-- The service of a write begins with a piece. -/
theorem service_eq_cons {max : Nat} (hmax : 0 < max) (p : π) (bytes : List β) :
    service max (p, bytes) = .send (bytes.take max) :: (service max (p, bytes)).tail := by
  by_cases h : bytes.length ≤ max
  · rw [service_short h, List.take_of_length_le h]
    rfl
  · rw [service_long hmax (Nat.lt_of_not_le h)]
    rfl

/-- What has to happen until every write is done. -/
def pending (max : Nat) (t : Transmitter π β) : List (TransmitEvent π β) :=
  match t.queue with
  | [] => []
  | (p, rest) :: queue =>
    (match t.phase with
      | .idle => service max (p, rest)
      | .busy => (service max (p, rest)).tail
      | .ended => [.done p]) ++ queue.flatMap (service max)

/-! ## Runs -/

variable [DecidableEq π] [DecidableEq β]

/-- The effect of an event: `none` when it may not happen. -/
def step (max : Nat) (t : Transmitter π β) : TransmitEvent π β → Option (Transmitter π β)
  | .write p bytes => some { t with queue := t.queue ++ [(p, bytes)] }
  | .send chunk =>
    match t.queue with
    | [] => none
    | (_, rest) :: _ =>
      if t.phase = .idle ∧ chunk = rest.take max then some { t with phase := .busy } else none
  | .sent =>
    match t.queue with
    | [] => none
    | (p, rest) :: queue =>
      if t.phase = .busy then
        some (if rest.length ≤ max then { t with phase := .ended }
          else { queue := (p, rest.drop max) :: queue, phase := .idle })
      else none
  | .done p =>
    match t.queue with
    | [] => none
    | (q, _) :: queue => if t.phase = .ended ∧ q = p then some { queue := queue } else none

/-- The effect of a list of events. -/
def run (max : Nat) (t : Transmitter π β) (es : List (TransmitEvent π β)) :
    Option (Transmitter π β) :=
  es.foldlM (step max) t

@[simp] theorem run_nil (max : Nat) (t : Transmitter π β) : run max t [] = some t := rfl

theorem run_append {max : Nat} {t t' : Transmitter π β} {es es' : List (TransmitEvent π β)}
    (h : run max t es = some t') : run max t (es ++ es') = run max t' es' := by
  unfold run at h ⊢
  rw [List.foldlM_append, h]
  rfl

theorem run_cons {max : Nat} {t t' : Transmitter π β} {e : TransmitEvent π β}
    {es : List (TransmitEvent π β)} (h : step max t e = some t') :
    run max t (e :: es) = run max t' es := by
  unfold run
  rw [List.foldlM_cons, h]
  rfl

/-- Nothing is on its way when nothing is to be transmitted. -/
def Proper (t : Transmitter π β) : Prop := t.queue = [] → t.phase = .idle

/-- The writes, in order. -/
def writes (es : List (TransmitEvent π β)) : List (π × List β) :=
  es.filterMap fun e => match e with | .write p bytes => some (p, bytes) | _ => none

/-- Everything but the writes. -/
def output (es : List (TransmitEvent π β)) : List (TransmitEvent π β) :=
  es.filter fun e => match e with | .write _ _ => false | _ => true

/-- Whose writes are done, in order. -/
def dones (es : List (TransmitEvent π β)) : List π :=
  es.filterMap fun e => match e with | .done p => some p | _ => none

/-- The number of pieces that were given to the device. -/
def sends (es : List (TransmitEvent π β)) : Nat :=
  es.countP fun e => match e with | .send _ => true | _ => false

/-- The number of pieces that the device has reported. -/
def sents (es : List (TransmitEvent π β)) : Nat :=
  es.countP fun e => match e with | .sent => true | _ => false

/-- The number of pieces on their way. -/
def outstanding (t : Transmitter π β) : Nat := if t.phase = .busy then 1 else 0

/-! ## What a device that is never idle does -/

section
variable {max : Nat} {p q : π} {bytes rest next : List β} {queue : List (π × List β)}

/-- The first write is transmitted at once. -/
theorem run_write_first : run max {} [.write p bytes, .send (bytes.take max)]
    = some { queue := [(p, bytes)], phase := .busy } := by
  simp [run, step]

/-- After a piece that is not the last one, the next one is sent. -/
theorem run_sent_more (h : max < rest.length) :
    run max { queue := (p, rest) :: queue, phase := .busy }
      [.sent, .send ((rest.drop max).take max)]
      = some { queue := (p, rest.drop max) :: queue, phase := .busy } := by
  simp [run, step, Nat.not_le.mpr h]

/-- After its last piece, a write is done. -/
theorem run_sent_last (h : rest.length ≤ max) :
    run max { queue := (p, rest) :: queue, phase := .busy } [.sent, .done p]
      = some { queue := queue } := by
  simp [run, step, h]

/-- When a write is done, the next one begins. -/
theorem run_sent_next (h : rest.length ≤ max) :
    run max { queue := (p, rest) :: (q, next) :: queue, phase := .busy }
      [.sent, .done p, .send (next.take max)]
      = some { queue := (q, next) :: queue, phase := .busy } := by
  simp [run, step, h]

end

/-- What a step does, with one case for each thing that can happen. -/
inductive Steps (max : Nat) (t : Transmitter π β) :
    TransmitEvent π β → Transmitter π β → Prop
  | write {p : π} {bytes : List β} :
      Steps max t (.write p bytes) { t with queue := t.queue ++ [(p, bytes)] }
  | send {p : π} {rest : List β} {queue : List (π × List β)}
      (front : t = { queue := (p, rest) :: queue, phase := .idle }) :
      Steps max t (.send (rest.take max)) { queue := (p, rest) :: queue, phase := .busy }
  | last {p : π} {rest : List β} {queue : List (π × List β)}
      (front : t = { queue := (p, rest) :: queue, phase := .busy }) (short : rest.length ≤ max) :
      Steps max t .sent { queue := (p, rest) :: queue, phase := .ended }
  | more {p : π} {rest : List β} {queue : List (π × List β)}
      (front : t = { queue := (p, rest) :: queue, phase := .busy }) (long : max < rest.length) :
      Steps max t .sent { queue := (p, rest.drop max) :: queue, phase := .idle }
  | done {p : π} {rest : List β} {queue : List (π × List β)}
      (front : t = { queue := (p, rest) :: queue, phase := .ended }) :
      Steps max t (.done p) { queue := queue, phase := .idle }

theorem step_cases {max : Nat} {t t' : Transmitter π β} {e : TransmitEvent π β}
    (h : step max t e = some t') : Steps max t e t' := by
  obtain ⟨queue, phase⟩ := t
  cases e with
  | write p bytes =>
      cases h
      exact .write
  | send chunk =>
      cases queue with
      | nil => cases h
      | cons first queue =>
          simp only [step] at h
          split at h
          case isFalse => cases h
          case isTrue hc =>
            obtain ⟨rfl, rfl⟩ := hc
            cases h
            exact .send rfl
  | sent =>
      cases queue with
      | nil => cases h
      | cons first queue =>
          simp only [step] at h
          split at h
          case isFalse => cases h
          case isTrue hbusy =>
            subst hbusy
            by_cases hshort : first.2.length ≤ max
            · rw [if_pos hshort] at h
              cases h
              exact .last rfl hshort
            · rw [if_neg hshort] at h
              cases h
              exact .more rfl (Nat.lt_of_not_le hshort)
  | done p =>
      cases queue with
      | nil => cases h
      | cons first queue =>
          simp only [step] at h
          split at h
          case isFalse => cases h
          case isTrue hc =>
            obtain ⟨rfl, rfl⟩ := hc
            cases h
            exact .done rfl

section
variable {max : Nat} {t t' : Transmitter π β} {e : TransmitEvent π β}
  {es : List (TransmitEvent π β)}

/-- Every step leaves the device idle when it leaves nothing to be transmitted. -/
theorem proper_step (hstep : step max t e = some t') : Proper t' := by
  cases step_cases hstep with
  | write => exact fun hnil => absurd hnil (by simp)
  | send _ => exact fun hnil => by cases hnil
  | last _ _ => exact fun hnil => by cases hnil
  | more _ _ => exact fun hnil => by cases hnil
  | done _ => exact fun _ => rfl

omit [DecidableEq π] [DecidableEq β] in
/-- When the device is idle, every write that is in the queue has to be served. -/
theorem pending_idle (queue : List (π × List β)) :
    pending max { queue := queue, phase := .idle } = queue.flatMap (service max) := by
  cases queue with
  | nil => rfl
  | cons first queue => rfl

omit [DecidableEq π] [DecidableEq β] in
theorem pending_write (h : Proper t) (p : π) (bytes : List β) :
    pending max { t with queue := t.queue ++ [(p, bytes)] }
      = pending max t ++ service max (p, bytes) := by
  obtain ⟨queue, phase⟩ := t
  cases queue with
  | nil =>
      obtain rfl : phase = .idle := h rfl
      simp [pending]
  | cons first queue => simp [pending]

/-- Every event but a write is the next one that has to happen. A write adds its service. -/
theorem pending_step (hmax : 0 < max) (h : Proper t) (hstep : step max t e = some t') :
    output [e] ++ pending max t' = pending max t ++ (writes [e]).flatMap (service max) := by
  cases step_cases hstep with
  | write => simpa [output, writes] using pending_write h _ _
  | @send p rest queue front =>
      subst front
      simp only [output, writes, pending, List.filter_cons, List.filter_nil, List.filterMap_cons,
        List.filterMap_nil, List.flatMap_nil, List.append_nil, if_true, List.singleton_append]
      conv_rhs => rw [service_eq_cons hmax]
      rfl
  | last front short =>
      subst front
      simp [output, writes, pending, service_short short]
  | more front long =>
      subst front
      simp [output, writes, pending, service_long hmax long]
  | done front =>
      subst front
      rw [pending_idle]
      simp [output, writes, pending]

theorem queue_step (hstep : step max t e = some t') :
    dones [e] ++ t'.queue.map Prod.fst = t.queue.map Prod.fst ++ (writes [e]).map Prod.fst := by
  cases step_cases hstep with
  | write => simp [dones, writes]
  | send front => simp [dones, writes, front]
  | last front _ => simp [dones, writes, front]
  | more front _ => simp [dones, writes, front]
  | done front => simp [dones, writes, front]

theorem outstanding_step (hstep : step max t e = some t') :
    outstanding t + sends [e] = outstanding t' + sents [e] := by
  cases step_cases hstep with
  | write => rfl
  | send front => simp [outstanding, sends, sents, front]
  | last front _ => simp [outstanding, sends, sents, front]
  | more front _ => simp [outstanding, sends, sents, front]
  | done front => simp [outstanding, sends, sents, front]

omit [DecidableEq π] [DecidableEq β] in
theorem writes_cons (e : TransmitEvent π β) (es : List (TransmitEvent π β)) :
    writes (e :: es) = writes [e] ++ writes es := by
  rw [writes, ← List.singleton_append, List.filterMap_append]
  rfl

omit [DecidableEq π] [DecidableEq β] in
theorem dones_cons (e : TransmitEvent π β) (es : List (TransmitEvent π β)) :
    dones (e :: es) = dones [e] ++ dones es := by
  rw [dones, ← List.singleton_append, List.filterMap_append]
  rfl

omit [DecidableEq π] [DecidableEq β] in
theorem output_cons (e : TransmitEvent π β) (es : List (TransmitEvent π β)) :
    output (e :: es) = output [e] ++ output es := by
  rw [output, ← List.singleton_append, List.filter_append]
  rfl

omit [DecidableEq π] [DecidableEq β] in
theorem sends_cons (e : TransmitEvent π β) (es : List (TransmitEvent π β)) :
    sends (e :: es) = sends [e] + sends es := by
  rw [sends, ← List.singleton_append, List.countP_append]
  rfl

omit [DecidableEq π] [DecidableEq β] in
theorem sents_cons (e : TransmitEvent π β) (es : List (TransmitEvent π β)) :
    sents (e :: es) = sents [e] + sents es := by
  rw [sents, ← List.singleton_append, List.countP_append]
  rfl

/-- What has happened, but for the writes, and what is pending are the services of the
writes, one after the other. -/
theorem pending_run (hmax : 0 < max) (h : Proper t) (hrun : run max t es = some t') :
    output es ++ pending max t' = pending max t ++ (writes es).flatMap (service max) := by
  induction es generalizing t with
  | nil =>
      cases hrun
      simp [output, writes]
  | cons e es ih =>
      unfold run at hrun
      rw [List.foldlM_cons] at hrun
      obtain ⟨t₁, hstep, hrest⟩ := Option.bind_eq_some_iff.mp hrun
      calc output (e :: es) ++ pending max t'
          = output [e] ++ (output es ++ pending max t') := by
            rw [output_cons, List.append_assoc]
        _ = (output [e] ++ pending max t₁) ++ (writes es).flatMap (service max) := by
            rw [ih (proper_step hstep) hrest, List.append_assoc]
        _ = pending max t ++ (writes [e] ++ writes es).flatMap (service max) := by
            rw [pending_step hmax h hstep, List.flatMap_append, List.append_assoc]
        _ = pending max t ++ (writes (e :: es)).flatMap (service max) := by rw [← writes_cons]

/-- From the start, everything but the writes is a prefix of the services of the writes. -/
theorem run_service (hmax : 0 < max) (hrun : run max {} es = some t) :
    output es ++ pending max t = (writes es).flatMap (service max) :=
  pending_run hmax (fun _ => rfl) hrun

theorem queue_run (hrun : run max t es = some t') :
    dones es ++ t'.queue.map Prod.fst = t.queue.map Prod.fst ++ (writes es).map Prod.fst := by
  induction es generalizing t with
  | nil =>
      cases hrun
      simp [dones, writes]
  | cons e es ih =>
      unfold run at hrun
      rw [List.foldlM_cons] at hrun
      obtain ⟨t₁, hstep, hrest⟩ := Option.bind_eq_some_iff.mp hrun
      rw [dones_cons, writes_cons, List.append_assoc, ih hrest, ← List.append_assoc,
        queue_step hstep, List.map_append, List.append_assoc]

/-- The writes are done in order, and those that are not done are in the queue. -/
theorem run_dones (hrun : run max {} es = some t) :
    dones es ++ t.queue.map Prod.fst = (writes es).map Prod.fst :=
  queue_run hrun

theorem outstanding_run (hrun : run max t es = some t') :
    outstanding t + sends es = outstanding t' + sents es := by
  induction es generalizing t with
  | nil =>
      cases hrun
      rfl
  | cons e es ih =>
      unfold run at hrun
      rw [List.foldlM_cons] at hrun
      obtain ⟨t₁, hstep, hrest⟩ := Option.bind_eq_some_iff.mp hrun
      have hfirst := outstanding_step hstep
      have hothers := ih hrest
      rw [sends_cons, sents_cons]
      omega

/-- The device has reported every piece but the one that is on its way. -/
theorem run_sends (hrun : run max {} es = some t) : sends es = outstanding t + sents es := by
  have houtstanding := outstanding_run hrun
  have hstart : outstanding ({} : Transmitter π β) = 0 := rfl
  omega

end

end Transmitter

end Theynix.Lib
