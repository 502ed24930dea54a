/-!
# `Theynix.Lib.FifoLock`: a lock that is handed over in FIFO order

The abstract lock has a holder and a queue. `FifoLock.step` is partial: an event that a
FIFO lock with mutual exclusion does not allow has no result. That an event list has a run
therefore says that no waiter was overtaken, that the lock never had two holders, and that
only the holder returned from acquiring it.

* `run_blocks` is the order: who blocked is who was granted the lock, followed by who still
  waits.
* `run_wellFormed`: nobody waits twice, the holder does not wait, and only for a lock that
  is held does anyone wait.
-/

set_option autoImplicit false

namespace Theynix.Lib

universe u
variable {α : Type u}

/-- What can happen to a lock. -/
inductive LockEvent (α : Type u)
  /-- A process takes a lock that nobody holds. -/
  | take (p : α)
  /-- A process starts waiting for the lock. -/
  | block (p : α)
  /-- The holder gives the lock to a waiting process. -/
  | grant (p : α)
  /-- The holder gives the lock up. -/
  | free
  /-- A process comes back from acquiring the lock. -/
  | returned (p : α)

/-- Who holds a lock, and who waits for it, the one to get it next first. -/
structure FifoLock (α : Type u) where
  holder : Option α := none
  queue : List α := []

namespace FifoLock

/-- Nobody waits twice, the holder does not wait, and nobody waits for an available lock. -/
structure WellFormed (l : FifoLock α) : Prop where
  nodup : l.queue.Nodup
  holder : ∀ p, l.holder = some p → p ∉ l.queue
  waiting : l.queue ≠ [] → l.holder ≠ none

/-- A lock that nobody holds or waits for. -/
theorem wellFormed_empty : ({} : FifoLock α).WellFormed :=
  ⟨List.nodup_nil, fun _ hq => (by cases hq), fun hq => absurd rfl hq⟩

variable [DecidableEq α]

/-- The effect of an event on a lock: `none` when the lock does not allow it. -/
def step (l : FifoLock α) : LockEvent α → Option (FifoLock α)
  | .take p => if l.holder = none ∧ l.queue = [] then some { holder := some p } else none
  | .block p =>
    if l.holder ≠ none ∧ l.holder ≠ some p ∧ p ∉ l.queue then
      some { l with queue := l.queue ++ [p] }
    else none
  | .grant p =>
    if l.holder ≠ none ∧ l.queue.head? = some p then
      some { holder := some p, queue := l.queue.tail }
    else none
  | .free => if l.holder ≠ none ∧ l.queue = [] then some {} else none
  | .returned p => if l.holder = some p then some l else none

/-- The effect of a list of events. -/
def run (l : FifoLock α) (es : List (LockEvent α)) : Option (FifoLock α) := es.foldlM step l

@[simp] theorem run_nil (l : FifoLock α) : l.run [] = some l := rfl

theorem run_concat {l l' : FifoLock α} {es : List (LockEvent α)} {e : LockEvent α}
    (h : l.run es = some l') : l.run (es ++ [e]) = l'.step e := by
  unfold run at h ⊢
  rw [List.foldlM_append, h]
  simp

/-- The processes that started to wait, in order. -/
def blocks (es : List (LockEvent α)) : List α :=
  es.filterMap fun e => match e with | .block p => some p | _ => none

/-- The processes that were given the lock while they waited, in order. -/
def grants (es : List (LockEvent α)) : List α :=
  es.filterMap fun e => match e with | .grant p => some p | _ => none

/-- Waiting processes get the lock in the order in which they started to wait. -/
theorem run_blocks {l l' : FifoLock α} {es : List (LockEvent α)} (h : l.run es = some l') :
    l.queue ++ blocks es = grants es ++ l'.queue := by
  induction es generalizing l with
  | nil =>
      cases h
      simp [blocks, grants]
  | cons e es ih =>
      unfold run at h
      rw [List.foldlM_cons] at h
      obtain ⟨l₁, hstep, hrun⟩ := Option.bind_eq_some_iff.mp h
      have hih := ih hrun
      cases e with
      -- The lock was free, so nobody was queued.
      | take p =>
          simp only [step] at hstep
          split at hstep
          · rename_i hc
            cases hstep
            simpa [blocks, grants, hc.2] using hih
          · cases hstep
      | block p =>
          simp only [step] at hstep
          split at hstep
          · cases hstep
            simpa [blocks, grants] using hih
          · cases hstep
      -- The holder that is granted the lock was the head of the queue.
      | grant p =>
          simp only [step] at hstep
          split at hstep
          · rename_i hc
            cases hstep
            obtain ⟨rest, hq⟩ := List.head?_eq_some_iff.mp hc.2
            simp only [hq, List.tail_cons] at hih
            simpa [blocks, grants, hq] using hih
          · cases hstep
      | free =>
          simp only [step] at hstep
          split at hstep
          · rename_i hc
            cases hstep
            simpa [blocks, grants, hc.2] using hih
          · cases hstep
      | returned p =>
          simp only [step] at hstep
          split at hstep
          · cases hstep
            simpa [blocks, grants] using hih
          · cases hstep

theorem step_wellFormed {l l' : FifoLock α} {e : LockEvent α} (hl : l.WellFormed)
    (h : l.step e = some l') : l'.WellFormed := by
  cases e with
  | take p =>
      simp only [step] at h
      split at h
      · cases h
        exact ⟨List.nodup_nil, fun _ _ hq => (by cases hq), fun hq => absurd rfl hq⟩
      · cases h
  | block p =>
      simp only [step] at h
      split at h
      -- A process that blocks neither holds the lock nor is queued.
      · rename_i hc
        cases h
        refine ⟨?_, fun q hq hmem => ?_, fun _ => hc.1⟩
        · refine List.nodup_append.mpr ⟨hl.nodup, by simp, fun a ha b hb hab => ?_⟩
          exact hc.2.2 (List.mem_singleton.mp hb ▸ hab ▸ ha)
        · rcases List.mem_append.mp hmem with hmem | hmem
          · exact hl.holder q hq hmem
          · exact hc.2.1 (List.mem_singleton.mp hmem ▸ hq)
      · cases h
  | grant p =>
      simp only [step] at h
      split at h
      · rename_i hc
        cases h
        obtain ⟨rest, hq⟩ := List.head?_eq_some_iff.mp hc.2
        have hnodup := hl.nodup
        rw [hq, List.nodup_cons] at hnodup
        refine ⟨?_, fun q hq' => ?_, fun _ => by simp⟩
        · rw [hq]
          exact hnodup.2
        · cases hq'
          rw [hq]
          exact hnodup.1
      · cases h
  | free =>
      simp only [step] at h
      split at h
      · cases h
        exact ⟨List.nodup_nil, fun _ hq => (by cases hq), fun hq => absurd rfl hq⟩
      · cases h
  | returned p =>
      simp only [step] at h
      split at h
      · cases h
        exact hl
      · cases h

theorem run_wellFormed {l l' : FifoLock α} {es : List (LockEvent α)} (hl : l.WellFormed)
    (h : l.run es = some l') : l'.WellFormed := by
  induction es generalizing l with
  | nil =>
      cases h
      exact hl
  | cons e es ih =>
      unfold run at h
      rw [List.foldlM_cons] at h
      obtain ⟨l₁, hstep, hrun⟩ := Option.bind_eq_some_iff.mp h
      exact ih (step_wellFormed hl hstep) hrun

end FifoLock

end Theynix.Lib
