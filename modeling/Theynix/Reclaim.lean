import Theynix.Objects

/-!
# `Theynix.Reclaim`: when `KernelReclaim` is atomic and precise

`KernelReclaim` takes the object out of its table before it looks whether the object is
busy, and does not put it back. `Sched.ReclaimPrecise` is what the call should do, and
`reclaim_precise_iff` says when it does: when the id names no busy object.
-/

set_option autoImplicit false

namespace Theynix

namespace Sched

/-- The id has disappeared from the table, where it was. The other entries are unchanged. -/
def Removed (id : Nat) (before after : List Nat) : Prop :=
  id ∈ before ∧ id ∉ after ∧ ∀ i, i ≠ id → (i ∈ after ↔ i ∈ before)

/-- `KernelReclaim` is atomic and precise. After `ERROR` nothing has changed. After `SUCCESS`
one object has disappeared from the tables, which was unheld and had no waiter. -/
def ReclaimPrecise (s : Sched) (id : Nat) : Prop :=
  ((s.kernelReclaim id).1 = ERROR → (s.kernelReclaim id).2 = s) ∧
  ((s.kernelReclaim id).1 = SUCCESS → ∃ locks cvars pipes,
    (s.kernelReclaim id).2 = { s with locks := locks, cvars := cvars, pipes := pipes } ∧
    (Removed id s.locks locks ∧ cvars = s.cvars ∧ pipes = s.pipes ∧
        (∃ l, s.lock id = some l ∧ l.acquired = false ∧ l.waitingProcs = []) ∨
      locks = s.locks ∧ Removed id s.cvars cvars ∧ pipes = s.pipes ∧
        (∃ c, s.cvar id = some c ∧ c.waitingProcs = []) ∨
      locks = s.locks ∧ cvars = s.cvars ∧ Removed id s.pipes pipes ∧
        ∃ p, s.pipe id = some p ∧ p.waitingToRead = []))

/-- The id names an object of a table that is held or that processes wait for. -/
def Busy (s : Sched) (id : Nat) : Prop :=
  (∃ l, s.findLock id = some l ∧ (l.acquired = true ∨ l.waitingProcs ≠ [])) ∨
  (∃ c, s.findCvar id = some c ∧ c.waitingProcs ≠ []) ∨
  ∃ p, s.findPipe id = some p ∧ p.waitingToRead ≠ []

section
variable {s : Sched} {id : Nat}

theorem removed_erase {l : List Nat} (h : l.Nodup) (hmem : id ∈ l) : Removed id l (l.erase id) :=
  ⟨hmem, h.not_mem_erase, fun _ hi => List.mem_erase_of_ne hi⟩

theorem ne_erase {l : List Nat} (h : l.Nodup) (hmem : id ∈ l) : l.erase id ≠ l := fun heq =>
  h.not_mem_erase (heq ▸ hmem)

/-- An object of one table is not in the others. -/
theorem Objects.findLock_of_cvar (h : s.Objects) {c : CVar} (hc : s.findCvar id = some c) :
    s.findLock id = none := by
  obtain ⟨-, hcvar⟩ := mem_of_findCvar hc
  cases hl : s.findLock id with
  | none => rfl
  | some l =>
      have hnone := h.lockCvar id (by rw [(mem_of_findLock hl).2]; rfl)
      cases (hcvar.symm.trans hnone)

theorem Objects.find_of_pipe (h : s.Objects) {p : Pipe} (hp : s.findPipe id = some p) :
    s.findLock id = none ∧ s.findCvar id = none := by
  obtain ⟨-, hpipe⟩ := mem_of_findPipe hp
  refine ⟨?_, ?_⟩
  · cases hl : s.findLock id with
    | none => rfl
    | some l =>
        have hnone := h.lockPipe id (by rw [(mem_of_findLock hl).2]; rfl)
        cases (hpipe.symm.trans hnone)
  · cases hc : s.findCvar id with
    | none => rfl
    | some c =>
        have hnone := h.cvarPipe id (by rw [(mem_of_findCvar hc).2]; rfl)
        cases (hpipe.symm.trans hnone)

/-- A busy object is gone from its table although the call fails. -/
theorem Objects.kernelReclaim_busy (h : s.Objects) (hbusy : s.Busy id) :
    (s.kernelReclaim id).1 = ERROR ∧ (s.kernelReclaim id).2 ≠ s := by
  rcases hbusy with ⟨l, hl, hheld⟩ | ⟨c, hc, hw⟩ | ⟨p, hp, hw⟩
  · have hne := ne_erase h.locksNodup (mem_of_findLock hl).1
    have hlocks : ({ s with locks := s.locks.erase id } : Sched) ≠ s := fun heq =>
      hne (congrArg Sched.locks heq)
    unfold Sched.kernelReclaim
    simp only [hl]
    by_cases hacquired : l.acquired = true
    · rw [if_pos hacquired]
      exact ⟨rfl, hlocks⟩
    · rw [if_neg hacquired, if_pos (hheld.resolve_left hacquired)]
      exact ⟨rfl, hlocks⟩
  · have hne := ne_erase h.cvarsNodup (mem_of_findCvar hc).1
    unfold Sched.kernelReclaim
    simp only [h.findLock_of_cvar hc, hc, if_pos hw]
    exact ⟨trivial, fun heq => hne (congrArg Sched.cvars heq)⟩
  · obtain ⟨hl, hc⟩ := h.find_of_pipe hp
    have hne := ne_erase h.pipesNodup (mem_of_findPipe hp).1
    unfold Sched.kernelReclaim
    simp only [hl, hc, hp, if_pos hw]
    exact ⟨trivial, fun heq => hne (congrArg Sched.pipes heq)⟩

/-- An object that is not busy is reclaimed, and an unknown id changes nothing. -/
theorem Objects.kernelReclaim_idle (h : s.Objects) (hidle : ¬ s.Busy id) : s.ReclaimPrecise id := by
  simp only [Busy, not_or, not_exists, not_and] at hidle
  obtain ⟨hlock, hcvar, hpipe⟩ := hidle
  unfold ReclaimPrecise Sched.kernelReclaim
  cases hl : s.findLock id with
  | some l =>
      have hfree : l.acquired = false := by simpa using (hlock l hl).1
      have hw : l.waitingProcs = [] := not_not.mp (hlock l hl).2
      obtain ⟨hmem, hobj⟩ := mem_of_findLock hl
      simp only [hfree, hw, ne_eq, not_true_eq_false, if_false, Bool.false_eq_true]
      refine ⟨fun hrc => (by cases hrc), fun _ => ⟨_, s.cvars, s.pipes, rfl, .inl ⟨?_, rfl, rfl, ?_⟩⟩⟩
      · exact removed_erase h.locksNodup hmem
      · exact ⟨l, hobj, hfree, hw⟩
  | none =>
      cases hc : s.findCvar id with
      | some c =>
          have hw : c.waitingProcs = [] := not_not.mp (hcvar c hc)
          obtain ⟨hmem, hobj⟩ := mem_of_findCvar hc
          simp only [hw, ne_eq, not_true_eq_false, if_false]
          refine ⟨fun hrc => (by cases hrc),
            fun _ => ⟨s.locks, _, s.pipes, rfl, .inr (.inl ⟨rfl, ?_, rfl, c, hobj, hw⟩)⟩⟩
          exact removed_erase h.cvarsNodup hmem
      | none =>
          cases hp : s.findPipe id with
          | some p =>
              have hw : p.waitingToRead = [] := not_not.mp (hpipe p hp)
              obtain ⟨hmem, hobj⟩ := mem_of_findPipe hp
              simp only [hw, ne_eq, not_true_eq_false, if_false]
              refine ⟨fun hrc => (by cases hrc),
                fun _ => ⟨s.locks, s.cvars, _, rfl, .inr (.inr ⟨rfl, rfl, ?_, p, hobj, hw⟩)⟩⟩
              exact removed_erase h.pipesNodup hmem
          | none => exact ⟨fun _ => rfl, fun hrc => by cases hrc⟩

end

end Sched

open Sched

/-- `KernelReclaim` is atomic and precise exactly when the id names no busy object. -/
theorem reclaim_precise_iff {b : BootImage} {k : Kernel} (h : Reachable b k) (id : Nat) :
    k.toSched.ReclaimPrecise id ↔ ¬ k.toSched.Busy id := by
  have hobj := reachable_objects h
  refine ⟨fun hprecise hbusy => ?_, hobj.kernelReclaim_idle⟩
  obtain ⟨hrc, hne⟩ := hobj.kernelReclaim_busy hbusy
  exact hne (hprecise.1 hrc)

/-- Init has made a lock, which it may hold. -/
def reclaimRuns (calls : List Event) : List Event :=
  initRuns ++ systemCall YALNIX_LOCK_INIT stackBuffer 0 0 :: calls

/-- Reclaiming a lock that the caller holds fails, and the lock is gone. -/
theorem reclaim_held_lock : ∃ k,
    Kernel.run smallImage (reclaimRuns [systemCall YALNIX_LOCK_ACQUIRE 1 0 0]) = some k ∧
    Reachable smallImage k ∧ (k.toSched.kernelReclaim 1).1 = ERROR ∧ 1 ∈ k.locks ∧
    1 ∉ (k.toSched.kernelReclaim 1).2.locks ∧ ¬ k.toSched.ReclaimPrecise 1 := by
  have hsome : ((Kernel.run smallImage (reclaimRuns [systemCall YALNIX_LOCK_ACQUIRE 1 0 0])).map
      fun k => ((k.toSched.kernelReclaim 1).1, k.locks, (k.toSched.kernelReclaim 1).2.locks))
        = some (ERROR, [1], []) := by decide +kernel
  obtain ⟨k, hrun, heq⟩ := Option.map_eq_some_iff.mp hsome
  simp only [Prod.mk.injEq] at heq
  obtain ⟨hrc, hbefore, hafter⟩ := heq
  refine ⟨k, hrun, .of_run hrun, hrc, by simp [hbefore], by simp [hafter], fun hprecise => ?_⟩
  have hsame := congrArg Sched.locks (hprecise.1 hrc)
  rw [hafter, hbefore] at hsame
  cases hsame

/-- Reclaiming a lock that nobody holds works. -/
theorem reclaim_precise_iff_free : ∃ k, Kernel.run smallImage (reclaimRuns []) = some k ∧
    1 ∈ k.locks ∧ (k.toSched.kernelReclaim 1).1 = SUCCESS ∧ k.toSched.ReclaimPrecise 1 := by
  have hsome : ((Kernel.run smallImage (reclaimRuns [])).map fun k =>
      ((k.locks, k.cvars, k.pipes), (k.toSched.kernelReclaim 1).1,
        (k.findLock 1).map fun l => (l.acquired, l.waitingProcs)))
        = some (([1], [], []), SUCCESS, some (false, [])) := by decide +kernel
  obtain ⟨k, hrun, heq⟩ := Option.map_eq_some_iff.mp hsome
  simp only [Prod.mk.injEq] at heq
  obtain ⟨⟨hlocks, hcvars, hpipes⟩, hrc, hlock⟩ := heq
  refine ⟨k, hrun, by simp [hlocks], hrc, (reclaim_precise_iff (.of_run hrun) 1).mpr ?_⟩
  rintro (⟨l, hl, hbusy⟩ | ⟨c, hc, -⟩ | ⟨p, hp, -⟩)
  · simp only [hl, Option.map_some, Option.some.injEq, Prod.mk.injEq] at hlock
    simp [hlock.1, hlock.2] at hbusy
  · have hmem := (mem_of_findCvar hc).1
    simp [hcvars] at hmem
  · have hmem := (mem_of_findPipe hp).1
    simp [hpipes] at hmem

end Theynix
