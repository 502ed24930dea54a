import Theynix.ExitStatus
import Theynix.LockCalls
import Theynix.ListRefinement

/-!
# `Theynix.HashedLists`: the kernel keeps to the rule of its hash tables

A list with a hash table finds and removes by id in the bucket and not in the chain, so it
must not have two entries with one id: `SeqList.distinct` is what `lists_refine_sequences`
asks of every caller. The kernel keeps six kinds of list with a hash table. `Sched.ids` are the
ids under which the entries of such a list are listed.

`hashed_ids_distinct` says that the kernel keeps to the rule in every state it reaches. Each
kind of list owes this to another invariant: the ids of locks, condition variables and pipes
come from one counter, a child has one parent, a lock has one holder, and a process waits in
one place.
-/

set_option autoImplicit false

namespace Theynix

open Theynix.Lib

/-- The lists that the kernel makes with a hash table. -/
inductive HashedList
  | locks
  | cvars
  | pipes
  | liveChildren (p : Pid)
  | ownedLockIds (p : Pid)
  | waitingToTransmit (ttyId : Nat)
deriving DecidableEq

namespace Sched

/-- The ids of the entries of a list: what the callers pass to `ListEnqueue` and `ListAppend`. -/
def ids (s : Sched) : HashedList → List Nat
  | .locks => s.locks
  | .cvars => s.cvars
  | .pipes => s.pipes
  | .liveChildren p => s.children p
  | .ownedLockIds p => s.owned p
  | .waitingToTransmit ttyId => (s.ttys ttyId).waitingToTransmit

variable {s : Sched}

/-- A process owns a lock once. -/
theorem LockInv.ownedNodup (h : s.LockInv) (p : Pid) : (s.owned p).Nodup := by
  refine List.nodup_iff_count_le_one.mpr fun i => ?_
  rw [h.owned p i]
  split
  · exact Nat.le_refl 1
  · exact Nat.zero_le 1

/-- A process waits for a terminal once. -/
theorem Settled.transmitNodup {parked : Prop} (h : s.Settled parked) (ttyId : Nat) :
    (s.ttys ttyId).waitingToTransmit.Nodup := by
  refine List.nodup_iff_count_le_one.mpr fun p => ?_
  have hle : s.occ (.transmit ttyId) p ≤ 1 := h.placed.le_one (.transmit ttyId) p
  exact hle

end Sched

/-- No list with a hash table ever has two entries with one id. -/
theorem hashed_ids_distinct {b : BootImage} {k : Kernel} (h : Reachable b k) (q : HashedList) :
    (k.ids q).Nodup := by
  obtain ⟨⟨hobj, hrun⟩, hfamily⟩ := reachable_familyInv h
  obtain ⟨-, -, hlocks⟩ := reachable_lockInv h
  cases q with
  | locks => exact hobj.locksNodup
  | cvars => exact hobj.cvarsNodup
  | pipes => exact hobj.pipesNodup
  | liveChildren p => exact hfamily.childrenNodup p
  | ownedLockIds p => exact hlocks.ownedNodup p
  | waitingToTransmit ttyId => exact hrun.transmitNodup ttyId

/-- Init has a lock and a child, which waits for the lock. -/
theorem hashed_ids_distinct_child : ∃ k, Kernel.run smallImage lockRuns = some k ∧
    k.ids .locks = [1] ∧ k.ids (.liveChildren INIT_PID) = [2] ∧
    k.ids (.ownedLockIds INIT_PID) = [1] ∧ ∀ q, (k.ids q).Nodup := by
  have hsome : ((Kernel.run smallImage lockRuns).map fun k =>
      (k.ids .locks, k.ids (.liveChildren INIT_PID), k.ids (.ownedLockIds INIT_PID)))
      = some ([1], [2], [1]) := by
    decide +kernel
  obtain ⟨k, hrun, hids⟩ := Option.map_eq_some_iff.mp hsome
  simp only [Prod.mk.injEq] at hids
  exact ⟨k, hrun, hids.1, hids.2.1, hids.2.2, hashed_ids_distinct (.of_run hrun)⟩

end Theynix
