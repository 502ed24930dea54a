import Theynix.LockCalls

/-!
# `Theynix.Exit`: when an exiting process gives up its locks

`KernelExit` releases the first lock of `owned_lock_ids` until the list is empty, and does
not look at what `KernelRelease` returns. A release fails for a lock that is not in the
table any more, takes nothing off the list, and the loop goes on for ever. So the loop ends
exactly when every lock of the process is still in the table: `exit_gives_up_locks_iff`.
-/

set_option autoImplicit false

namespace Theynix

open Theynix.Lib (FifoLock bind_eq_ok ite_eq_ok)

namespace Sched

/-- The lock is free, or it has gone to the process that was the first to wait, which is
ready. -/
def PassedOn (s s' : Sched) (lockId : Nat) : Prop :=
  ∃ l l', s.lock lockId = some l ∧ s'.lock lockId = some l' ∧
    (l.waitingProcs = [] ∧ l'.acquired = false ∨
      ∃ proc rest, l.waitingProcs = proc :: rest ∧ l'.acquired = true ∧ l'.ownerId = proc ∧
        proc ∈ s'.readyQueue)

/-- `KernelExit` reaches its end, and has given up every lock of the process. -/
def ExitGivesUpLocks (s : Sched) (status : Int) : Prop :=
  ∃ s', s.kernelExit status = .ok s' ∧ s'.owned s.currentProc = [] ∧
    (∀ lockId l, s'.lock lockId = some l → l.acquired = true → l.ownerId ≠ s.currentProc) ∧
    ∀ lockId ∈ s.owned s.currentProc, PassedOn s s' lockId

section
variable {s s' : Sched}

/-! ## A lock that is not in the table -/

theorem mem_owned_handOver {lockId i : Nat} {proc p : Pid} {rest : List Pid}
    (hi : i ∈ s.owned p) : i ∈ (s.handOver lockId proc rest).owned p := by
  show i ∈ ((s.updLock lockId _).updPcb proc _).owned p
  rw [owned_updPcb]
  rw [Sched.owned] at hi
  show i ∈ ((s.pcb p).map _).getD []
  cases ha : s.pcb p with
  | none => simp [ha] at hi
  | some a =>
      simp only [ha, Option.map_some, Option.getD_some] at hi ⊢
      split
      · exact List.mem_append_left _ hi
      · exact hi

/-- A release takes no other lock off the list. -/
theorem mem_owned_kernelRelease {lockId i : Nat} {rc : Int}
    (hok : s.kernelRelease lockId = .ok (rc, s')) (hi : i ∈ s.owned s.currentProc)
    (hne : i ≠ lockId) : i ∈ s'.owned s'.currentProc := by
  have hdisown : i ∈ (s.disown lockId).owned s.currentProc := by
    rw [owned_disown, if_pos rfl]
    exact (List.mem_erase_of_ne hne).mpr hi
  cases kernelRelease_cases hok with
  | error => exact hi
  | available => exact hdisown
  | handOver => exact mem_owned_handOver hdisown

/-- A lock that is not in the table stays on the list, so the loop does not end. -/
theorem releaseOwnedLocks_mem_locks {fuel i : Nat} (hok : s.releaseOwnedLocks fuel = .ok s')
    (hi : i ∈ s.owned s.currentProc) : i ∈ s.locks := by
  by_contra hmissing
  have hleft := releaseOwnedLocks_rule
    (P := fun s => i ∈ s.owned s.currentProc ∧ i ∉ s.locks) ?_ ⟨hi, hmissing⟩ hok
  · rw [releaseOwnedLocks_owned hok] at hleft
    cases hleft.1
  · rintro s₁ lockId rc s₂ ⟨hi₁, hmissing₁⟩ hr
    have hlocks := (kernelRelease_sameObjects hr).locks
    rw [hlocks]
    refine ⟨?_, hmissing₁⟩
    by_cases hne : i = lockId
    · -- The release fails.
      subst hne
      cases kernelRelease_cases hr with
      | error => exact hi₁
      | available found => exact absurd (mem_of_findLock found).1 hmissing₁
      | handOver found => exact absurd (mem_of_findLock found).1 hmissing₁
    · exact mem_owned_kernelRelease hr hi₁ hne

/-! ## Every lock in the table -/

/-- A lock that the current process has in its list is held by it. -/
theorem LockInv.holds_of_owned {lockId : Nat} {p : Pid} (h : s.LockInv)
    (hi : lockId ∈ s.owned p) :
    ∃ l, s.lock lockId = some l ∧ l.acquired = true ∧ l.ownerId = p := by
  have hholder : (s.fifoLock lockId).holder = some p := by
    by_contra hne
    have hcount := h.owned p lockId
    rw [if_neg hne] at hcount
    exact List.count_eq_zero.mp hcount hi
  cases hl : s.lock lockId with
  | none => simp [fifoLock, hl] at hholder
  | some l =>
      rw [fifoLock_of_lock hl] at hholder
      have hacquired : l.acquired = true := by
        by_contra hnot
        simp [Lock.toFifo, hnot] at hholder
      exact ⟨l, rfl, hacquired, by simpa [Lock.toFifo, hacquired] using hholder⟩

/-- A process releases a lock that it owns and that is in the table. -/
theorem LockInv.kernelRelease_owned {lockId : Nat} (h : s.LockInv)
    (hi : lockId ∈ s.owned s.currentProc) (hmem : lockId ∈ s.locks) :
    ∃ s₁, s.kernelRelease lockId = .ok (SUCCESS, s₁) ∧
      s₁.owned s.currentProc = (s.owned s.currentProc).erase lockId ∧
      (∀ i, i ≠ lockId → s₁.lock i = s.lock i) ∧ PassedOn s s₁ lockId := by
  obtain ⟨l, hl, hacquired, howner⟩ := h.holds_of_owned hi
  have hfound : s.findLock lockId = some l := by rw [findLock, if_pos hmem, hl]
  have hassert : cAssert (((s.pcb s.currentProc).map fun p =>
      decide (lockId ∈ p.ownedLockIds)).getD false) = .ok () := by
    rw [Sched.owned] at hi
    cases ha : s.pcb s.currentProc with
    | none => simp [ha] at hi
    | some a =>
        simp only [ha, Option.map_some, Option.getD_some] at hi
        simp [cAssert, hi]
  have howned : (s.disown lockId).owned s.currentProc = (s.owned s.currentProc).erase lockId := by
    rw [owned_disown, if_pos rfl]
  unfold Sched.kernelRelease
  simp only [hfound, hacquired, howner, Bool.not_true, bne_self_eq_false, Bool.or_self,
    Bool.false_eq_true, if_false, hassert]
  cases hw : l.waitingProcs with
  -- Nobody waits: the lock is available again.
  | nil =>
      refine ⟨_, rfl, howned, fun i hi => ?_, l, { l with acquired := false }, hl, ?_, .inl ⟨hw, rfl⟩⟩
      · exact if_neg hi
      · exact (if_pos rfl).trans (by rw [show (s.disown lockId).lock lockId = some l from hl]; rfl)
  -- The first process that waits has the lock, and is ready.
  | cons proc rest =>
      have hne : proc ≠ s.currentProc := by
        rintro rfl
        have hout := (h.lock hl).2.2.2
        rw [howner, hw] at hout
        exact hout List.mem_cons_self
      refine ⟨_, rfl, ?_, fun i hi => ?_, l, { l with waitingProcs := rest, ownerId := proc }, hl, ?_,
        .inr ⟨proc, rest, hw, hacquired, rfl, ?_⟩⟩
      · rw [← howned]
        show (((s.disown lockId).updLock lockId _).updPcb proc _).owned s.currentProc = _
        rw [owned_updPcb]
        simp only [if_neg (Ne.symm hne)]
        rfl
      · exact if_neg hi
      · exact (if_pos rfl).trans (by rw [show (s.disown lockId).lock lockId = some l from hl]; rfl)
      · exact List.mem_append_right _ (List.mem_singleton.mpr rfl)

theorem releaseOwnedLocks_nil {fuel : Nat} (h : s.owned s.currentProc = []) :
    s.releaseOwnedLocks fuel = .ok s := by
  rw [Sched.owned] at h
  cases fuel with
  | zero =>
      unfold releaseOwnedLocks
      split
      · rename_i heq
        simp [heq] at h
      · rfl
  | succ fuel =>
      unfold releaseOwnedLocks
      split
      · rename_i heq
        simp [heq] at h
      · rfl

theorem releaseOwnedLocks_cons {fuel lockId : Nat} {rest : List Nat}
    (h : s.owned s.currentProc = lockId :: rest) :
    s.releaseOwnedLocks (fuel + 1)
      = s.kernelRelease lockId >>= fun r => r.2.releaseOwnedLocks fuel := by
  rw [Sched.owned] at h
  rw [releaseOwnedLocks]
  cases hmap : (s.pcb s.currentProc).map PCB.ownedLockIds with
  | none => simp [hmap] at h
  | some ids =>
      rw [hmap, Option.getD_some] at h
      subst h
      rfl

/-- The loop of `KernelExit`, when every lock of the process is in the table. -/
theorem LockInv.releaseOwnedLocks_ok {fuel : Nat} (h : s.LockInv) (hset : s.Running)
    (hnot : ∀ i, s.mode = .kernel → ¬ s.InAcquire s.currentProc i)
    (hmem : ∀ i ∈ s.owned s.currentProc, i ∈ s.locks)
    (hfuel : (s.owned s.currentProc).length ≤ fuel) :
    ∃ s', s.releaseOwnedLocks fuel = .ok s' ∧
      (∀ i, i ∉ s.owned s.currentProc → s'.lock i = s.lock i) ∧
      ∀ i ∈ s.owned s.currentProc, PassedOn s s' i := by
  induction fuel generalizing s with
  | zero =>
      have hnil : s.owned s.currentProc = [] := List.length_eq_zero_iff.mp (by omega)
      refine ⟨s, releaseOwnedLocks_nil hnil, fun _ _ => rfl, fun i hi => ?_⟩
      rw [hnil] at hi
      cases hi
  | succ fuel ih =>
      cases howned : s.owned s.currentProc with
      | nil =>
          exact ⟨s, releaseOwnedLocks_nil howned, fun _ _ => rfl, fun i hi => by cases hi⟩
      | cons lockId rest =>
          have hhead : lockId ∈ s.owned s.currentProc := howned ▸ List.mem_cons_self
          obtain ⟨s₁, hrelease, howned₁, hother₁, hpassed₁⟩ :=
            h.kernelRelease_owned hhead (hmem lockId hhead)
          have hl₁ := (hset.kernelRelease hrelease).2
          have hcur₁ := hl₁.currentProc
          rw [howned, List.erase_cons_head] at howned₁
          -- A lock is listed once, because it has one holder.
          have hnodup : lockId ∉ rest := by
            have hcount := h.owned s.currentProc lockId
            rw [howned, List.count_cons_self] at hcount
            have hle : (if (s.fifoLock lockId).holder = some s.currentProc then 1 else 0) ≤ 1 := by
              split <;> omega
            exact List.count_eq_zero.mp (by omega)
          have hnot₁ : ∀ i, s₁.mode = .kernel → ¬ s₁.InAcquire s₁.currentProc i := by
            intro i hmode hctx
            have hctx := hl₁.inAcquire hctx
            rw [hcur₁] at hctx
            exact hnot i (hl₁.kernelMode hmode) hctx
          have hlocks₁ := (kernelRelease_sameObjects hrelease).locks
          obtain ⟨s', hrun, hother, hpassed⟩ := ih (h.kernelRelease hset hnot hrelease)
            (hset.kernelRelease hrelease).1 hnot₁
            (fun i hi => by
              rw [hcur₁, howned₁] at hi
              rw [hlocks₁]
              exact hmem i (howned ▸ List.mem_cons_of_mem _ hi))
            (by
              rw [hcur₁, howned₁]
              rw [howned, List.length_cons] at hfuel
              omega)
          rw [hcur₁, howned₁] at hother hpassed
          have hready : s₁.readyQueue <+: s'.readyQueue :=
            ((hset.kernelRelease hrelease).1.releaseOwnedLocks hrun).2.readyQueue
          refine ⟨s', ?_, fun i hi => ?_, fun i hi => ?_⟩
          · rw [releaseOwnedLocks_cons howned, hrelease]
            exact hrun
          · obtain ⟨hne, hrest⟩ := not_or.mp fun e => hi (List.mem_cons.mpr e)
            rw [hother i hrest, hother₁ i hne]
          · rcases List.mem_cons.mp hi with rfl | hi
            · -- The lock that is released first is not touched by the rest of the loop.
              obtain ⟨l, l', hl, hl', hcase⟩ := hpassed₁
              refine ⟨l, l', hl, by rw [hother i hnodup, hl'], hcase.imp id ?_⟩
              rintro ⟨proc, waiting, hw, hacq, howner, hmemReady⟩
              exact ⟨proc, waiting, hw, hacq, howner, hready.subset hmemReady⟩
            · obtain ⟨l, l', hl, hl', hcase⟩ := hpassed i hi
              refine ⟨l, l', ?_, hl', hcase⟩
              rwa [← hother₁ i fun e => hnodup (e ▸ hi)]

theorem leaveFamily_readyQueue {status : Int} {p : Pid} (hp : p ∈ s.readyQueue) :
    p ∈ (s.leaveFamily status).readyQueue := by
  unfold leaveFamily
  split
  · exact hp
  · dsimp only
    split
    · exact hp
    · unfold becomeZombie
      dsimp only
      split
      · exact List.mem_append_left _ hp
      · exact hp

/-- When every lock of the process is in the table, `KernelExit` gives them all up. -/
theorem LockInv.exitGivesUpLocks {status : Int} (h : s.LockInv) (hset : s.Running)
    (hnot : ∀ i, s.mode = .kernel → ¬ s.InAcquire s.currentProc i)
    (hinit : s.currentProc ≠ INIT_PID) (hmem : ∀ i ∈ s.owned s.currentProc, i ∈ s.locks) :
    s.ExitGivesUpLocks status := by
  have hlength : ((s.pcb s.currentProc).map fun p => p.ownedLockIds.length).getD 0
      = (s.owned s.currentProc).length := by
    rw [Sched.owned]
    cases s.pcb s.currentProc <;> rfl
  obtain ⟨s₁, hrun, -, hpassed⟩ := h.releaseOwnedLocks_ok hset hnot hmem (Nat.le_refl _)
  obtain ⟨hset₁, hl₁⟩ := hset.releaseOwnedLocks hrun
  have hempty : s₁.owned s.currentProc = [] := hl₁.currentProc ▸ releaseOwnedLocks_owned hrun
  obtain ⟨-, -, hlock, -⟩ := leaveFamily_keeps s₁ status
  have h₁ : s₁.LockInv := by
    obtain ⟨h₁, -⟩ := releaseOwnedLocks_rule
      (P := fun s₁ => s₁.LockInv ∧ s₁.Running ∧ SameLives s s₁)
      (fun s₁ _ _ _ hP hr => by
        refine ⟨hP.1.kernelRelease hP.2.1 (fun i hmode hctx => ?_) hr,
          (hP.2.1.kernelRelease hr).1, hP.2.2.trans (hP.2.1.kernelRelease hr).2⟩
        have hctx := hP.2.2.inAcquire hctx
        rw [hP.2.2.currentProc] at hctx
        exact hnot i (hP.2.2.kernelMode hmode) hctx) ⟨h, hset, .refl s⟩ hrun
    exact h₁
  refine ⟨s₁.leaveFamily status, ?_, ?_, fun lockId l hl hacquired howner => ?_,
    fun lockId hi => ?_⟩
  · unfold Sched.kernelExit
    rw [if_neg hinit]
    dsimp only
    rw [hlength, hrun]
    rfl
  · cases ha' : (s₁.leaveFamily status).pcb s.currentProc with
    | none => simp [Sched.owned, ha']
    | some a' =>
        obtain ⟨a, ha, hcore⟩ := leaveFamily_sameCores s₁ status _ a' ha'
        have howned : a.ownedLockIds = a'.ownedLockIds := congrArg (fun c => c.2.1) hcore
        have hnil : a.ownedLockIds = [] := by simpa [Sched.owned, ha] using hempty
        simp [Sched.owned, ha', ← howned, hnil]
  -- No lock names the process any more, since its list is empty.
  · rw [hlock] at hl
    have hcount := h₁.owned s.currentProc lockId
    rw [fifoLock_of_lock hl, if_pos (by simp [Lock.toFifo, hacquired, howner]), hempty] at hcount
    cases hcount
  · obtain ⟨l, l', hl, hl', hcase⟩ := hpassed lockId hi
    refine ⟨l, l', hl, by rw [hlock, hl'], hcase.imp id ?_⟩
    rintro ⟨proc, waiting, hw, hacq, howner, hready⟩
    exact ⟨proc, waiting, hw, hacq, howner, leaveFamily_readyQueue hready⟩

/-- When a lock of the process is not in the table, `KernelExit` does not end. -/
theorem mem_locks_of_kernelExit {status : Int} {i : Nat} (hok : s.kernelExit status = .ok s')
    (hi : i ∈ s.owned s.currentProc) : i ∈ s.locks := by
  unfold Sched.kernelExit at hok
  rcases ite_eq_ok hok with ⟨-, hok⟩ | ⟨-, hok⟩
  · cases hok
  obtain ⟨s₁, hrelease, -⟩ := bind_eq_ok.mp hok
  exact releaseOwnedLocks_mem_locks hrelease hi

end

end Sched

open Sched

/-- The exit of a process other than init gives up all its locks when each of them is in the
table. -/
theorem exitGivesUpLocks_of_mem {b : BootImage} {k : Kernel} (h : Reachable b k) (status : Int)
    (entry : k.toSched.Calls ∨ k.toSched.ResumesIn .fatalTrap) (hinit : k.currentProc ≠ INIT_PID)
    (hmem : ∀ lockId ∈ k.owned k.currentProc, lockId ∈ k.locks) :
    k.toSched.ExitGivesUpLocks status := by
  obtain ⟨-, hrun, hinv⟩ := reachable_lockInv h
  refine hinv.exitGivesUpLocks hrun (fun i hmode => ?_) hinit hmem
  rcases entry with calls | entry
  · exact calls.not_inAcquire i hmode
  · exact entry.not_inAcquire (fun _ => by simp) i

/-- In every reachable state in which a process other than init exits, the exit ends and
gives up all its locks exactly when each of them is still in the table. -/
theorem exit_gives_up_locks_iff {b : BootImage} {k : Kernel} (h : Reachable b k) (status : Int)
    (entry : k.toSched.Calls ∨ k.toSched.ResumesIn .fatalTrap)
    (hinit : k.currentProc ≠ INIT_PID) :
    k.toSched.ExitGivesUpLocks status ↔ ∀ lockId ∈ k.owned k.currentProc, lockId ∈ k.locks := by
  constructor
  · rintro ⟨s', hok, -⟩ lockId hi
    exact mem_locks_of_kernelExit hok hi
  · exact exitGivesUpLocks_of_mem h status entry hinit

/-- A child of init takes a lock, and makes the calls that follow. -/
def childHoldsLock (calls : List Event) : List Event :=
  initRuns ++ systemCall YALNIX_FORK 0 0 0 :: .resume ::
    systemCall YALNIX_LOCK_INIT stackBuffer 0 0 :: systemCall YALNIX_LOCK_ACQUIRE 1 0 0 :: calls

/-- A process that has reclaimed a lock it holds cannot exit. -/
theorem exit_hangs_reclaimed : ∃ k,
    Kernel.run smallImage (childHoldsLock [systemCall YALNIX_RECLAIM 1 0 0]) = some k ∧
    Reachable smallImage k ∧ k.toSched.Calls ∧ k.currentProc = 2 ∧
    ¬ k.toSched.ExitGivesUpLocks 0 := by
  have hsome : ((Kernel.run smallImage
      (childHoldsLock [systemCall YALNIX_RECLAIM 1 0 0])).map fun k =>
        (k.mode, k.currentProc, (k.toSched.kernelExit 0).toOption.isNone))
          = some (.user, 2, true) := by decide +kernel
  obtain ⟨k, hrun, heq⟩ := Option.map_eq_some_iff.mp hsome
  simp only [Prod.mk.injEq] at heq
  obtain ⟨hmode, hcur, hhang⟩ := heq
  refine ⟨k, hrun, .of_run hrun, ⟨hmode, by rw [hcur]; decide⟩, hcur, ?_⟩
  rintro ⟨s', hok, -⟩
  rw [hok] at hhang
  cases hhang

/-- A process that still has its lock in the table exits, and gives the lock up. -/
theorem exit_gives_up_locks_held : ∃ k, Kernel.run smallImage (childHoldsLock []) = some k ∧
    k.currentProc = 2 ∧ k.owned k.currentProc = [1] ∧ k.toSched.ExitGivesUpLocks 0 := by
  have hsome : ((Kernel.run smallImage (childHoldsLock [])).map fun k =>
      (k.mode, k.currentProc, k.owned k.currentProc, k.locks)) = some (.user, 2, [1], [1]) := by
    decide +kernel
  obtain ⟨k, hrun, heq⟩ := Option.map_eq_some_iff.mp hsome
  simp only [Prod.mk.injEq] at heq
  obtain ⟨hmode, hcur, howned, hlocks⟩ := heq
  refine ⟨k, hrun, hcur, howned, (exit_gives_up_locks_iff (.of_run hrun) 0
    (.inl ⟨hmode, by rw [hcur]; decide⟩) (by rw [hcur]; decide)).mpr ?_⟩
  rw [howned, hlocks]
  exact fun _ hi => hi

end Theynix
