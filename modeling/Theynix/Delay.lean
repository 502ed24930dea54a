import Theynix.Lib.Timers
import Theynix.Footprint

/-!
# `Theynix.Delay`: how long a process is delayed

A delayed process is a sleeper of `Lib.Timers`. `TrapClock` takes a tick from each of them,
but for one defect: `ListMap` reads the next node from the node it has just visited, and
`DecrementTicksRemaining` frees that node when its process is done. `walksOn` says that what
is read from the freed nodes leads through the whole list all the same.

* `walksOn_iff_exactTick`: a clock trap is exact if and only if the walk goes on.
* `delay_exact_iff`: in a run whose clock traps all walk on, a process that was delayed for
  `n` ticks becomes ready in the `n`th clock trap from then on.
* `delay_skips_tick`: a run in which a tick is lost.
-/

set_option autoImplicit false

namespace Theynix

open Theynix.Lib (bind_eq_ok ite_eq_ok Timers TimerEvent)

namespace Sched

/-! ## A clock trap -/

/-- The process comes to zero in the next clock trap. -/
def expires (s : Sched) (p : Pid) : Bool :=
  ((s.pcb p).map fun a => decide (a.clockTicksUntilReady ≤ 1)).getD false

/-- What a clock trap has to do before it switches: every delayed process has one tick less,
and those that come to zero go to the ready queue, in the order of the list. The running
process follows them. -/
structure ExactTick (s s' : Sched) : Prop where
  ticks : ∀ p ∈ s.clockBlockProcs, s'.ticks p = (s.ticks p).map fun n => n - 1
  clock : s'.clockBlockProcs = s.clockBlockProcs.filter fun p => !s.expires p
  ready : s'.readyQueue = s.readyQueue ++ s.clockBlockProcs.filter s.expires ++
    if s.currentProc ≠ IDLE_PID then [s.currentProc] else []

/-- What `ListMap` reads from the nodes that were freed leads to every node of the list. It
may end the traversal at the last node only. -/
def walksOn (s : Sched) : List Pid → List FreedNext → Bool
  | [], _ => true
  | proc :: rest, afterFree =>
    if s.expires proc then
      match afterFree with
      | [] => s.walksOn rest []
      | .successor :: afterFree => s.walksOn rest afterFree
      | .stop :: _ => rest.isEmpty
      | .elsewhere :: _ => false
    else s.walksOn rest afterFree

section
variable {s s' : Sched}

/-- One tick less for a process. -/
def tickDown (s : Sched) (proc : Pid) : Sched :=
  s.updPcb proc fun p => { p with clockTicksUntilReady := p.clockTicksUntilReady - 1 }

/-- A process that is done leaves the list for the ready queue. -/
def doneWaiting (s : Sched) (proc : Pid) : Sched :=
  (({ s with clockBlockProcs := s.clockBlockProcs.erase proc } : Sched).ready proc).observe
    (.delayDone proc)

/-- `DecrementTicksRemaining`, with its two outcomes named. -/
theorem decrementTicksRemaining_eq {proc : Pid} (hp : (s.pcb proc).isSome) :
    s.decrementTicksRemaining proc =
      if s.expires proc then (true, (s.tickDown proc).doneWaiting proc)
      else (false, s.tickDown proc) := by
  obtain ⟨a, ha⟩ := Option.isSome_iff_exists.mp hp
  have hdone : (((s.tickDown proc).pcb proc).map fun p =>
      decide (p.clockTicksUntilReady ≤ 0)).getD false = s.expires proc := by
    simp only [tickDown, updPcb_pcb, ha, expires, Option.map_some, Option.getD_some, if_true,
      decide_eq_decide]
    omega
  unfold decrementTicksRemaining
  rw [← hdone]
  rfl

theorem ticks_tickDown {proc p : Pid} :
    (s.tickDown proc).ticks p =
      if p = proc then (s.ticks p).map fun n => n - 1 else s.ticks p := by
  rw [tickDown, ticks_updPcb, ticks]
  by_cases hp : p = proc <;> cases s.pcb p <;> simp [hp]

theorem expires_tickDown {proc p : Pid} (hp : p ≠ proc) :
    (s.tickDown proc).expires p = s.expires p := by
  rw [expires, tickDown, updPcb_pcb, expires]
  simp [hp]

/-! ### The walk -/

/-- What the walk over `procs` does, from a state whose list is `kept` and then `procs`. -/
structure Walked (kept procs : List Pid) (s s' : Sched) : Prop where
  ticks : ∀ p ∈ procs, s'.ticks p = (s.ticks p).map fun n => n - 1
  others : ∀ p ∉ procs, s'.ticks p = s.ticks p
  clock : s'.clockBlockProcs = kept ++ procs.filter fun p => !s.expires p
  ready : s'.readyQueue = s.readyQueue ++ procs.filter s.expires
  history : s'.history = s.history ++ (procs.filter s.expires).map .delayDone
  currentProc : s'.currentProc = s.currentProc

/-- The walk from the second process on, after the first has been visited. -/
theorem Walked.cons {kept rest : List Pid} {proc : Pid} {s₁ : Sched}
    (hpcb : (s.pcb proc).isSome) (hproc : proc ∉ rest)
    (hs₁ : s₁ = (s.decrementTicksRemaining proc).2)
    (h : Walked (if s.expires proc then kept else kept ++ [proc]) rest s₁ s') :
    Walked kept (proc :: rest) s s' := by
  rw [decrementTicksRemaining_eq hpcb] at hs₁
  -- Visiting the first process changes the ticks of no other.
  have hexpires : ∀ p ∈ rest, s₁.expires p = s.expires p := by
    intro p hp
    have hne : p ≠ proc := ne_of_mem_of_not_mem hp hproc
    rw [hs₁]
    split
    · exact expires_tickDown hne
    · exact expires_tickDown hne
  have hticks : ∀ p, s₁.ticks p =
      if p = proc then (s.ticks p).map fun n => n - 1 else s.ticks p := by
    intro p
    rw [hs₁]
    split
    · exact ticks_tickDown
    · exact ticks_tickDown
  have hfilter : rest.filter s₁.expires = rest.filter s.expires := List.filter_congr hexpires
  have hfilter' : (rest.filter fun p => !s₁.expires p) = rest.filter fun p => !s.expires p :=
    List.filter_congr fun p hp => by rw [hexpires p hp]
  have hrest : ∀ p ∈ proc :: rest, s'.ticks p = (s.ticks p).map fun n => n - 1 := by
    intro p hp
    rcases List.mem_cons.mp hp with rfl | hp
    · rw [h.others p hproc, hticks, if_pos rfl]
    · rw [h.ticks p hp, hticks, if_neg (ne_of_mem_of_not_mem hp hproc)]
  have hothers : ∀ p ∉ proc :: rest, s'.ticks p = s.ticks p := by
    intro p hp
    rw [List.mem_cons, not_or] at hp
    rw [h.others p hp.2, hticks, if_neg hp.1]
  have hclock' := h.clock
  have hready := h.ready
  have hhistory := h.history
  have hcur := h.currentProc
  rw [hfilter'] at hclock'
  rw [hfilter] at hready hhistory
  by_cases hexp : s.expires proc
  · simp only [hexp, if_true] at hs₁ hclock'
    subst hs₁
    refine ⟨hrest, hothers, ?_, ?_, ?_, hcur⟩
    · rw [hclock', List.filter_cons_of_neg (by simp [hexp])]
    · rw [hready, List.filter_cons_of_pos hexp]
      simp [doneWaiting, Sched.ready, observe, tickDown, updPcb]
    · rw [hhistory, List.filter_cons_of_pos hexp]
      simp [doneWaiting, Sched.ready, observe, tickDown, updPcb]
  · simp only [hexp, if_false, Bool.false_eq_true] at hs₁ hclock'
    subst hs₁
    refine ⟨hrest, hothers, ?_, ?_, ?_, hcur⟩
    · rw [hclock', List.filter_cons_of_pos (by simp [hexp]), List.append_assoc,
        List.singleton_append]
    · rw [hready, List.filter_cons_of_neg hexp]
      rfl
    · rw [hhistory, List.filter_cons_of_neg hexp]
      rfl

theorem decrementTicksRemaining_fst {proc : Pid} (hpcb : (s.pcb proc).isSome) :
    (s.decrementTicksRemaining proc).1 = s.expires proc := by
  rw [decrementTicksRemaining_eq hpcb]
  cases hexp : s.expires proc
  · rfl
  · rfl

/-- The list of delayed processes after the first of those that are to be visited. -/
theorem clockBlockProcs_decrementTicksRemaining {kept rest : List Pid} {proc : Pid}
    (hpcb : (s.pcb proc).isSome) (hmem : proc ∉ kept)
    (hclock : s.clockBlockProcs = kept ++ proc :: rest) :
    (s.decrementTicksRemaining proc).2.clockBlockProcs =
      (if s.expires proc then kept else kept ++ [proc]) ++ rest := by
  rw [decrementTicksRemaining_eq hpcb]
  split
  · show (s.tickDown proc).clockBlockProcs.erase proc = kept ++ rest
    rw [show (s.tickDown proc).clockBlockProcs = kept ++ proc :: rest from hclock,
      List.erase_append_right _ hmem, List.erase_cons_head]
  · rw [List.append_assoc, List.singleton_append]
    exact hclock

theorem isSome_decrementTicksRemaining {proc p : Pid} (hp : (s.pcb p).isSome) :
    ((s.decrementTicksRemaining proc).2.pcb p).isSome := by
  have hdown : ((s.tickDown proc).pcb p).isSome := by
    rw [tickDown, updPcb_pcb, Option.isSome_map]
    exact hp
  unfold decrementTicksRemaining
  dsimp only
  split
  · exact hdown
  · exact hdown

/-- The walk depends on who comes to zero only. -/
theorem walksOn_congr {procs : List Pid} (h : ∀ p ∈ procs, s'.expires p = s.expires p)
    (afterFree : List FreedNext) : s'.walksOn procs afterFree = s.walksOn procs afterFree := by
  induction procs generalizing afterFree with
  | nil => rfl
  | cons p procs ih =>
      have hrest := ih fun q hq => h q (List.mem_cons_of_mem _ hq)
      unfold walksOn
      rw [h p List.mem_cons_self]
      split
      · split
        · exact hrest _
        · exact hrest _
        · rfl
        · rfl
      · exact hrest _

theorem walksOn_observe {o : Obs} {procs : List Pid} {afterFree : List FreedNext} :
    (s.observe o).walksOn procs afterFree = s.walksOn procs afterFree := by
  have hexpires : ∀ p ∈ procs, (s.observe o).expires p = s.expires p := fun _ _ => rfl
  exact walksOn_congr hexpires afterFree

/-- Visiting a process leaves open whether the others come to zero. -/
theorem walksOn_decrementTicksRemaining {proc : Pid} {rest : List Pid}
    (hpcb : (s.pcb proc).isSome) (hproc : proc ∉ rest) (afterFree : List FreedNext) :
    (s.decrementTicksRemaining proc).2.walksOn rest afterFree = s.walksOn rest afterFree := by
  refine walksOn_congr (fun p hp => ?_) afterFree
  have hne : p ≠ proc := ne_of_mem_of_not_mem hp hproc
  rw [decrementTicksRemaining_eq hpcb]
  split
  · exact expires_tickDown hne
  · exact expires_tickDown hne

/-- A walk that goes on visits every process. -/
theorem walked_of_walksOn {kept procs : List Pid} {afterFree : List FreedNext}
    (hclock : s.clockBlockProcs = kept ++ procs) (hnodup : (kept ++ procs).Nodup)
    (hpcb : ∀ p ∈ procs, (s.pcb p).isSome) (hwalk : s.walksOn procs afterFree) :
    ∃ s', s.mapTicks procs afterFree = .ok s' ∧ Walked kept procs s s' := by
  induction procs generalizing s kept afterFree with
  | nil =>
      refine ⟨s, rfl, fun _ hp => (by cases hp), fun _ _ => rfl, ?_, ?_, ?_, rfl⟩
      · rw [hclock]
        rfl
      · rw [List.filter_nil, List.append_nil]
      · rw [List.filter_nil, List.map_nil, List.append_nil]
  | cons proc rest ih =>
      have hhead := hpcb proc List.mem_cons_self
      obtain ⟨-, hright, hdisjoint⟩ := List.nodup_append.mp hnodup
      have hproc : proc ∉ rest := (List.nodup_cons.mp hright).1
      have hmem : proc ∉ kept := fun hk => hdisjoint proc hk proc List.mem_cons_self rfl
      have hclock₁ := clockBlockProcs_decrementTicksRemaining hhead hmem hclock
      have hwalk₁ := fun afterFree => walksOn_decrementTicksRemaining hhead hproc afterFree
      have hpcb₁ : ∀ p ∈ rest, ((s.decrementTicksRemaining proc).2.pcb p).isSome := fun p hp =>
        isSome_decrementTicksRemaining (hpcb p (List.mem_cons_of_mem _ hp))
      have hnodup₁ : ((if s.expires proc then kept else kept ++ [proc]) ++ rest).Nodup := by
        split
        · exact hnodup.sublist ((List.sublist_cons_self proc rest).append_left kept)
        · rwa [List.append_assoc]
      -- The rest of the walk, whatever the first node turned out to hold.
      have hrest : ∀ afterFree, s.walksOn rest afterFree → ∃ s',
          (s.decrementTicksRemaining proc).2.mapTicks rest afterFree = .ok s' ∧
            Walked kept (proc :: rest) s s' := by
        intro afterFree hon
        obtain ⟨s', hok, hwalked⟩ := ih hclock₁ hnodup₁ hpcb₁ ((hwalk₁ afterFree).trans hon)
        exact ⟨s', hok, hwalked.cons hhead hproc rfl⟩
      unfold walksOn at hwalk
      unfold mapTicks
      dsimp only
      rw [decrementTicksRemaining_fst hhead]
      split
      · rename_i hexp
        rw [if_pos hexp] at hwalk
        split at hwalk
        · exact hrest _ hwalk
        · exact hrest _ hwalk
        · have hnil : rest = [] := List.isEmpty_iff.mp hwalk
          subst hnil
          obtain ⟨s', hok, hwalked⟩ := hrest [] rfl
          cases hok
          exact ⟨_, rfl, hwalked⟩
        · cases hwalk
      · rename_i hexp
        rw [if_neg hexp] at hwalk
        exact hrest _ hwalk

/-- A walk that takes a tick from every process goes on. -/
theorem walksOn_of_ticks {procs : List Pid} {afterFree : List FreedNext} (hnodup : procs.Nodup)
    (hpcb : ∀ p ∈ procs, (s.pcb p).isSome) (hok : s.mapTicks procs afterFree = .ok s')
    (hticks : ∀ p ∈ procs, s'.ticks p = (s.ticks p).map fun n => n - 1) :
    s.walksOn procs afterFree := by
  induction procs generalizing s afterFree with
  | nil => rfl
  | cons proc rest ih =>
      have hhead := hpcb proc List.mem_cons_self
      obtain ⟨hproc, hnodup'⟩ := List.nodup_cons.mp hnodup
      -- The first process is on the list once, so its turn leaves the others their ticks.
      have hticks₁ : ∀ p ∈ rest, (s.decrementTicksRemaining proc).2.ticks p = s.ticks p := by
        intro p hp
        have hne : p ≠ proc := ne_of_mem_of_not_mem hp hproc
        rw [decrementTicksRemaining_eq hhead]
        split
        · exact ticks_tickDown.trans (if_neg hne)
        · exact ticks_tickDown.trans (if_neg hne)
      have hrest : ∀ afterFree,
          (s.decrementTicksRemaining proc).2.mapTicks rest afterFree = .ok s' →
            s.walksOn rest afterFree := by
        intro afterFree hmap
        rw [← walksOn_decrementTicksRemaining hhead hproc]
        refine ih hnodup' (fun p hp =>
          isSome_decrementTicksRemaining (hpcb p (List.mem_cons_of_mem _ hp))) hmap fun p hp => ?_
        rw [hticks₁ p hp]
        exact hticks p (List.mem_cons_of_mem _ hp)
      unfold mapTicks at hok
      dsimp only at hok
      rw [decrementTicksRemaining_fst hhead] at hok
      unfold walksOn
      split at hok
      · rename_i hexp
        rw [if_pos hexp]
        split at hok
        · exact hrest _ hok
        · exact hrest _ hok
        · -- The walk stops here, so the next process keeps its ticks.
          cases hok
          cases rest with
          | nil => rfl
          | cons p rest =>
              have hkept := hticks₁ p List.mem_cons_self
              rw [hticks p (List.mem_cons_of_mem _ List.mem_cons_self)] at hkept
              obtain ⟨a, ha⟩ := Option.isSome_iff_exists.mp
                (hpcb p (List.mem_cons_of_mem _ List.mem_cons_self))
              simp only [Sched.ticks, ha, Option.map_some, Option.some.injEq] at hkept
              omega
        · cases hok
      · rename_i hexp
        rw [if_neg hexp]
        exact hrest _ hok

/-- The delayed processes, in a state in which every process is in one place. -/
theorem Settled.isSome_of_clock (h : s.Running) {p : Pid} (hp : p ∈ s.clockBlockProcs) :
    (s.pcb p).isSome :=
  Option.isSome_iff_exists.mpr (h.pcb_of_clock hp)

/-- A clock trap whose walk goes on is exact, and is recorded as such. -/
theorem trapClock_of_walksOn {afterFree : List FreedNext} (h : s.Running)
    (hwalk : s.walksOn s.clockBlockProcs afterFree) :
    ∃ s', s.trapClock afterFree = .ok s' ∧ ExactTick s s' ∧
      s'.history = s.history ++ .clockTick :: (s.clockBlockProcs.filter s.expires).map .delayDone := by
  have hpcb : ∀ p ∈ s.clockBlockProcs, (s.pcb p).isSome := fun _ => h.isSome_of_clock
  obtain ⟨s₁, hok, hwalked⟩ := walked_of_walksOn
    (show (s.observe .clockTick).clockBlockProcs = [] ++ s.clockBlockProcs from rfl) h.clockBlockProcs_nodup hpcb
    (walksOn_observe.trans hwalk)
  have hticks : ∀ p ∈ s.clockBlockProcs, s₁.ticks p = (s.ticks p).map fun n => n - 1 :=
    hwalked.ticks
  have hready : s₁.readyQueue = s.readyQueue ++ s.clockBlockProcs.filter s.expires := hwalked.ready
  have hclock : s₁.clockBlockProcs = s.clockBlockProcs.filter fun p => !s.expires p :=
    hwalked.clock
  have hhistory : s₁.history = s.history ++
      .clockTick :: (s.clockBlockProcs.filter s.expires).map .delayDone :=
    hwalked.history.trans (List.append_assoc _ _ _)
  have hcur : s₁.currentProc = s.currentProc := hwalked.currentProc
  have hrun : s.trapClock afterFree =
      .ok (if s₁.currentProc ≠ IDLE_PID then s₁.ready s₁.currentProc else s₁) := by
    unfold trapClock
    rw [show (s.observe .clockTick).mapTicks s.clockBlockProcs afterFree = .ok s₁ from hok,
      Lib.ok_bind]
    split
    · rfl
    · rfl
  refine ⟨_, hrun, ?_⟩
  rw [hcur]
  split
  · rename_i hne
    refine ⟨⟨hticks, hclock, ?_⟩, hhistory⟩
    rw [if_pos hne, ← hready]
    rfl
  · rename_i hne
    exact ⟨⟨hticks, hclock, by rw [if_neg hne, List.append_nil, hready]⟩, hhistory⟩

/-- A clock trap is exact if and only if its walk goes on. -/
theorem walksOn_iff_exactTick {afterFree : List FreedNext} (h : s.Running) :
    (∃ s', s.trapClock afterFree = .ok s' ∧ ExactTick s s') ↔
      s.walksOn s.clockBlockProcs afterFree := by
  constructor
  · rintro ⟨s', hok, hexact⟩
    obtain ⟨s₁, hmap, hrest⟩ := bind_eq_ok.mp hok
    have hpcb : ∀ p ∈ s.clockBlockProcs, ((s.observe .clockTick).pcb p).isSome :=
      fun _ => h.isSome_of_clock
    have hticks : ∀ p, s'.ticks p = s₁.ticks p := by
      intro p
      rcases ite_eq_ok hrest with ⟨-, hret⟩ | ⟨-, hret⟩ <;> cases hret <;> rfl
    have hwalk := walksOn_of_ticks h.clockBlockProcs_nodup hpcb hmap fun p hp =>
      (hticks p).symm.trans (hexact.ticks p hp)
    exact walksOn_observe.symm.trans hwalk
  · intro hwalk
    obtain ⟨s', hok, hexact, -⟩ := trapClock_of_walksOn h hwalk
    exact ⟨s', hok, hexact⟩

end

end Sched

/-! ## The delayed processes of a run -/

/-- What an event means to the delayed processes. -/
def Obs.timerEvent : Obs → Option (TimerEvent Pid)
  | .delayed proc clockTicks => some (.sleep proc clockTicks.toNat)
  | .clockTick => some .tick
  | .delayDone proc => some (.wake proc)
  | _ => none

namespace Sched

/-- What has happened to the delayed processes, oldest first. -/
def timerEvents (s : Sched) : List (TimerEvent Pid) :=
  (s.events .clock).filterMap Obs.timerEvent

/-- The ticks that a delayed process has left. -/
def ticksLeft (s : Sched) (p : Pid) : Nat := ((s.ticks p).getD 0).toNat

/-- The delayed processes are timers: each has ticks left, and it is asleep for as many. -/
structure TimerInv (s : Sched) : Prop where
  positive : ∀ p ∈ s.clockBlockProcs, ∃ n, s.ticks p = some n ∧ 0 < n
  timers : Timers.run {} s.timerEvents =
    some { asleep := s.clockBlockProcs.map fun p => (p, s.ticksLeft p) }

section
variable {s s' : Sched}

/-- A step that touches another part. -/
theorem TimerInv.same (h : s.TimerInv) {part : Part} (hs : SameBut part s s')
    (hpart : part ≠ .clock) : s'.TimerInv := by
  have hclock := hs.clock hpart
  have hticks := hs.ticks hpart
  refine ⟨fun p hp => ?_, ?_⟩
  · rw [hclock] at hp
    rw [hticks p hp]
    exact h.positive p hp
  · rw [timerEvents, hs.events .clock hpart.symm (by simp), hclock]
    refine h.timers.trans (congrArg (fun l => some ({ asleep := l } : Timers Pid)) (List.map_congr_left ?_))
    intro p hp
    rw [ticksLeft, ticksLeft, hticks p hp]

/-- `KernelDelay` puts a process to sleep. -/
theorem TimerInv.enqueueForClock (h : s.TimerInv) {clockTicks : Int} (hpos : 0 < clockTicks)
    (hlive : (s.pcb s.currentProc).isSome) (hcur : s.currentProc ∉ s.clockBlockProcs) :
    (s.enqueueForClock clockTicks).TimerInv := by
  have hticks : ∀ p, (s.enqueueForClock clockTicks).ticks p =
      if p = s.currentProc then some clockTicks else s.ticks p := by
    intro p
    obtain ⟨a, ha⟩ := Option.isSome_iff_exists.mp hlive
    by_cases hp : p = s.currentProc
    · simp [Sched.ticks, Sched.enqueueForClock, observe, updCurrent, updPcb, hp, ha]
    · simp [Sched.ticks, Sched.enqueueForClock, observe, updCurrent, updPcb, hp]
  have hother : ∀ p ∈ s.clockBlockProcs,
      (s.enqueueForClock clockTicks).ticks p = s.ticks p := fun p hp =>
    (hticks p).trans (if_neg (ne_of_mem_of_not_mem hp hcur))
  have hcurrent := (hticks s.currentProc).trans (if_pos rfl)
  refine ⟨fun p hp => ?_, ?_⟩
  · rcases List.mem_append.mp hp with hp | hp
    · rw [hother p hp]
      exact h.positive p hp
    · rw [List.mem_singleton.mp hp]
      exact ⟨clockTicks, hcurrent, hpos⟩
  · have hevents : (s.enqueueForClock clockTicks).timerEvents
        = s.timerEvents ++ [.sleep s.currentProc clockTicks.toNat] := by
      simp [timerEvents, events, Sched.enqueueForClock, observe, updCurrent, updPcb, Obs.part,
        Obs.timerEvent]
    rw [hevents, Timers.run_concat h.timers, Timers.step, if_pos]
    · refine congrArg (fun l => some ({ asleep := l } : Timers Pid)) ?_
      show _ = (s.clockBlockProcs ++ [s.currentProc]).map fun p => (p, _)
      rw [List.map_append, List.map_singleton]
      congr 1
      · refine List.map_congr_left fun p hp => ?_
        rw [ticksLeft, ticksLeft, hother p hp]
      · rw [ticksLeft, hcurrent]
        rfl
    · refine ⟨rfl, by omega, fun hmem => hcur ?_⟩
      simpa [List.map_map, Function.comp_def] using hmem

/-- A clock trap whose walk goes on is a tick, in which those that are due are woken. -/
theorem TimerInv.trapClock (h : s.TimerInv) (hrun : s.Running) {afterFree : List FreedNext}
    (hwalk : s.walksOn s.clockBlockProcs afterFree) (hok : s.trapClock afterFree = .ok s') :
    s'.TimerInv := by
  obtain ⟨s₁, hok₁, hexact, hhistory⟩ := trapClock_of_walksOn hrun hwalk
  cases hok.symm.trans hok₁
  have hexpires : ∀ p ∈ s.clockBlockProcs,
      s.expires p = Timers.expires (p, s.ticksLeft p) := by
    intro p hp
    obtain ⟨n, hn, hpos⟩ := h.positive p hp
    obtain ⟨a, ha, rfl⟩ := Option.map_eq_some_iff.mp hn
    simp only [expires, ha, Option.map_some, Option.getD_some, Timers.expires, ticksLeft, hn,
      decide_eq_decide]
    omega
  have hleft : ∀ p ∈ s.clockBlockProcs, s'.ticksLeft p = s.ticksLeft p - 1 := by
    intro p hp
    obtain ⟨n, hn, hpos⟩ := h.positive p hp
    simp only [ticksLeft, hexact.ticks p hp, hn, Option.map_some, Option.getD_some]
    omega
  refine ⟨fun p hp => ?_, ?_⟩
  · rw [hexact.clock] at hp
    obtain ⟨hp, hnot⟩ := List.mem_filter.mp hp
    obtain ⟨n, hn, hpos⟩ := h.positive p hp
    obtain ⟨a, ha, rfl⟩ := Option.map_eq_some_iff.mp hn
    refine ⟨a.clockTicksUntilReady - 1, by rw [hexact.ticks p hp, hn]; rfl, ?_⟩
    simp only [expires, ha, Option.map_some, Option.getD_some, Bool.not_eq_true',
      decide_eq_false_iff_not] at hnot
    omega
  · have hevents : s'.timerEvents
        = s.timerEvents ++ ([.tick] ++ (s.clockBlockProcs.filter s.expires).map .wake) := by
      have hwakes : ∀ l : List Pid, ((l.map Obs.delayDone).filter fun o => o.part = .clock).filterMap
          Obs.timerEvent = l.map .wake := by
        intro l
        induction l with
        | nil => rfl
        | cons p l ih => simpa [Obs.part, Obs.timerEvent] using ih
      rw [timerEvents, events, hhistory, List.filter_append, List.filterMap_append]
      congr 1
      exact congrArg (TimerEvent.tick :: ·) (hwakes _)
    -- The processes that are done waiting are those that the tick of the library wakes.
    have hdue : (s.clockBlockProcs.filter s.expires)
        = (Timers.afterTick (s.clockBlockProcs.map fun p => (p, s.ticksLeft p))).due := by
      simp only [Timers.afterTick, List.filter_map, List.map_map, Function.comp_def, List.map_id']
      exact List.filter_congr hexpires
    -- The others sleep on, with one tick less.
    have hasleep : (s'.clockBlockProcs.map fun p => (p, s'.ticksLeft p))
        = (Timers.afterTick (s.clockBlockProcs.map fun p => (p, s.ticksLeft p))).asleep := by
      simp only [Timers.afterTick, List.filter_map, List.map_map, Function.comp_def]
      rw [hexact.clock, List.filter_congr fun p hp => by rw [hexpires p hp]]
      exact List.map_congr_left fun p hp => by rw [hleft p (List.mem_filter.mp hp).1]
    rw [hevents, Timers.run_append h.timers, hasleep, hdue]
    have htick : Timers.run { asleep := s.clockBlockProcs.map fun p => (p, s.ticksLeft p) } [.tick]
        = some (Timers.afterTick (s.clockBlockProcs.map fun p => (p, s.ticksLeft p))) := rfl
    exact (Timers.run_append htick).trans (Timers.run_wake_all _ _)

/-- A step that is no clock trap, or a clock trap whose walk goes on. -/
def WalksOn (s : Sched) : Cause → Prop
  | .clock afterFree => s.walksOn s.clockBlockProcs afterFree
  | _ => True

instance (s : Sched) (c : Cause) : Decidable (s.WalksOn c) := by
  cases c <;> unfold WalksOn <;> infer_instance

/-- Every step keeps the delayed processes timers, if its walk goes on. -/
theorem SchedStep.timerInv {c : Cause} (h : s.TimerInv) (hrun : s.Running) (hwalk : s.WalksOn c)
    (hstep : SchedStep s c s') : s'.TimerInv := by
  obtain ⟨part, s₁, hpart, hsame⟩ := hstep.part hrun
  refine TimerInv.same ?_ hsame (by simp)
  by_cases hclock : part = .clock
  · subst hclock
    cases hpart with
    | delay positive =>
        have hlive := hrun.current.resolve_left id
        refine h.enqueueForClock positive (Bool.and_eq_true _ _ ▸ hlive).1 fun hmem => ?_
        have hnot := hrun.placed.nowhere (fun hi => (hi.2.2.resolve_left id) rfl) .clock
        exact List.count_eq_zero.mp hnot hmem
    | clock cause run =>
        subst cause
        exact h.trapClock hrun hwalk run
  · exact h.same hpart.same hclock

end

theorem bootSched_timerInv : Kernel.bootSched.TimerInv :=
  ⟨fun _ hp => (by cases hp), rfl⟩

end Sched

open Sched

/-! ## Runs -/

/-- The step is no clock trap, or one whose walk goes on. -/
def ClockWalksOn (k : Kernel) (e : Event) : Prop := k.toSched.WalksOn (k.cause e)

instance (k : Kernel) (e : Event) : Decidable (ClockWalksOn k e) :=
  inferInstanceAs (Decidable (k.toSched.WalksOn (k.cause e)))

/-- In the runs whose clock traps walk on, the delayed processes are timers. -/
theorem reachable_timerInv {b : BootImage} {k : Kernel} (h : ReachableWhen ClockWalksOn b k) :
    (k.toSched.Objects ∧ k.toSched.Running) ∧ k.toSched.TimerInv := by
  refine ReachableWhen.invariant
    (I := fun k => (k.toSched.Objects ∧ k.toSched.Running) ∧ k.toSched.TimerInv)
    (fun k hstart => ?_) (fun k e k' hinv hwalks _ hstep => ?_) h
  · rw [kernelStart_sched hstart]
    exact ⟨⟨bootSched_objects, bootSched_running⟩, bootSched_timerInv⟩
  · obtain ⟨⟨hobj, hrun⟩, htimer⟩ := hinv
    have hs := hstep.sched
    exact ⟨⟨hs.objects hobj, hs.running hrun hobj⟩, SchedStep.timerInv htimer hrun hwalks hs⟩

/-- In a run whose clock traps have all walked on, a process that was delayed for `n` ticks
has become ready in the `n`th clock trap from then on, or there have been fewer and it still
waits. The next clock trap is exact exactly when it walks on too. -/
theorem delay_exact_iff {b : BootImage} {k : Kernel} (h : ReachableWhen ClockWalksOn b k) :
    (∀ before p n after, k.toSched.timerEvents = before ++ .sleep p n :: after →
      (∃ slept later, after = slept ++ .wake p :: later ∧
        (∀ e ∈ slept, ¬ Timers.About p e) ∧ Timers.ticks slept = n) ∨
      (∀ e ∈ after, ¬ Timers.About p e) ∧ Timers.ticks after < n ∧ p ∈ k.clockBlockProcs) ∧
    ∀ afterFree, (∃ s', k.toSched.trapClock afterFree = .ok s' ∧ ExactTick k.toSched s') ↔
      k.toSched.walksOn k.clockBlockProcs afterFree := by
  obtain ⟨⟨-, hrun⟩, htimer⟩ := reachable_timerInv h
  refine ⟨fun before p n after hevents => ?_, fun afterFree => walksOn_iff_exactTick hrun⟩
  have htimers := htimer.timers
  rw [hevents] at htimers
  rcases Timers.run_sleep htimers with hwoken | ⟨hafter, left, hleft, hticks⟩
  · exact .inl hwoken
  · rcases hleft with ⟨-, hdue⟩ | ⟨hpos, hmem⟩
    · cases hdue
    · obtain ⟨q, hq, heq⟩ := List.mem_map.mp hmem
      cases heq
      exact .inr ⟨hafter, by omega, hq⟩

/-- The clock ticks, and the freed nodes hold what `afterFree` says. -/
def clockTickWith (afterFree : List FreedNext) : Event :=
  .trap { vector := TRAP_CLOCK } { afterFree := afterFree }

/-- Init forks. The child is delayed for one tick and init for two, and the clock ticks
twice: in the first tick the walk visits the child, whose node is freed, and then init. -/
def twoDelayed (afterFree : List FreedNext) : List Event := initRuns ++
  [systemCall YALNIX_FORK 0 0 0, .resume, systemCall YALNIX_DELAY 1 0 0, .resume,
    systemCall YALNIX_DELAY 2 0 0, .resume, clockTickWith afterFree, .resume, clockTickWith []]

/-- The allocator has reused the child's node, and the walk ends there: init was delayed for
two ticks, and after two ticks it has one left. -/
theorem delay_skips_tick : ∃ k, Kernel.run smallImage (twoDelayed [.stop]) = some k ∧
    Reachable smallImage k ∧
    k.toSched.timerEvents = [.tick, .sleep 2 1, .sleep 1 2, .tick, .wake 2, .tick] ∧
    k.clockBlockProcs = [1] ∧ k.toSched.ticksLeft 1 = 1 := by
  have hsome : ((Kernel.run smallImage (twoDelayed [.stop])).map fun k =>
      (k.toSched.timerEvents, k.clockBlockProcs, k.toSched.ticksLeft 1))
        = some ([.tick, .sleep 2 1, .sleep 1 2, .tick, .wake 2, .tick], [1], 1) := by decide +kernel
  obtain ⟨k, hrun, heq⟩ := Option.map_eq_some_iff.mp hsome
  simp only [Prod.mk.injEq] at heq
  exact ⟨k, hrun, .of_run hrun, heq.1, heq.2.1, heq.2.2⟩

/-- While both are delayed, the next tick is exact if the child's node still leads to init's,
and not if the walk ends there. When it is, init becomes ready in the second tick. -/
theorem delay_exact_iff_successor : ∃ k k',
    Kernel.runWhen ClockWalksOn smallImage ((twoDelayed []).take 8) = some k ∧
    k.clockBlockProcs = [2, 1] ∧
    (∃ s', k.toSched.trapClock [.successor] = .ok s' ∧ ExactTick k.toSched s') ∧
    (¬ ∃ s', k.toSched.trapClock [.stop] = .ok s' ∧ ExactTick k.toSched s') ∧
    Kernel.runWhen ClockWalksOn smallImage (twoDelayed [.successor]) = some k' ∧
    k'.toSched.timerEvents = [.tick, .sleep 2 1, .sleep 1 2, .tick, .wake 2, .tick, .wake 1] ∧
    k'.clockBlockProcs = [] := by
  have hsome : ((Kernel.runWhen ClockWalksOn smallImage ((twoDelayed []).take 8)).map fun k =>
      (k.clockBlockProcs, decide (k.toSched.walksOn k.clockBlockProcs [.successor]),
        decide (k.toSched.walksOn k.clockBlockProcs [.stop]))) = some ([2, 1], true, false) := by
    decide +kernel
  have hsome' : ((Kernel.runWhen ClockWalksOn smallImage (twoDelayed [.successor])).map fun k =>
      (k.toSched.timerEvents, k.clockBlockProcs))
        = some ([.tick, .sleep 2 1, .sleep 1 2, .tick, .wake 2, .tick, .wake 1], []) := by decide +kernel
  obtain ⟨k, hrun, heq⟩ := Option.map_eq_some_iff.mp hsome
  obtain ⟨k', hrun', heq'⟩ := Option.map_eq_some_iff.mp hsome'
  simp only [Prod.mk.injEq] at heq heq'
  obtain ⟨hdelayed, hwalks, hstops⟩ := heq
  have hiff := (delay_exact_iff (.of_run hrun)).2
  exact ⟨k, k', hrun, hdelayed, (hiff _).mpr (of_decide_eq_true hwalks),
    fun hexact => of_decide_eq_false hstops ((hiff _).mp hexact), hrun', heq'.1, heq'.2⟩

end Theynix
