import Theynix.Lives

/-!
# `Theynix.Placement`: every process is in exactly one place

Each function of the kernel that moves processes between queues keeps `Sched.Settled`.
`SchedStep.running` assembles the steps, and `reachable_running` the runs.
`process_in_one_place` states the result in the terms of the kernel.
-/

set_option autoImplicit false

namespace Theynix

open Theynix.Lib (Placed Adds count_concat count_cons bind_eq_ok ite_eq_ok)

namespace Sched

/-! ## The functions that move processes between queues -/

section
variable {s s' : Sched} {parked : Prop}

theorem disown_sameLives (s : Sched) (lockId : Nat) : SameLives s (s.disown lockId) :=
  (SameLives.refl s).updPcb (by intro; rfl) (by intro; rfl)

@[simp] theorem occ_disown {lockId : Nat} {q : Queue} {p : Pid} :
    (s.disown lockId).occ q p = s.occ q p := by
  refine occ_updPcb ?_
  intro a
  rfl

theorem makeAvailable_sameLives (s : Sched) (lockId : Nat) :
    SameLives s (s.makeAvailable lockId) :=
  ((SameLives.refl s).updLock _ _).observe (by intro; rfl)

theorem handOver_sameLives (s : Sched) (lockId : Nat) (proc : Pid) (rest : List Pid) :
    SameLives s (s.handOver lockId proc rest) :=
  ((((SameLives.refl s).updLock _ _).updPcb (by intro; rfl) (by intro; rfl)).ready _).observe (by intro; rfl)

/-- A process that is handed a lock goes from the queue of the lock to the ready queue. -/
theorem Settled.handOver {lockId : Nat} {lock : Lock} {proc : Pid} {rest : List Pid}
    (h : s.Settled parked) (hlock : s.lock lockId = some lock)
    (hw : lock.waitingProcs = proc :: rest) : (s.handOver lockId proc rest).Settled parked := by
  let s₁ := s.updLock lockId fun l => { l with waitingProcs := rest, ownerId := proc }
  let s₂ := s₁.updPcb proc fun p => { p with ownedLockIds := p.ownedLockIds ++ [lockId] }
  have hocc₂ : ∀ q p, s₁.occ q p = s₂.occ q p := fun q p => (occ_updPcb (by intro; rfl)).symm
  exact h.wake (handOver_sameLives s lockId proc rest) (adds_lock_out hlock hw)
    ((adds_ready (s := s₂)).congr hocc₂ fun q p => occ_observe _)

/-- A release makes the first waiting process ready. -/
theorem Settled.kernelRelease {lockId : Nat} {rc : Int} (h : s.Settled parked)
    (hok : s.kernelRelease lockId = .ok (rc, s')) : s'.Settled parked ∧ SameLives s s' := by
  cases kernelRelease_cases hok with
  | error => exact ⟨h, .refl s⟩
  | available =>
      have hl := (disown_sameLives s lockId).trans (makeAvailable_sameLives _ lockId)
      refine ⟨h.same hl fun q p => ?_, hl⟩
      simp [makeAvailable, occ_updLock_same]
  | handOver found _ _ _ _ waiting =>
      have h₁ : (s.disown lockId).Settled parked :=
        h.same (disown_sameLives s lockId) fun _ _ => occ_disown
      exact ⟨h₁.handOver (mem_of_findLock found).2 waiting,
        (disown_sameLives s lockId).trans (handOver_sameLives _ _ _ _)⟩

theorem Settled.releaseOwnedLocks {fuel : Nat} (h : s.Settled parked)
    (hok : s.releaseOwnedLocks fuel = .ok s') : s'.Settled parked ∧ SameLives s s' :=
  releaseOwnedLocks_rule (P := fun s₁ => s₁.Settled parked ∧ SameLives s s₁)
    (fun _ _ _ _ hs hr =>
      ⟨(hs.1.kernelRelease hr).1, hs.2.trans (hs.1.kernelRelease hr).2⟩) ⟨h, .refl s⟩ hok

/-! ### The clock -/

/-- A delayed process stays where it is, or goes to the ready queue. -/
theorem Settled.decrementTicksRemaining {proc : Pid} (h : s.Settled parked)
    (hmem : proc ∈ s.clockBlockProcs) :
    (s.decrementTicksRemaining proc).2.Settled parked ∧
      SameLives s (s.decrementTicksRemaining proc).2 ∧
      ∀ p, p ≠ proc → p ∈ s.clockBlockProcs →
        p ∈ (s.decrementTicksRemaining proc).2.clockBlockProcs := by
  have hl : SameLives s (s.updPcb proc fun p =>
      { p with clockTicksUntilReady := p.clockTicksUntilReady - 1 }) := (SameLives.refl s).updPcb (by intro; rfl) (by intro; rfl)
  have h₁ := h.same hl fun q p => occ_updPcb (by intro; rfl)
  have hmem₁ : proc ∈ (s.updPcb proc fun p =>
      { p with clockTicksUntilReady := p.clockTicksUntilReady - 1 }).clockBlockProcs := hmem
  have hlist : (s.updPcb proc fun p =>
      { p with clockTicksUntilReady := p.clockTicksUntilReady - 1 }).clockBlockProcs
        = s.clockBlockProcs := rfl
  unfold Sched.decrementTicksRemaining
  dsimp only
  generalize s.updPcb proc _ = s₁ at hl h₁ hmem₁ hlist
  rw [← hlist]
  split
  · let s₂ : Sched := { s₁ with clockBlockProcs := s₁.clockBlockProcs.erase proc }
    have hout : Adds .clock proc s₂.occ s₁.occ := by
      refine Adds.of_queue (fun r => Lib.count_of_mem_erase hmem₁ r) fun q hq r => ?_
      cases q with
      | clock => exact absurd rfl hq
      | _ => rfl
    have hkeep : SameLives s₁ s₂ := (SameLives.refl s₁).keep rfl rfl id rfl rfl rfl
    have hl₂ : SameLives s₁ ((s₂.ready proc).observe (.delayDone proc)) :=
      (hkeep.ready proc).observe (by intro; rfl)
    exact ⟨h₁.wake hl₂ hout (adds_ready.congr (fun _ _ => rfl) fun _ _ => occ_observe _),
      hl.trans hl₂, fun p hne hp => (List.mem_erase_of_ne hne).mpr hp⟩
  · exact ⟨h₁, hl, fun _ _ hp => hp⟩

theorem Settled.clockBlockProcs_nodup (h : s.Settled parked) : s.clockBlockProcs.Nodup :=
  List.nodup_iff_count_le_one.mpr fun p => h.placed.le_one .clock p

theorem Settled.mapTicks {afterFree : List FreedNext} (h : s.Settled parked)
    (hok : s.mapTicks s.clockBlockProcs afterFree = .ok s') :
    s'.Settled parked ∧ SameLives s s' := by
  obtain ⟨_, hs', hl', -⟩ := mapTicks_rule
    (P := fun procs s₁ => s₁.Settled parked ∧ SameLives s s₁ ∧ procs.Nodup ∧
      ∀ p ∈ procs, p ∈ s₁.clockBlockProcs)
    (fun s₁ proc rest hP => by
      obtain ⟨hs₁, hl₁, hnodup, hmem⟩ := hP
      obtain ⟨hs₂, hl₂, hkeep⟩ := hs₁.decrementTicksRemaining (hmem proc List.mem_cons_self)
      obtain ⟨hnot, hnodup'⟩ := List.nodup_cons.mp hnodup
      exact ⟨hs₂, hl₁.trans hl₂, hnodup', fun p hp =>
        hkeep p (fun e => hnot (e ▸ hp)) (hmem p (List.mem_cons_of_mem _ hp))⟩)
    ⟨h, .refl s, h.clockBlockProcs_nodup, fun _ hp => hp⟩ hok
  exact ⟨hs', hl'⟩

/-- A clock trap: delayed processes become ready, and the running process goes to the end of
the ready queue. -/
theorem Settled.trapClock {afterFree : List FreedNext} (h : s.Running)
    (hok : s.trapClock afterFree = .ok s') : s'.Parked ∧ SameLives s s' := by
  obtain ⟨s₁, hmap, hrest⟩ := bind_eq_ok.mp hok
  have hl₀ : SameLives s (s.observe .clockTick) := (SameLives.refl s).observe (by intro; rfl)
  obtain ⟨h₁, hl₁⟩ := (h.same hl₀ fun _ _ => occ_observe _).mapTicks hmap
  rcases ite_eq_ok hrest with ⟨hcur, hret⟩ | ⟨hcur, hret⟩
  · cases hret
    exact ⟨h₁.park hcur ((SameLives.refl s₁).ready _) adds_ready, (hl₀.trans hl₁).ready _⟩
  · cases hret
    exact ⟨h₁.park_idle (not_not.mp hcur), hl₀.trans hl₁⟩

/-- The process that was running when the clock ticked waits in the ready queue only. -/
theorem occ_trapClock {afterFree : List FreedNext} {q : Queue} (h : s.Running)
    (hok : s.trapClock afterFree = .ok s') (hq : q ≠ .ready) : s'.occ q s'.currentProc = 0 := by
  obtain ⟨hparked, hl⟩ := h.trapClock hok
  by_cases hcur : s.currentProc = IDLE_PID
  · refine hparked.placed.nowhere (fun hin => hin.2.1 ?_) q
    rw [hl.currentProc, hcur]
  · obtain ⟨s₁, -, hrest⟩ := bind_eq_ok.mp hok
    have hready : s'.occ .ready s'.currentProc ≠ 0 := by
      rw [occ_ready_ne_zero]
      rcases ite_eq_ok hrest with ⟨-, hret⟩ | ⟨hcur₁, hret⟩ <;> cases hret
      · exact List.mem_append_right _ (List.mem_singleton.mpr rfl)
      · exact absurd (hl.currentProc.symm.trans (not_not.mp hcur₁)) hcur
    exact (hparked.placed.unique hready).2 q hq

/-! ### Terminals -/

theorem Settled.serveReader {ttyId : Nat} {proc : Pid} {rest : List Pid} {pcb : PCB}
    {buffer input : List Byte} (h : s.Settled parked)
    (hw : (s.ttys ttyId).waitingToReceive = proc :: rest) :
    (s.serveReader ttyId proc rest pcb buffer input).Settled parked ∧
      SameLives s (s.serveReader ttyId proc rest pcb buffer input) := by
  let s₁ := s.updTty ttyId fun t => { t with waitingToReceive := rest }
  have hl : SameLives s (s.serveReader ttyId proc rest pcb buffer input) :=
    ((((SameLives.refl s).updTty _ _).ready _).updPcb (by intro; rfl) (by intro; rfl)).observe (by intro; rfl)
  refine ⟨h.wake hl (adds_receive_out hw rfl)
    ((adds_ready (s := s₁)).congr (fun _ _ => rfl) fun q p => ?_), hl⟩
  exact (occ_observe _).trans (occ_updPcb (s := s₁.ready proc) (by intro; rfl))

/-- A line from the terminal makes readers ready. -/
theorem Settled.trapTtyRecieve {ttyId : Nat} {input : List Byte} (h : s.Settled parked)
    (hok : s.trapTtyRecieve ttyId input = .ok s') : s'.Settled parked ∧ SameLives s s' := by
  unfold Sched.trapTtyRecieve at hok
  rcases ite_eq_ok hok with ⟨-, hok⟩ | ⟨-, hok⟩
  · cases hok
  have hl₀ : SameLives s (s.observe (.ttyReceived ttyId (input.take TERMINAL_MAX_LINE))) :=
    (SameLives.refl s).observe (by intro; rfl)
  have h₀ := h.same hl₀ fun _ _ => occ_observe _
  have hstore : ∀ {s₁ : Sched} (lb : LineBuffer), s₁.Settled parked ∧ SameLives s s₁ →
      (s₁.updTty ttyId fun t => { t with lineBuffers := t.lineBuffers ++ [lb] }).Settled parked ∧
        SameLives s (s₁.updTty ttyId fun t => { t with lineBuffers := t.lineBuffers ++ [lb] }) :=
    fun {s₁} lb hs => ⟨hs.1.same ((SameLives.refl s₁).updTty _ _) fun q p =>
      occ_updTty_same (by intro; rfl) (by intro; rfl), hs.2.updTty _ _⟩
  rcases ite_eq_ok hok with ⟨-, hok⟩ | ⟨-, hok⟩
  · cases hok
    exact hstore _ ⟨h₀, hl₀⟩
  · obtain ⟨⟨left, s₁⟩, hserve, hrest⟩ := bind_eq_ok.mp hok
    obtain ⟨_, ⟨h₁, hl₁, -⟩, -⟩ := serveReaders_rule
      (P := fun procs _ s₁ => s₁.Settled parked ∧ SameLives s s₁ ∧
        (s₁.ttys ttyId).waitingToReceive = procs)
      (fun s₁ proc rest _ _ _ hP _ _ _ => by
        obtain ⟨h₂, hl₂⟩ := hP.1.serveReader hP.2.2
        refine ⟨h₂, hP.2.1.trans hl₂, ?_⟩
        simp [Sched.serveReader, observe, Sched.updPcb, Sched.ready, updTty])
      ⟨h₀, hl₀, rfl⟩ hserve
    rcases ite_eq_ok hrest with ⟨-, hret⟩ | ⟨-, hret⟩ <;> cases hret
    · exact ⟨h₁, hl₁⟩
    · exact hstore _ ⟨h₁, hl₁⟩

theorem Settled.transmitNext {ttyId : Nat} {proc : Pid} (h : s.Settled parked) :
    (s.transmitNext ttyId proc).Settled parked ∧ SameLives s (s.transmitNext ttyId proc) := by
  unfold Sched.transmitNext
  split
  · exact ⟨h, .refl s⟩
  · exact ⟨h.same ((SameLives.refl s).observe (by intro; rfl)) fun _ _ => occ_observe _, (SameLives.refl s).observe (by intro; rfl)⟩

/-- A finished transmission makes the writer ready. -/
theorem Settled.trapTtyTransmit {ttyId : Nat} (h : s.Settled parked)
    (hok : s.trapTtyTransmit ttyId = .ok s') : s'.Settled parked ∧ SameLives s s' := by
  have hl₀ : SameLives s (s.observe (.ttyTransmitted ttyId)) := (SameLives.refl s).observe (by intro; rfl)
  have h₀ := h.same hl₀ fun q p => occ_observe _
  have hfinish : ∀ {proc : Pid} {rest : List Pid},
      (s.ttys ttyId).waitingToTransmit = proc :: rest →
        (s.finishTransmit ttyId proc rest).Settled parked ∧
          SameLives s (s.finishTransmit ttyId proc rest) := by
    intro proc rest hw
    have hl₁ : SameLives (s.observe (.ttyTransmitted ttyId))
        (((s.observe (.ttyTransmitted ttyId)).updTty ttyId fun t =>
          { t with waitingToTransmit := rest }).ready proc) :=
      ((SameLives.refl _).updTty _ _).ready _
    have hw₀ : ((s.observe (.ttyTransmitted ttyId)).ttys ttyId).waitingToTransmit = proc :: rest :=
      hw
    have h₁ := h₀.wake hl₁ (adds_transmit_out hw₀ rfl) adds_ready
    exact ⟨h₁.same ((SameLives.refl _).observe (by intro; rfl)) fun q p => occ_observe _,
      (hl₀.trans hl₁).observe (by intro; rfl)⟩
  cases trapTtyTransmit_cases hok with
  | @advance proc _ _ _ _ _ =>
      have hl₁ : SameLives s (s.advanceTransmit ttyId proc) := by
        refine SameLives.updPcb hl₀ ?_ ?_
        all_goals
          intro a
          simp only [PCB.life]
      have h₁ : (s.advanceTransmit ttyId proc).Settled parked :=
        h.same hl₁ fun q p => (occ_updPcb (by intro a; simp only)).trans (occ_observe _)
      exact ⟨h₁.transmitNext.1, hl₁.trans h₁.transmitNext.2⟩
  | last hw _ _ => exact hfinish hw
  | finish hw _ _ =>
      obtain ⟨h₁, hl₁⟩ := hfinish hw
      exact ⟨h₁.transmitNext.1, hl₁.trans h₁.transmitNext.2⟩

/-! ### Pipes and cvars -/

/-- A write wakes at most one reader. -/
theorem Settled.afterPipeWrite {pipeId : Nat} {p p' : Pipe}
    (h : s.Settled parked) (hp : s.pipe pipeId = some p)
    (hw : p'.waitingToRead = p.waitingToRead) (bytes : List Byte) :
    (s.afterPipeWrite pipeId p' bytes).Settled parked ∧
      SameLives s (s.afterPipeWrite pipeId p' bytes) := by
  unfold Sched.afterPipeWrite
  cases hfind : listFindFirstLessThanIdAndRemove p'.waitingToRead p'.numCharsAvailable with
  | mk found waiting =>
      have hl : SameLives s ((s.updPipe pipeId fun _ =>
          { p' with waitingToRead := waiting }).observe (.pipeWritten pipeId bytes)) :=
        ((SameLives.refl s).updPipe _ _).observe (by intro; rfl)
      cases found with
      | none =>
          obtain ⟨hsame, -⟩ := listFindFirstLessThanIdAndRemove_none hfind
          refine ⟨h.same hl fun q r => (occ_observe _).trans (occ_updPipe_same hp ?_), hl⟩
          exact hsame.trans hw
      | some proc =>
          obtain ⟨before, n, after, hall, hrest, -, -⟩ :=
            listFindFirstLessThanIdAndRemove_some hfind
          rw [hw] at hall
          let s₁ := (s.updPipe pipeId fun _ => { p' with waitingToRead := waiting }).observe
            (.pipeWritten pipeId bytes)
          have hout : Adds (.pipe pipeId) proc s₁.occ s.occ := by
            refine Adds.of_queue (fun r => ?_) fun q hq r => ?_
            · simp only [s₁, occ_observe, occ_updPipe, if_true]
              simp only [occ, hp, Option.map_some, Option.getD_some, hall, hrest,
                List.map_append, List.map_cons, List.count_append, count_cons]
              omega
            · simp only [s₁, occ_observe, occ_updPipe, if_neg hq]
          exact ⟨h.wake (hl.ready proc) hout adds_ready, hl.ready proc⟩

theorem Settled.kernelCvarSignal (h : s.Settled parked) (cvarId : Nat) :
    (s.kernelCvarSignal cvarId).2.Settled parked ∧
      SameLives s (s.kernelCvarSignal cvarId).2 := by
  unfold Sched.kernelCvarSignal
  split
  · exact ⟨h, .refl s⟩
  · rename_i cvar hfound
    split
    · exact ⟨h, .refl s⟩
    · rename_i waitingProc rest hw
      have hl := ((SameLives.refl s).updCvar cvarId fun c => { c with waitingProcs := rest }).ready
        waitingProc
      exact ⟨h.wake hl (adds_cvar_out (mem_of_findCvar hfound).2 hw) adds_ready, hl⟩

/-- Waking the processes of a cvar one after the other. -/
theorem Settled.wakeAll {cvarId : Nat} {cvar : CVar} (h : s.Settled parked)
    (hcvar : s.cvar cvarId = some cvar) :
    ({ s.updCvar cvarId fun c => { c with waitingProcs := [] } with
      readyQueue := s.readyQueue ++ cvar.waitingProcs } : Sched).Settled parked := by
  generalize hw : cvar.waitingProcs = procs
  induction procs generalizing s cvar with
  | nil =>
      refine h.same (SameLives.keep (.refl s) rfl rfl id rfl rfl (List.append_nil _))
        fun q r => ?_
      have hocc : (s.updCvar cvarId fun c => { c with waitingProcs := [] }).occ q r
          = s.occ q r := by
        rw [occ_updCvar]
        split
        · rename_i hq
          simp [hq, occ, hcvar, hw]
        · rfl
      rw [← hocc, List.append_nil]
      cases q <;> rfl
  | cons proc rest ih =>
      -- The first process is woken, and the others by induction.
      let g : CVar → CVar := fun c => { c with waitingProcs := rest }
      have h₁ : ((s.updCvar cvarId g).ready proc).Settled parked :=
        h.wake (((SameLives.refl s).updCvar _ _).ready _) (adds_cvar_out hcvar hw) adds_ready
      have h₂ := ih h₁
        (by simp [Sched.ready, updCvar, hcvar, g]) rfl
      have heq : ({ (((s.updCvar cvarId g).ready proc).updCvar cvarId fun c =>
          { c with waitingProcs := [] }) with
            readyQueue := ((s.updCvar cvarId g).ready proc).readyQueue ++ rest } : Sched)
          = { s.updCvar cvarId fun c => { c with waitingProcs := [] } with
              readyQueue := s.readyQueue ++ proc :: rest } := by
        simp only [Sched.ready, updCvar, List.append_assoc, List.singleton_append]
        congr 1
        funext j
        by_cases hj : j = cvarId <;> simp [hj, Function.comp_def, g]
      exact heq ▸ h₂

theorem Settled.kernelCvarBroadcast (h : s.Settled parked) (cvarId : Nat) :
    (s.kernelCvarBroadcast cvarId).2.Settled parked ∧
      SameLives s (s.kernelCvarBroadcast cvarId).2 := by
  unfold Sched.kernelCvarBroadcast
  split
  · exact ⟨h, .refl s⟩
  · rename_i cvar hfound
    exact ⟨h.wakeAll (mem_of_findCvar hfound).2,
      ((SameLives.refl s).updCvar _ _).appendReady _⟩

/-! ### Creating and ending processes -/

/-- PCBs of processes that have exited are freed, and others keep where they go on, their
dead children and whether they wait for a child. -/
theorem Settled.free {g : Pid → Option PCB} (h : s.Settled parked)
    (hg : ∀ p, g p = none ∧ s.exited p = true ∨ (g p).map PCB.life = (s.pcb p).map PCB.life ∧
      (g p).map PCB.zombieChildren = (s.pcb p).map PCB.zombieChildren ∧
      (g p).map PCB.waitingOnChildren = (s.pcb p).map PCB.waitingOnChildren) :
    ({ s with pcb := g } : Sched).Settled parked := by
  have hsome : ∀ p a', g p = some a' → ∃ a, s.pcb p = some a ∧ a.life = a'.life ∧
      a.zombieChildren = a'.zombieChildren := by
    intro p a' ha'
    rcases hg p with ⟨hnone, -⟩ | ⟨hlife, hz, -⟩
    · simp [hnone] at ha'
    · rw [ha'] at hlife hz
      cases hp : s.pcb p with
      | none => simp [hp] at hlife
      | some a =>
          simp only [hp, Option.map_some, Option.some.injEq] at hlife hz
          exact ⟨a, rfl, hlife.symm, hz.symm⟩
  -- A PCB is freed after its process has exited, so the live ones are the same.
  have hlive : ∀ p, ({ s with pcb := g } : Sched).live p = s.live p := by
    intro p
    have hex : ({ s with pcb := g } : Sched).exited p = s.exited p := rfl
    rcases hg p with ⟨hnone, hexited⟩ | ⟨hlife, -, -⟩
    · rw [Sched.live, Sched.live, hex, hexited]
      simp
    · have hp := congrArg Option.isSome hlife
      simp only [Option.isSome_map] at hp
      rw [Sched.live, Sched.live, hex, hp]
  have hocc : ∀ q p, ({ s with pcb := g } : Sched).occ q p = s.occ q p := by
    intro q p
    cases q with
    | wait =>
        rcases hg p with ⟨hnone, hexited⟩ | ⟨-, -, hw⟩
        · have hdead : s.live p = false := by simp [Sched.live, hexited]
          rw [h.placed.nowhere (fun hin => by simp [hdead] at hin)]
          simp [occ, hnone]
        · simp only [occ, hw]
    | _ => rfl
  exact {
    placed := h.placed.congr hocc fun p => by rw [hlive]
    suspended := fun q p hq hp hcur => by
      rw [hocc] at hp
      have hin := h.placed.inside_of_occ hp
      obtain ⟨a', ha'⟩ := Option.isSome_iff_exists.mp (Bool.and_eq_true _ _ ▸ hlive p ▸ hin.1).1
      obtain ⟨a, ha, hlife, -⟩ := hsome p a' ha'
      obtain ⟨a₁, ha₁, hs⟩ := h.suspended q p hq hp hcur
      have hctx : a.kernelContext = a'.kernelContext := congrArg Prod.snd hlife
      exact ⟨a', ha', by rwa [← hctx, ← Option.some.inj (ha₁.symm.trans ha)]⟩
    current := by
      rw [hlive]
      exact h.current
    pcbLt := fun p hp => by
      obtain ⟨a', ha'⟩ := Option.isSome_iff_exists.mp hp
      obtain ⟨a, ha, -⟩ := hsome p a' ha'
      exact h.pcbLt p (by rw [ha]; rfl)
    exitedLt := h.exitedLt
    zombies := fun p a' ha' q hq => by
      obtain ⟨a, ha, -, hz⟩ := hsome p a' ha'
      exact h.zombies p a ha q (hz ▸ hq)
    idleLive := by
      rw [hlive]
      exact h.idleLive
    idleContext := fun a' ha' => by
      obtain ⟨a, ha, hlife, -⟩ := hsome _ a' ha'
      have hinit : a.kernelContextInitialized = a'.kernelContextInitialized :=
        congrArg Prod.fst hlife
      have hctx : a.kernelContext = a'.kernelContext := congrArg Prod.snd hlife
      rw [← hinit, ← hctx]
      exact h.idleContext a ha
    started := fun p a' ha' hinit' => by
      obtain ⟨a, ha, hlife, -⟩ := hsome p a' ha'
      have hinit : a.kernelContextInitialized = a'.kernelContextInitialized :=
        congrArg Prod.fst hlife
      exact h.started p a ha (hinit.trans hinit') }

theorem exited_observe_exited {p : Pid} {status : Int} :
    (s.observe (.exited p status)).exited = fun q => s.exited q || (p == q) := by
  funext q
  simp [Sched.exited, Sched.observe, Obs.isExitOf]

/-- The running process ends: it belongs in no queue any more. -/
theorem Settled.observe_exited (h : s.Running) (hcur : s.currentProc ≠ IDLE_PID) (status : Int) :
    (s.observe (.exited s.currentProc status)).Parked := by
  have hlive : ∀ p, (s.observe (.exited s.currentProc status)).live p = true ↔
      s.live p = true ∧ p ≠ s.currentProc := by
    intro p
    simp only [Sched.live, exited_observe_exited, Bool.and_eq_true, Bool.not_eq_true',
      Bool.or_eq_false_iff, beq_eq_false_iff_ne, ne_eq, and_assoc]
    exact Iff.and Iff.rfl (Iff.and Iff.rfl ⟨fun hne he => hne he.symm, fun hne he => hne he.symm⟩)
  refine { h with
    placed := h.placed.congr (fun _ _ => occ_observe _) fun p => ?_
    suspended := fun q p hq hocc => h.suspended q p hq (by rwa [occ_observe] at hocc)
    current := .inl trivial
    exitedLt := fun p hp => ?_
    zombies := fun p a ha q hq => ?_
    idleLive := (hlive _).mpr ⟨h.idleLive, Ne.symm hcur⟩ }
  · rw [hlive]
    constructor
    · rintro ⟨⟨hp, hne⟩, hidle, -⟩
      exact ⟨hp, hidle, .inr hne⟩
    · rintro ⟨hp, hidle, hne⟩
      exact ⟨⟨hp, hne.resolve_left id⟩, hidle, .inl trivial⟩
  · simp only [exited_observe_exited, Bool.or_eq_true, beq_iff_eq] at hp
    rcases hp with hp | rfl
    · exact h.exitedLt p hp
    · have hlive := h.current.resolve_left id
      exact h.pcbLt _ (Bool.and_eq_true _ _ ▸ hlive).1
  · simp only [exited_observe_exited, Bool.or_eq_true]
    exact .inl (h.zombies p a ha q hq)

/-- The parent gets a zombie, and is woken if it waits for one. -/
theorem Settled.becomeZombie {parent : Pid} (h : s.Settled parked)
    (hexited : s.exited s.currentProc = true) :
    (s.becomeZombie parent).Settled parked ∧ SameLives s (s.becomeZombie parent) := by
  have hl : SameLives s (s.updPcb parent fun p =>
      { p with
        liveChildren := p.liveChildren.erase s.currentProc
        zombieChildren := p.zombieChildren ++ [s.currentProc]
        waitingOnChildren := false }) := by
    refine (SameLives.refl s).updPcb' (fun _ => rfl) fun a q hq => ?_
    rcases List.mem_append.mp hq with hq | hq
    · exact .inl hq
    · exact .inr (List.mem_singleton.mp hq ▸ hexited)
  unfold Sched.becomeZombie
  dsimp only
  split
  · rename_i hw
    cases hp : s.pcb parent with
    | none => simp [hp] at hw
    | some a =>
        simp only [hp, Option.map_some, Option.getD_some] at hw
        exact ⟨h.wake (hl.ready parent) (adds_wait_out hp hw rfl) adds_ready, hl.ready parent⟩
  · rename_i hw
    refine ⟨h.same hl fun q r => ?_, hl⟩
    cases q with
    | wait =>
        simp only [occ, updPcb_pcb]
        cases hr : s.pcb r with
        | none => rfl
        | some a =>
            by_cases hrp : r = parent
            · subst hrp
              simpa [hr] using hw
            · simp [hrp]
    | _ => rfl

theorem Settled.leaveFamily (h : s.Running) (hcur : s.currentProc ≠ IDLE_PID) (status : Int) :
    (s.leaveFamily status).Parked ∧
      (s.leaveFamily status).exited (s.leaveFamily status).currentProc = true ∧
      (s.leaveFamily status).currentProc = s.currentProc := by
  unfold Sched.leaveFamily
  cases hpcb : s.pcb s.currentProc with
  | none => simpa [Sched.live, hpcb] using h.current
  | some pcb =>
      have h₁ : (s.abandonChildren pcb).Running := by
        refine h.free fun p => ?_
        by_cases hz : p ∈ pcb.zombieChildren
        · exact .inl ⟨by simp [hz], h.zombies _ _ hpcb p hz⟩
        · refine .inr ?_
          by_cases hc : p ∈ pcb.liveChildren <;> cases s.pcb p <;> simp [hz, hc, PCB.life]
      have hl₂ : SameLives (s.abandonChildren pcb) ((s.abandonChildren pcb).updCurrent fun p =>
          { p with liveChildren := [], zombieChildren := [], exitStatus := status }) :=
        (SameLives.refl _).updPcb' (fun _ => rfl) fun _ _ hq => by cases hq
      have h₂ := h₁.same hl₂ fun q p => occ_updPcb (by intro; rfl)
      have hcur₂ := hl₂.currentProc
      dsimp only
      generalize (s.abandonChildren pcb).updCurrent _ = s₂ at h₂ hcur₂
      have hcur₂' : s₂.currentProc = s.currentProc := hcur₂
      have h₃ := h₂.observe_exited (by rwa [hcur₂']) status
      have hex₃ : (s₂.observe (.exited s₂.currentProc status)).exited s₂.currentProc = true := by
        simp [exited_observe_exited]
      split
      · refine ⟨h₃.free fun p => ?_, hex₃, hcur₂'⟩
        by_cases hp : p = s₂.currentProc
        · exact .inl ⟨by simp [Sched.observe, hp], hp ▸ hex₃⟩
        · refine .inr ?_
          simp [Sched.observe, hp]
      · obtain ⟨h₄, hl₄⟩ := h₃.becomeZombie hex₃
        refine ⟨h₄, ?_, hl₄.currentProc.trans hcur₂'⟩
        rw [hl₄.exited, hl₄.currentProc]
        exact hex₃

/-- `KernelExit`, with the switch at its end. -/
theorem Settled.kernelExit {status : Int} (h : s.Running) (hcur : s.currentProc ≠ IDLE_PID)
    (hok : s.kernelExit status = .ok s') : (s'.switchToNextProc .kernelExit).Running := by
  unfold Sched.kernelExit at hok
  rcases ite_eq_ok hok with ⟨-, hok⟩ | ⟨-, hok⟩
  · cases hok
  obtain ⟨s₁, hrelease, hret⟩ := bind_eq_ok.mp hok
  cases hret
  obtain ⟨h₁, hl₁⟩ := h.releaseOwnedLocks hrelease
  have hcur₁ : s₁.currentProc ≠ IDLE_PID := by rwa [hl₁.currentProc]
  obtain ⟨h₂, hexited, hcur₂⟩ := h₁.leaveFamily hcur₁ status
  refine h₂.switch (fun q _ hocc => ?_) fun hidle => absurd (hcur₂ ▸ hidle) hcur₁
  have hlive := (h₂.placed.inside_of_occ hocc).1
  simp [Sched.live, hexited] at hlive

/-- Nothing that `KernelExit` does makes a process live. -/
theorem live_of_becomeZombie {parent p : Pid} (h : (s.becomeZombie parent).live p = true) :
    s.live p = true := by
  unfold Sched.becomeZombie at h
  dsimp only at h
  split at h
  · simpa using h
  · simpa using h

theorem live_of_abandonChildren {pcb : PCB} {p : Pid}
    (h : (s.abandonChildren pcb).live p = true) : s.live p = true := by
  simp only [Sched.live, Sched.abandonChildren, Bool.and_eq_true] at h ⊢
  obtain ⟨hp, hexited⟩ := h
  refine ⟨?_, hexited⟩
  split at hp
  · cases hp
  · split at hp
    · simpa using hp
    · exact hp

theorem live_of_leaveFamily {status : Int} {p : Pid} (h : (s.leaveFamily status).live p = true) :
    s.live p = true := by
  unfold Sched.leaveFamily at h
  split at h
  · exact h
  · dsimp only at h
    split at h
    · have h₁ := live_of_observe (live_of_freePcb h)
      rw [updCurrent, live_updPcb] at h₁
      exact live_of_abandonChildren h₁
    · have h₁ := live_of_observe (live_of_becomeZombie h)
      rw [updCurrent, live_updPcb] at h₁
      exact live_of_abandonChildren h₁

theorem Settled.kernelExit_live {status : Int} {p : Pid} (h : s.Running)
    (hok : s.kernelExit status = .ok s') (hp : s'.live p = true) : s.live p = true := by
  unfold Sched.kernelExit at hok
  rcases ite_eq_ok hok with ⟨-, hok⟩ | ⟨-, hok⟩
  · cases hok
  obtain ⟨s₁, hrelease, hret⟩ := bind_eq_ok.mp hok
  cases hret
  rw [← (h.releaseOwnedLocks hrelease).2.live]
  exact live_of_leaveFamily hp

/-- `KernelWait` frees a child that has exited. -/
theorem Settled.collect {pcb : PCB} {child : Pid} {rest : List Pid} {o : Obs} (h : s.Running)
    (hcur : s.pcb s.currentProc = some pcb) (hz : pcb.zombieChildren = child :: rest)
    (ho : ∀ p, o.isExitOf p = false) :
    (((s.updCurrent fun p => { p with zombieChildren := rest }).freePcb child).observe
      o).toUser.Running := by
  have hexited : s.exited child := h.zombies _ _ hcur child (hz ▸ List.mem_cons_self)
  have hl₁ : SameLives s (s.updCurrent fun p => { p with zombieChildren := rest }) := by
    refine ⟨rfl, rfl, id, fun _ => rfl, fun p => ?_, fun p a' ha' => ?_, List.prefix_rfl⟩
    · rw [updCurrent, updPcb_pcb]
      cases s.pcb p with
      | none => rfl
      | some a => by_cases hp : p = s.currentProc <;> simp [hp, PCB.life]
    · rw [updCurrent, updPcb_pcb] at ha'
      obtain ⟨a, ha, rfl⟩ := Option.map_eq_some_iff.mp ha'
      refine ⟨a, ha, fun q hq => ?_⟩
      split at hq
      · rename_i hp
        rw [hp, hcur] at ha
        cases ha
        exact .inl (hz ▸ List.mem_cons_of_mem _ hq)
      · exact .inl hq
  have h₁ := h.same hl₁ fun q p => occ_updPcb (by intro; rfl)
  have hexited₁ : (s.updCurrent fun p => { p with zombieChildren := rest }).exited child := hexited
  generalize s.updCurrent _ = s₁ at h₁ hexited₁
  have h₂ : (s₁.freePcb child).Running := h₁.free fun p => by
    by_cases hp : p = child
    · exact .inl ⟨by simp [hp], hp ▸ hexited₁⟩
    · exact .inr (by simp [hp])
  exact h₂.same ((SameLives.refl _).observe ho).toUser fun _ _ => occ_toUser.trans (occ_observe _)

/-- `KernelFork` switches to the child, and the parent is ready. -/
theorem Settled.fork {c : KernelContext} (h : s.Running) (hcur : s.currentProc ≠ IDLE_PID) :
    (((({ s with nextPid := s.nextPid + 1 } : Sched).addChild s.nextPid).ready
      s.currentProc).switchToProc s.nextPid c).Running := by
  have hnone : s.pcb s.nextPid = none := by
    rw [← Option.not_isSome_iff_eq_none]
    exact fun hp => Nat.lt_irrefl _ (h.pcbLt _ hp)
  have hlive₀ : s.live s.nextPid = false := by simp [Sched.live, hnone]
  have hcurLt : s.currentProc ≠ s.nextPid := by
    intro he
    have hlive := h.current.resolve_left id
    simp [he, hlive₀] at hlive
  let s₁ := (({ s with nextPid := s.nextPid + 1 } : Sched).addChild s.nextPid).ready s.currentProc
  have hpcb : ∀ p, s₁.pcb p = if p = s.nextPid then some { liveParent := some s.currentProc }
      else (s.pcb p).map fun a => if p = s.currentProc then
        { a with liveChildren := a.liveChildren ++ [s.nextPid] } else a := by
    intro p
    simp only [s₁, Sched.ready, addChild, Sched.observe, updCurrent, updPcb_pcb]
    by_cases hp : p = s.nextPid
    · simp [hp, Ne.symm hcurLt]
    · simp [hp]
  have hsome : ∀ p a', p ≠ s.nextPid → s₁.pcb p = some a' → ∃ a, s.pcb p = some a ∧
      a.life = a'.life ∧ a.zombieChildren = a'.zombieChildren ∧
        a.waitingOnChildren = a'.waitingOnChildren := by
    intro p a' hp ha'
    rw [hpcb, if_neg hp] at ha'
    obtain ⟨a, ha, rfl⟩ := Option.map_eq_some_iff.mp ha'
    refine ⟨a, ha, ?_⟩
    by_cases hpc : p = s.currentProc <;> simp [hpc, PCB.life]
  have hexited : ∀ p, s₁.exited p = s.exited p := fun p => exited_addChild
  have hlive : ∀ p, s₁.live p = true ↔ s.live p = true ∨ p = s.nextPid := by
    intro p
    by_cases hp : p = s.nextPid
    · have hnot : s.exited s.nextPid = false := by
        rw [Bool.eq_false_iff]
        exact fun he => Nat.lt_irrefl _ (h.exitedLt _ he)
      simp [Sched.live, hpcb, hexited, hp, hnot]
    · simp [Sched.live, hpcb, hexited, hp]
  have hadd : Adds .ready s.currentProc s.occ s₁.occ := by
    refine Adds.of_queue (fun r => count_concat _ _ _) fun q hq r => ?_
    cases q with
    | ready => exact absurd rfl hq
    | wait =>
        simp only [occ, hpcb]
        by_cases hr : r = s.nextPid
        · simp [hr, hnone]
        · cases s.pcb r with
          | none => simp [hr]
          | some a => by_cases hrc : r = s.currentProc <;> simp [hr, hrc, hcurLt]
    | _ => rfl
  refine Running.of_switchToProc (s := s₁)
    ((h.placed.add (fun hi => (hi.2.2.resolve_left id) rfl) hadd).congr (fun _ _ => rfl)
      fun p => ?_) (fun q p hq hocc hp => ?_) (fun q hq hocc => ?_) ((hlive _).mpr (.inr rfl))
    (fun p hp => ?_) (fun p hp => Nat.lt_succ_of_lt (h.exitedLt p (hexited p ▸ hp))) (fun p a' ha' q hq => ?_)
    ((hlive _).mpr (.inl h.idleLive)) (fun a' ha' => ?_) (fun hidle => absurd hidle hcur)
    (fun p a' ha' hinit' => ?_)
  · rw [hlive]
    constructor
    · rintro ⟨hp, hidle, hne⟩
      by_cases hpc : p = s.currentProc
      · exact .inr hpc
      · exact .inl ⟨hp.resolve_right hne, hidle, .inr hpc⟩
    · rintro (⟨hp, hidle, -⟩ | rfl)
      · refine ⟨.inl hp, hidle, fun he => ?_⟩
        simp [he, hlive₀] at hp
      · exact ⟨.inl (h.current.resolve_left id), hcur, hcurLt⟩
  · rw [hadd, if_neg fun e => hq e.1, Nat.add_zero] at hocc
    obtain ⟨a, ha, hs⟩ := h.suspended q p hq hocc hp
    have hpn : p ≠ s.nextPid := by
      rintro rfl
      simp [hnone] at ha
    refine ⟨_, by rw [hpcb, if_neg hpn, ha]; rfl, ?_⟩
    have hpc : p ≠ s.currentProc := hp
    simpa [hpc] using hs
  · -- The running process is in the ready queue only.
    have hcount : s.occ q s.currentProc = 0 :=
      h.placed.nowhere (fun hi => (hi.2.2.resolve_left id) rfl) q
    have hocc' : s₁.occ q s.currentProc ≠ 0 := hocc
    rw [hadd, hcount, if_neg fun e => hq e.1] at hocc'
    exact absurd rfl hocc'
  · by_cases hpn : p = s.nextPid
    · exact hpn ▸ Nat.lt_succ_self _
    · obtain ⟨a', ha'⟩ := Option.isSome_iff_exists.mp hp
      obtain ⟨a, ha, -⟩ := hsome p a' hpn ha'
      exact Nat.lt_succ_of_lt (h.pcbLt p (by rw [ha]; rfl))
  · by_cases hpn : p = s.nextPid
    · rw [hpcb, if_pos hpn] at ha'
      cases ha'
      cases hq
    · obtain ⟨a, ha, -, hz, -⟩ := hsome p a' hpn ha'
      exact (hexited q).trans (h.zombies p a ha q (hz ▸ hq))
  · have hidle : IDLE_PID ≠ s.nextPid := by
      intro he
      have hlive := h.idleLive
      simp [he, hlive₀] at hlive
    obtain ⟨a, ha, hlife, -⟩ := hsome _ a' hidle ha'
    simp only [PCB.life, Prod.mk.injEq] at hlife
    rw [← hlife.1, ← hlife.2]
    exact h.idleContext a ha
  · by_contra hpn
    obtain ⟨a, ha, hlife, -⟩ := hsome p a' hpn ha'
    simp only [PCB.life, Prod.mk.injEq] at hlife
    exact hcur (h.started p a ha (hlife.1.trans hinit')).1

end

/-! ## Blocking and new objects -/

section
variable {s s' : Sched}

theorem enqueueForClock_sameLives (s : Sched) (clockTicks : Int) :
    SameLives s (s.enqueueForClock clockTicks) := by
  let s₁ := s.updCurrent fun p => { p with clockTicksUntilReady := clockTicks }
  have hl₁ : SameLives s s₁ := (SameLives.refl s).updPcb (by intro; rfl) (by intro; rfl)
  have hl₂ : SameLives s { s₁ with clockBlockProcs := s₁.clockBlockProcs ++ [s₁.currentProc] } :=
    hl₁.keep rfl rfl id rfl rfl rfl
  exact hl₂.observe (by intro; rfl)

theorem adds_enqueueForClock (clockTicks : Int) :
    Adds .clock s.currentProc s.occ (s.enqueueForClock clockTicks).occ := by
  let s₁ := s.updCurrent fun p => { p with clockTicksUntilReady := clockTicks }
  have hocc₁ : ∀ q r, s₁.occ q r = s.occ q r := fun q r => occ_updPcb (by intro; rfl)
  refine Adds.of_queue (fun r => count_concat _ _ _) fun q hq r => ?_
  rw [enqueueForClock, occ_observe, ← hocc₁]
  cases q with
  | clock => exact absurd rfl hq
  | _ => rfl

theorem enqueueToReceive_sameLives (s : Sched) (ttyId len : Nat) :
    SameLives s (s.enqueueToReceive ttyId len) :=
  ((SameLives.refl s).updTty _ _).updPcb (by intro; rfl) (by intro; rfl)

theorem adds_enqueueToReceive (ttyId len : Nat) :
    Adds (.receive ttyId) s.currentProc s.occ (s.enqueueToReceive ttyId len).occ := by
  let s₁ := s.updTty ttyId fun t =>
    { t with waitingToReceive := t.waitingToReceive ++ [s.currentProc] }
  have hadd : Adds (.receive ttyId) s.currentProc s.occ s₁.occ := adds_receive_in rfl rfl
  exact hadd.congr (fun _ _ => rfl) fun q r => occ_updPcb (by intro; rfl)

theorem enqueueToTransmit_sameLives (s : Sched) (ttyId : Nat) (bytes : List Byte) :
    SameLives s (s.enqueueToTransmit ttyId bytes) := by
  unfold enqueueToTransmit
  dsimp only
  split
  · exact ((((SameLives.refl s).updPcb (by intro; rfl) (by intro; rfl)).updTty _ _).observe (by intro; rfl)).observe (by intro; rfl)
  · exact (((SameLives.refl s).updPcb (by intro; rfl) (by intro; rfl)).updTty _ _).observe (by intro; rfl)

theorem adds_enqueueToTransmit (ttyId : Nat) (bytes : List Byte) :
    Adds (.transmit ttyId) s.currentProc s.occ (s.enqueueToTransmit ttyId bytes).occ := by
  let s₁ := s.updCurrent fun p =>
    { p with
      ttyTransmitLen := bytes.length, ttyTransmitBuffer := bytes, ttyTransmitPointer := 0 }
  have hocc₁ : ∀ q r, s.occ q r = s₁.occ q r := fun q r => (occ_updPcb (by intro; rfl)).symm
  have hadd : Adds (.transmit ttyId) s.currentProc s₁.occ (s₁.updTty ttyId fun t =>
      { t with waitingToTransmit := t.waitingToTransmit ++ [s₁.currentProc] }).occ :=
    adds_transmit_in rfl rfl
  refine hadd.congr hocc₁ fun q r => ?_
  unfold enqueueToTransmit
  dsimp only
  split
  · rw [occ_observe, occ_observe]
  · rw [occ_observe]

theorem enqueueForLock_sameLives (s : Sched) (lockId : Nat) :
    SameLives s (s.enqueueForLock lockId) :=
  ((SameLives.refl s).updLock _ _).observe (by intro; rfl)

theorem adds_enqueueForLock {lockId : Nat} {lock : Lock} (h : s.findLock lockId = some lock) :
    Adds (.lock lockId) s.currentProc s.occ (s.enqueueForLock lockId).occ := by
  have hadd : Adds (.lock lockId) s.currentProc s.occ (s.updLock lockId fun l =>
      { l with waitingProcs := l.waitingProcs ++ [s.currentProc] }).occ :=
    adds_lock_in (mem_of_findLock h).2 rfl
  exact hadd.congr (fun _ _ => rfl) fun _ _ => occ_observe _

theorem adds_enqueueForCvar {cvarId : Nat} {cvar : CVar} (h : s.cvar cvarId = some cvar) :
    Adds (.cvar cvarId) s.currentProc s.occ (s.enqueueForCvar cvarId).occ :=
  adds_cvar_in h rfl

theorem takeLock_sameLives (s : Sched) (lockId : Nat) : SameLives s (s.takeLock lockId) :=
  (((SameLives.refl s).updLock _ _).updPcb (by intro; rfl) (by intro; rfl)).observe (by intro; rfl)

theorem occ_takeLock {lockId : Nat} {q : Queue} {p : Pid} :
    (s.takeLock lockId).occ q p = s.occ q p := by
  let s₁ := s.updLock lockId fun l => { l with acquired := true, ownerId := s.currentProc }
  have hocc₁ : s₁.occ q p = s.occ q p := occ_updLock_same (by intro; rfl)
  rw [takeLock, occ_observe, ← hocc₁]
  exact occ_updPcb (by intro; rfl)

theorem kernelRelease_cvar {lockId : Nat} {rc : Int} (h : s.kernelRelease lockId = .ok (rc, s')) :
    s'.cvar = s.cvar := by
  cases kernelRelease_cases h <;> rfl

theorem lockNewLock_sameLives (s : Sched) : SameLives s s.lockNewLock :=
  (SameLives.refl s).keep rfl rfl id rfl rfl rfl

theorem cVarNewCVar_sameLives (s : Sched) : SameLives s s.cVarNewCVar :=
  (SameLives.refl s).keep rfl rfl id rfl rfl rfl

theorem pipeNewPipe_sameLives (s : Sched) : SameLives s s.pipeNewPipe :=
  (SameLives.refl s).keep rfl rfl id rfl rfl rfl

theorem occ_lockNewLock {q : Queue} {p : Pid} (h : s.Objects) :
    s.lockNewLock.occ q p = s.occ q p := by
  cases q with
  | lock i =>
      by_cases hi : i = s.nextSynchResourceId
      · simp [occ, Sched.lockNewLock, hi, h.lockFresh _ (Nat.le_refl _)]
      · simp [occ, Sched.lockNewLock, hi]
  | _ => rfl

theorem occ_cVarNewCVar {q : Queue} {p : Pid} (h : s.Objects) :
    s.cVarNewCVar.occ q p = s.occ q p := by
  cases q with
  | cvar i =>
      by_cases hi : i = s.nextSynchResourceId
      · simp [occ, Sched.cVarNewCVar, hi, h.cvarFresh _ (Nat.le_refl _)]
      · simp [occ, Sched.cVarNewCVar, hi]
  | _ => rfl

theorem occ_pipeNewPipe {q : Queue} {p : Pid} (h : s.Objects) :
    s.pipeNewPipe.occ q p = s.occ q p := by
  cases q with
  | pipe i =>
      by_cases hi : i = s.nextSynchResourceId
      · simp [occ, Sched.pipeNewPipe, hi, h.pipeFresh _ (Nat.le_refl _)]
      · simp [occ, Sched.pipeNewPipe, hi]
  | _ => rfl

theorem kernelReclaim_keeps (s : Sched) (id : Nat) :
    SameLives s (s.kernelReclaim id).2 ∧ ∀ q p, (s.kernelReclaim id).2.occ q p = s.occ q p := by
  rcases kernelReclaim_cases s id with he | he | he | he <;> rw [he]
  · exact ⟨.refl s, fun _ _ => rfl⟩
  all_goals
    refine ⟨(SameLives.refl s).keep rfl rfl (fun hm => hm) rfl rfl rfl, fun q p => ?_⟩
    cases q <;> rfl

end

/-! ## Runs -/

section
variable {s s' : Sched}

/-- Idle is suspended in `TrapClock` only. -/
theorem Settled.ne_idle {c : KernelContext} (h : s.Running) (entry : s.ResumesIn c)
    (hc : c ≠ .trapClock) : s.currentProc ≠ IDLE_PID := by
  intro hidle
  obtain ⟨a, ha⟩ := Option.isSome_iff_exists.mp (Bool.and_eq_true _ _ ▸ h.idleLive).1
  have hctx := entry.2
  rw [hidle, ha] at hctx
  exact hc (hctx.symm.trans (h.idleContext a ha).2)

theorem Settled.ne_idle_of_readsPipe {pipeId buf len : Nat} (h : s.Running)
    (reads : s.ReadsPipe pipeId buf len) : s.currentProc ≠ IDLE_PID := by
  rcases reads with ⟨calls, -⟩ | entry
  · exact calls.2
  · exact h.ne_idle entry (by simp)

theorem Settled.ne_idle_of_acquires {lockId : Nat} (h : s.Running) (acquires : s.Acquires lockId) :
    s.currentProc ≠ IDLE_PID := by
  rcases acquires with calls | entry
  · exact calls.2
  · exact h.ne_idle entry (by simp)

end

end Sched

open Sched

/-- Every step leaves every process in one place. -/
theorem SchedStep.running {c : Cause} {s s' : Sched} (h : s.Running) (hobj : s.Objects)
    (hstep : SchedStep s c s') : s'.Running := by
  have hl := SameLives.refl s
  cases hstep with
  | quiet => exact h
  | finish _ _ => exact h.same hl.toUser fun _ _ => occ_toUser
  | forkFailed calls =>
      have hlt : ∀ p, p < s.nextPid → p < s.nextPid + 1 := fun p hp => Nat.lt_succ_of_lt hp
      exact { h with
        placed := h.placed.congr (fun q _ => by cases q <;> rfl) fun _ => Iff.rfl
        suspended := fun q p hq hocc => h.suspended q p hq (by cases q <;> exact hocc)
        pcbLt := fun p hp => hlt p (h.pcbLt p hp)
        exitedLt := fun p hp => hlt p (h.exitedLt p hp)
        started := fun p a ha hinit => absurd (h.started p a ha hinit).1 calls.2 }
  | fork calls => exact h.fork calls.2
  | exit entry run =>
      have hcur : s.currentProc ≠ IDLE_PID := entry.elim And.right (h.ne_idle · (by simp))
      exact h.kernelExit hcur run
  | collect _ current zombies _ => exact h.collect current zombies fun _ => rfl
  | wait calls current _ _ =>
      have hnot := h.placed.nowhere (a := s.currentProc)
        (fun hi => (hi.2.2.resolve_left id) rfl) .wait
      have hflag : ‹PCB›.waitingOnChildren = false := by
        simpa [occ, current] using hnot
      exact h.block calls.2 (hl.updPcb (by intro; rfl) (by intro; rfl)) (adds_wait_in current hflag rfl) ⟨_, rfl⟩
  | delay calls _ =>
      exact h.block (q := .clock) calls.2 (enqueueForClock_sameLives _ _) (adds_enqueueForClock _)
        rfl
  | clock _ _ run =>
      exact (h.trapClock run).1.switch (fun q hq hocc => absurd (occ_trapClock h run hq) hocc)
        fun _ => rfl
  | consumeLine _ _ _ _ =>
      refine h.same ((hl.updTty _ _).observe (by intro; rfl)).toUser fun q p => ?_
      rw [occ_toUser, occ_observe]
      exact occ_updTty_same (by intro; rfl) (by intro; rfl)
  | ttyReadBlock _ calls _ =>
      exact h.block (q := .receive _) calls.2 (enqueueToReceive_sameLives _ _ _)
        (adds_enqueueToReceive _ _) ⟨_, rfl⟩
  | ttyReceive _ _ run => exact (h.trapTtyRecieve run).1
  | ttyWrite calls transmits =>
      exact h.block (q := .transmit _) calls.2 (enqueueToTransmit_sameLives _ _ _)
        (adds_enqueueToTransmit _ _) transmits
  | ttyTransmit _ _ run => exact (h.trapTtyTransmit run).1
  | pipeInit _ =>
      exact h.same (pipeNewPipe_sameLives s).toUser
        fun _ _ => occ_toUser.trans (occ_pipeNewPipe hobj)
  | lockInit _ =>
      exact h.same (lockNewLock_sameLives s).toUser
        fun _ _ => occ_toUser.trans (occ_lockNewLock hobj)
  | cvarInit _ =>
      exact h.same (cVarNewCVar_sameLives s).toUser
        fun _ _ => occ_toUser.trans (occ_cVarNewCVar hobj)
  | pipeReadBlock reads pipe _ =>
      exact h.block (q := .pipe _) (h.ne_idle_of_readsPipe reads) (hl.updPipe _ _)
        (adds_pipe_in pipe rfl) ⟨_, _, rfl⟩
  | pipeRead _ pipe run =>
      refine h.same ((hl.updPipe _ _).observe (by intro; rfl)).toUser fun q r => ?_
      rw [occ_toUser, occ_observe]
      exact occ_updPipe_same pipe (Pipe.pipeCopyIntoUserBuffer_waitingToRead run)
  | pipeWrite _ _ pipe run =>
      exact (h.afterPipeWrite (mem_of_findPipe pipe).2 (Pipe.write_waitingToRead run) _).1.same
        (SameLives.refl _).toUser fun _ _ => occ_toUser
  | acquireOwned _ _ _ _ =>
      exact h.same (hl.observe (by intro; rfl)).toUser fun _ _ => occ_toUser.trans (occ_observe _)
  | acquireFree _ _ _ =>
      exact h.same ((takeLock_sameLives _ _).observe (by intro; rfl)).toUser
        fun _ _ => occ_toUser.trans ((occ_observe _).trans occ_takeLock)
  | acquireBlock acquires found _ _ =>
      exact h.block (q := .lock _) (h.ne_idle_of_acquires acquires) (enqueueForLock_sameLives _ _)
        (adds_enqueueForLock found) rfl
  | acquireMissing _ _ => exact h.same hl.toUser fun _ _ => occ_toUser
  | acquireReturn _ _ _ _ =>
      exact h.same (hl.observe (by intro; rfl)).toUser fun _ _ => occ_toUser.trans (occ_observe _)
  | release _ run =>
      exact (h.kernelRelease run).1.same (SameLives.refl _).toUser fun _ _ => occ_toUser
  | cvarSignal _ =>
      exact (h.kernelCvarSignal _).1.same (SameLives.refl _).toUser fun _ _ => occ_toUser
  | cvarBroadcast _ =>
      exact (h.kernelCvarBroadcast _).1.same (SameLives.refl _).toUser fun _ _ => occ_toUser
  | cvarWait calls found run _ =>
      obtain ⟨h₁, hl₁⟩ := h.kernelRelease run
      have hcvar := (mem_of_findCvar found).2
      rw [← kernelRelease_cvar run] at hcvar
      exact h₁.block (q := .cvar _) (hl₁.currentProc ▸ calls.2) ((SameLives.refl _).updCvar _ _)
        (adds_enqueueForCvar hcvar) ⟨_, rfl⟩
  | reclaim _ =>
      obtain ⟨hl₁, hocc⟩ := kernelReclaim_keeps s _
      exact h.same hl₁.toUser fun q p => occ_toUser.trans (hocc q p)

theorem bootSched_running : Kernel.bootSched.Running where
  placed := {
    once := fun {p} hp => by
      obtain ⟨hlive, hidle, -⟩ := hp
      have hp : p = INIT_PID := by
        by_contra hne
        simp [Sched.live, Kernel.bootSched, hidle, hne] at hlive
      subst hp
      refine ⟨.ready, by decide, fun q hq => ?_⟩
      cases q with
      | ready => exact absurd rfl hq
      | _ => simp [occ, Kernel.bootSched]
    nowhere := fun {p} hp q => by
      cases q with
      | ready =>
          by_contra hocc
          have hmem := occ_ready_ne_zero.mp hocc
          simp only [Kernel.bootSched, List.mem_singleton] at hmem
          exact hp (by subst hmem; decide)
      | wait =>
          by_cases h₀ : p = IDLE_PID <;> by_cases h₁ : p = INIT_PID <;>
            simp [occ, Kernel.bootSched, h₀, h₁]
      | _ => simp [occ, Kernel.bootSched] }
  suspended q p hq hocc _ := by
    cases q with
    | ready => exact absurd rfl hq
    | wait =>
        by_cases h₀ : p = IDLE_PID <;> by_cases h₁ : p = INIT_PID <;>
          simp [occ, Kernel.bootSched, h₀, h₁] at hocc
    | _ => simp [occ, Kernel.bootSched] at hocc
  current := .inr (by decide)
  pcbLt p hp := by
    by_contra hlt
    have h₀ : p ≠ 0 := fun e => hlt (e ▸ by decide)
    have h₁ : p ≠ 1 := fun e => hlt (e ▸ by decide)
    simp [Kernel.bootSched, h₀, h₁] at hp
  exitedLt p hp := by simp [Sched.exited, Kernel.bootSched] at hp
  zombies p a ha q hq := by
    simp only [Kernel.bootSched] at ha
    split at ha
    · cases ha
      cases hq
    · split at ha
      · cases ha
        cases hq
      · cases ha
  idleLive := by decide
  idleContext a ha := by
    cases ha
    exact ⟨rfl, rfl⟩
  started p a ha hinit := by
    simp only [Kernel.bootSched] at ha
    split at ha
    · cases ha
      cases hinit
    · split at ha
      · rename_i hp
        exact ⟨rfl, rfl, congrArg some hp.symm⟩
      · cases ha

/-- In every state of every run, every process is in one place. -/
theorem reachable_running {b : BootImage} {k : Kernel} (h : Reachable b k) :
    k.toSched.Objects ∧ k.toSched.Running :=
  h.schedInvariant (I := fun s => s.Objects ∧ s.Running) ⟨bootSched_objects, bootSched_running⟩
    fun _ _ _ hinv hstep => ⟨hstep.objects hinv.1, hstep.running hinv.2 hinv.1⟩

/-! ## The places of a process -/

/-- The places where a process can be. -/
inductive Place
  | running
  | queued (q : Queue)
deriving DecidableEq, Repr

/-- The process is suspended in `KernelWait`. -/
def KernelContext.isKernelWait : KernelContext → Bool
  | .kernelWait _ => true
  | _ => false

/-- The process is blocked in `KernelWait` with `waiting_on_children` set. -/
def Sched.blockedInWait (s : Sched) (p : Pid) : Bool :=
  ((s.pcb p).map fun a => a.waitingOnChildren && a.kernelContext.isKernelWait).getD false

/-- How often a process is in a place. -/
def Sched.occurrences (s : Sched) : Place → Pid → Nat
  | .running, p => if p = s.currentProc then 1 else 0
  | .queued .wait, p => if s.blockedInWait p then 1 else 0
  | .queued q, p => s.occ q p

theorem Sched.Settled.occurrences_queued {s : Sched} (h : s.Running) (q : Queue) (p : Pid) :
    s.occurrences (.queued q) p = s.occ q p := by
  cases q with
  | wait =>
      suffices heq : s.blockedInWait p = ((s.pcb p).map PCB.waitingOnChildren).getD false by
        simp only [occurrences, occ, heq]
      cases hp : s.pcb p with
      | none => simp [blockedInWait, hp]
      | some a =>
          cases hw : a.waitingOnChildren with
          | false => simp [blockedInWait, hp, hw]
          | true =>
              -- A process with the flag set is suspended in `KernelWait`.
              have hocc : s.occ .wait p ≠ 0 := by simp [occ, hp, hw]
              have hcur : p ≠ s.currentProc := by
                rintro rfl
                exact hocc (h.placed.nowhere (fun hi => (hi.2.2.resolve_left id) rfl) .wait)
              obtain ⟨a', ha', statusPtr, hctx⟩ := h.suspended .wait p (by simp) hocc hcur
              rw [hp] at ha'
              cases ha'
              simp [blockedInWait, hp, hw, hctx, KernelContext.isKernelWait]
  | _ => rfl

/-- No process is lost or duplicated by the scheduler: whenever a user process or idle is
about to run, every live process other than idle is in exactly one place, once, and idle
and processes that have exited are in no queue. -/
theorem process_in_one_place {b : BootImage} {k : Kernel} (h : Reachable b k) (p : Pid) :
    (k.live p → p ≠ IDLE_PID → ∃ place, k.occurrences place p = 1 ∧
      ∀ place', place' ≠ place → k.occurrences place' p = 0) ∧
    (¬ k.live p ∨ p = IDLE_PID → ∀ q, k.occurrences (.queued q) p = 0) ∧
    (¬ k.live p → k.currentProc ≠ p) := by
  obtain ⟨-, hrun⟩ := reachable_running h
  have hlive := hrun.current.resolve_left id
  refine ⟨fun hp hidle => ?_, fun hp q => ?_, fun hp hcur => hp (hcur ▸ hlive)⟩
  · by_cases hcur : p = k.currentProc
    · refine ⟨.running, if_pos hcur, fun place' hne => ?_⟩
      cases place' with
      | running => exact absurd rfl hne
      | queued q =>
          rw [hrun.occurrences_queued]
          exact hrun.placed.nowhere (fun hi => (hi.2.2.resolve_left id) hcur) q
    · obtain ⟨q, hone, hzero⟩ := hrun.placed.once ⟨hp, hidle, .inr hcur⟩
      refine ⟨.queued q, (hrun.occurrences_queued q p).trans hone, fun place' hne => ?_⟩
      cases place' with
      | running => exact if_neg hcur
      | queued q' =>
          rw [hrun.occurrences_queued]
          exact hzero q' fun e => hne (e ▸ rfl)
  · rw [hrun.occurrences_queued]
    refine hrun.placed.nowhere (fun hi => ?_) q
    rcases hp with hp | hp
    · exact hp hi.1
    · exact hi.2.1 hp

/-- The parent is ready while its first child runs. -/
theorem process_in_one_place_fork :
    ∃ k, Kernel.run smallImage (initRuns ++ [systemCall YALNIX_FORK 0 0 0]) = some k ∧
      k.live INIT_PID ∧ ∃ place, k.occurrences place INIT_PID = 1 ∧
        ∀ place', place' ≠ place → k.occurrences place' INIT_PID = 0 := by
  have hsome : ((Kernel.run smallImage (initRuns ++ [systemCall YALNIX_FORK 0 0 0])).map
      fun k => k.live INIT_PID) = some true := by decide +kernel
  obtain ⟨k, hrun, hlive⟩ := Option.map_eq_some_iff.mp hsome
  exact ⟨k, hrun, hlive, (process_in_one_place (.of_run hrun) INIT_PID).1 hlive (by decide)⟩

end Theynix
