import Theynix.Lib.Family
import Theynix.Footprint

/-!
# `Theynix.Family`: parents, children and exit statuses

The links between processes are kept in three places: `live_parent`, `live_children` and
`zombie_children`. `FamilyInv` says that they agree, and that they are a run of
`Lib.Family`: the events of fork, exit and wait, and what they do to who lives, who is whose
parent and which statuses are left.

* `FamilyInv.lives`: what neither suspends processes nor touches their families keeps it.
* `FamilyInv.addChild`, `FamilyInv.leaveFamily`, `FamilyInv.collect` and `FamilyInv.wait` are
  the four operations on families.
-/

set_option autoImplicit false

namespace Theynix

open Theynix.Lib (bind_eq_ok ite_eq_ok FamilyEvent)

/-- What an event means to the families. -/
def Obs.familyEvent : Obs → Option (FamilyEvent Pid Int)
  | .forked parent child => some (.fork parent child)
  | .exited proc status => some (.exit proc status)
  | .waited parent child status => some (.wait parent child status)
  | _ => none

/-- The fields of a PCB that are about parents and children. -/
def PCB.kin (a : PCB) : (Option Pid × List Pid × List Pid) × Bool × Int :=
  ((a.liveParent, a.liveChildren, a.zombieChildren), a.waitingOnChildren, a.exitStatus)

namespace Sched

/-! ## Families -/

/-- What has happened to the families, oldest first. -/
def familyEvents (s : Sched) : List (FamilyEvent Pid Int) := s.history.filterMap Obs.familyEvent

/-- `live_parent` of a process. -/
def parent (s : Sched) (p : Pid) : Option Pid := (s.pcb p).bind PCB.liveParent

/-- `live_children` of a process. -/
def children (s : Sched) (p : Pid) : List Pid := ((s.pcb p).map PCB.liveChildren).getD []

/-- `zombie_children` of a process. -/
def zombies (s : Sched) (p : Pid) : List Pid := ((s.pcb p).map PCB.zombieChildren).getD []

/-- `exit_status` of a process. -/
def exitStatus (s : Sched) (p : Pid) : Int := ((s.pcb p).map PCB.exitStatus).getD 0

/-- `waiting_on_children` of a process. -/
def waits (s : Sched) (p : Pid) : Bool := ((s.pcb p).map PCB.waitingOnChildren).getD false

/-- The process is suspended in `KernelWait`. -/
def inKernelWait (s : Sched) (p : Pid) : Prop :=
  ∃ a statusPtr, s.pcb p = some a ∧ a.kernelContext = .kernelWait statusPtr

/-- The families of the processes. -/
def family (s : Sched) : Lib.Family Pid Int where
  alive := {p | s.live p}
  parent := s.parent
  zombies p := (s.zombies p).map fun c => (c, s.exitStatus c)

/-- Idle and init have no parent. -/
def founders : Set Pid := {p | p < 2}

/-- The links agree with each other and with the past. A process that waits for a child has
one, and no zombie; one that has been woken in `KernelWait` has a zombie. -/
structure FamilyInv (s : Sched) : Prop where
  run : Lib.Family.Runs founders s.familyEvents s.family
  children : ∀ p c, c ∈ s.children p ↔ s.live c ∧ s.parent c = some p
  childrenNodup : ∀ p, (s.children p).Nodup
  zombies : ∀ p c, c ∈ s.zombies p ↔ s.exited c ∧ s.parent c = some p
  waiting : ∀ p, s.waits p → s.zombies p = [] ∧ s.children p ≠ []
  woken : ∀ p, s.inKernelWait p → s.live p → p ≠ s.currentProc ∨ s.mode = .kernel →
    s.waits p ∨ s.zombies p ≠ []
  forkedLt : ∀ p c, .fork p c ∈ s.familyEvents → c < s.nextPid
  nextPid : 2 ≤ s.nextPid

/-! ## Steps that leave the families alone -/

/-- The families are the same. -/
structure SameKin (s s' : Sched) : Prop where
  kin : ∀ p, (s'.pcb p).map PCB.kin = (s.pcb p).map PCB.kin
  events : s'.familyEvents = s.familyEvents
  nextPid : s.nextPid ≤ s'.nextPid

namespace SameKin

variable {s s₁ s₂ : Sched}

theorem refl (s : Sched) : SameKin s s := ⟨fun _ => rfl, rfl, Nat.le_refl _⟩

theorem trans (h : SameKin s s₁) (h' : SameKin s₁ s₂) : SameKin s s₂ :=
  ⟨fun p => (h'.kin p).trans (h.kin p), h'.events.trans h.events, h.nextPid.trans h'.nextPid⟩

/-- A change outside the PCBs, the past and the pids. -/
theorem keep (h : SameKin s s₁)
    (heq : (s₂.pcb, s₂.history, s₂.nextPid) = (s₁.pcb, s₁.history, s₁.nextPid)) :
    SameKin s s₂ := by
  simp only [Prod.mk.injEq] at heq
  obtain ⟨hpcb, hhistory, hnext⟩ := heq
  exact h.trans ⟨fun _ => by rw [hpcb], by rw [familyEvents, hhistory, familyEvents], hnext.ge⟩

/-- A PCB is changed, but not its family. -/
theorem updPcb (h : SameKin s s₁) {r : Pid} {f : PCB → PCB}
    (hf : ∀ a, (f a).kin = a.kin) : SameKin s (s₁.updPcb r f) := by
  refine h.trans ⟨fun p => ?_, rfl, Nat.le_refl _⟩
  rw [updPcb_pcb, Option.map_map]
  refine Option.map_congr fun a _ => ?_
  by_cases hp : p = r <;> simp [hp, hf]

theorem observe (h : SameKin s s₁) {o : Obs} (ho : o.familyEvent = none) :
    SameKin s (s₁.observe o) :=
  h.trans ⟨fun _ => rfl, by simp [familyEvents, Sched.observe, ho], Nat.le_refl _⟩

theorem ready (h : SameKin s s₁) (p : Pid) : SameKin s (s₁.ready p) := h.keep rfl

theorem updTty (h : SameKin s s₁) (t : Nat) (f : Tty → Tty) : SameKin s (s₁.updTty t f) :=
  h.keep rfl

theorem updLock (h : SameKin s s₁) (i : Nat) (f : Lock → Lock) : SameKin s (s₁.updLock i f) :=
  h.keep rfl

theorem updCvar (h : SameKin s s₁) (i : Nat) (f : CVar → CVar) : SameKin s (s₁.updCvar i f) :=
  h.keep rfl

theorem updPipe (h : SameKin s s₁) (i : Nat) (f : Pipe → Pipe) : SameKin s (s₁.updPipe i f) :=
  h.keep rfl

theorem switchToProc (h : SameKin s s₁) (next : Pid) (c : KernelContext) :
    SameKin s (s₁.switchToProc next c) := by
  unfold Sched.switchToProc
  dsimp only
  split
  · exact ((h.updPcb (by intro; rfl) (r := s₁.currentProc)).updPcb (by intro; rfl) (r := next)).keep rfl
  · exact (h.updPcb (by intro; rfl) (r := s₁.currentProc)).keep rfl

theorem switchToNextProc (h : SameKin s s₁) (c : KernelContext) :
    SameKin s (s₁.switchToNextProc c) := by
  unfold Sched.switchToNextProc
  split
  · refine SameKin.switchToProc ?_ _ c
    exact h.keep rfl
  · exact h.switchToProc _ c

theorem isSome (h : SameKin s s₁) (p : Pid) : (s₁.pcb p).isSome = (s.pcb p).isSome := by
  have hp := congrArg Option.isSome (h.kin p)
  rwa [Option.isSome_map, Option.isSome_map] at hp

theorem parent (h : SameKin s s₁) (p : Pid) : s₁.parent p = s.parent p := by
  have hp := congrArg (·.bind fun x => x.1.1) (h.kin p)
  simp only [Option.bind_map, Function.comp_def] at hp
  exact hp

theorem children (h : SameKin s s₁) (p : Pid) : s₁.children p = s.children p := by
  have hp := congrArg (fun x => (x.map fun x => x.1.2.1).getD []) (h.kin p)
  simp only [Option.map_map, Function.comp_def] at hp
  exact hp

theorem zombies (h : SameKin s s₁) (p : Pid) : s₁.zombies p = s.zombies p := by
  have hp := congrArg (fun x => (x.map fun x => x.1.2.2).getD []) (h.kin p)
  simp only [Option.map_map, Function.comp_def] at hp
  exact hp

theorem waits (h : SameKin s s₁) (p : Pid) : s₁.waits p = s.waits p := by
  have hp := congrArg (fun x => (x.map fun x => x.2.1).getD false) (h.kin p)
  simp only [Option.map_map, Function.comp_def] at hp
  exact hp

theorem exitStatus (h : SameKin s s₁) (p : Pid) : s₁.exitStatus p = s.exitStatus p := by
  have hp := congrArg (fun x => (x.map fun x => x.2.2).getD 0) (h.kin p)
  simp only [Option.map_map, Function.comp_def] at hp
  exact hp

end SameKin

section
variable {s s' : Sched}

/-- Who has exited is one of the events of the families. -/
theorem exited_iff {p : Pid} : s.exited p ↔ ∃ status, .exit p status ∈ s.familyEvents := by
  constructor
  · intro h
    obtain ⟨o, ho, hexit⟩ := List.any_eq_true.mp h
    cases o with
    | exited q status =>
        cases beq_iff_eq.mp hexit
        exact ⟨status, List.mem_filterMap.mpr ⟨_, ho, rfl⟩⟩
    | _ => cases hexit
  · rintro ⟨status, h⟩
    obtain ⟨o, ho, heq⟩ := List.mem_filterMap.mp h
    cases o with
    | exited q st =>
        cases heq
        exact List.any_eq_true.mpr ⟨_, ho, beq_self_eq_true _⟩
    | _ => cases heq

theorem SameKin.exited (h : SameKin s s') (p : Pid) : s'.exited p = s.exited p := by
  have hiff : s'.exited p ↔ s.exited p := by rw [exited_iff, exited_iff, h.events]
  exact Bool.eq_iff_iff.mpr hiff

theorem SameKin.live (h : SameKin s s') (p : Pid) : s'.live p = s.live p := by
  rw [Sched.live, Sched.live, h.exited, h.isSome]

theorem SameKin.family (h : SameKin s s') : s'.family = s.family := by
  have hparent : s'.parent = s.parent := funext h.parent
  have hstatus : s'.exitStatus = s.exitStatus := funext h.exitStatus
  simp only [Sched.family, h.live, hparent, h.zombies, hstatus]

/-- The families stay as they are. Who is suspended in `KernelWait` was so before, or is
waiting. -/
theorem FamilyInv.same (h : s.FamilyInv) (hk : SameKin s s')
    (hwoken : ∀ p, s'.inKernelWait p → s'.live p → p ≠ s'.currentProc ∨ s'.mode = .kernel →
      s.inKernelWait p ∧ (p ≠ s.currentProc ∨ s.mode = .kernel) ∨ s'.waits p) :
    s'.FamilyInv where
  run := by
    rw [hk.events, hk.family]
    exact h.run
  children p c := by
    rw [hk.children, hk.live, hk.parent]
    exact h.children p c
  childrenNodup p := by
    rw [hk.children]
    exact h.childrenNodup p
  zombies p c := by
    rw [hk.zombies, hk.exited, hk.parent]
    exact h.zombies p c
  waiting p hp := by
    rw [hk.waits] at hp
    rw [hk.zombies, hk.children]
    exact h.waiting p hp
  woken p hwait hlive hp := by
    rcases hwoken p hwait hlive hp with ⟨hbefore, hp'⟩ | hwaits
    · rw [hk.waits, hk.zombies]
      exact h.woken p hbefore (by rwa [← hk.live]) hp'
    · exact .inl hwaits
  forkedLt p c hc := Nat.lt_of_lt_of_le (h.forkedLt p c (hk.events ▸ hc)) hk.nextPid
  nextPid := h.nextPid.trans hk.nextPid

/-- No process has been suspended or resumed. -/
theorem FamilyInv.lives (h : s.FamilyInv) (hl : SameLives s s') (hk : SameKin s s') :
    s'.FamilyInv := by
  refine h.same hk fun p hwait _ hp => .inl ⟨?_, ?_⟩
  · obtain ⟨a', statusPtr, ha', hctx'⟩ := hwait
    obtain ⟨a, ha, -, hctx⟩ := hl.pcb_some ha'
    exact ⟨a, statusPtr, ha, hctx.trans hctx'⟩
  · rw [hl.currentProc] at hp
    refine hp.imp_right fun hkernel => ?_
    cases hmode : s.mode with
    | kernel => rfl
    | user => exact absurd (hl.mode hmode) (by rw [hkernel]; decide)

/-- The kernel returns to user mode. -/
theorem FamilyInv.toUser (h : s.FamilyInv) : s.toUser.FamilyInv :=
  h.lives (SameLives.refl s).toUser ((SameKin.refl s).keep rfl)

/-! ## Switching -/

/-- `SwitchToProc`, in a context other than `KernelWait`, or for a process that waits. -/
theorem FamilyInv.switchToProc (h : s.FamilyInv) {next : Pid} {c : KernelContext}
    (hc : ∀ statusPtr, c = .kernelWait statusPtr → s.waits s.currentProc ∧
      ∀ a, s.pcb next = some a → a.kernelContextInitialized = true) :
    (s.switchToProc next c).FamilyInv := by
  have hk : SameKin s (s.switchToProc next c) := (SameKin.refl s).switchToProc next c
  refine h.same hk fun p hwait _ _ => ?_
  obtain ⟨a', statusPtr, ha', hctx'⟩ := hwait
  rw [switchToProc_pcb] at ha'
  obtain ⟨a, ha, rfl⟩ := Option.map_eq_some_iff.mp ha'
  dsimp only at hctx'
  split at hctx'
  · rename_i hp
    obtain ⟨hwaits, hinit⟩ := hc statusPtr hctx'
    rcases hp with rfl | ⟨rfl, hnot⟩
    · exact .inr (by rwa [hk.waits])
    · simp [hinit a ha] at hnot
  · rename_i hp
    rw [not_or] at hp
    exact .inl ⟨⟨a, statusPtr, ha, hctx'⟩, .inl hp.1⟩

/-- `SwitchToNextProc`, in a context other than `KernelWait`. -/
theorem FamilyInv.switchToNextProc (h : s.FamilyInv) {c : KernelContext}
    (hc : ∀ statusPtr, c ≠ .kernelWait statusPtr) : (s.switchToNextProc c).FamilyInv := by
  have hrest : ∀ rest, ({ s with readyQueue := rest } : Sched).FamilyInv := fun rest =>
    h.same ((SameKin.refl s).keep rfl) fun p hwait _ hp => .inl ⟨hwait, hp⟩
  unfold Sched.switchToNextProc
  split
  · exact (hrest _).switchToProc fun statusPtr hctx => absurd hctx (hc statusPtr)
  · exact h.switchToProc fun statusPtr hctx => absurd hctx (hc statusPtr)

/-- `KernelWait` blocks: the running process waits for a child. -/
theorem FamilyInv.wait (h : s.FamilyInv) (hrun : s.Running) (hcur : s.currentProc ≠ IDLE_PID)
    {pcb : PCB} {statusPtr : Nat} (current : s.pcb s.currentProc = some pcb)
    (hzombies : pcb.zombieChildren = []) (hchildren : pcb.liveChildren ≠ []) :
    ((s.updCurrent fun p => { p with waitingOnChildren := true }).switchToNextProc
      (.kernelWait statusPtr)).FamilyInv := by
  have hlive := hrun.current.resolve_left id
  generalize hs₁ : (s.updCurrent fun p => { p with waitingOnChildren := true }) = s₁
  have hpcb : ∀ p, s₁.pcb p = (s.pcb p).map fun a =>
      if p = s.currentProc then { a with waitingOnChildren := true } else a := by
    intro p
    rw [← hs₁, updCurrent, updPcb_pcb]
  have hexited : ∀ p, s₁.exited p = s.exited p := fun p => hs₁ ▸ rfl
  have hwaits : ∀ p, s₁.waits p = (s.waits p || p == s.currentProc) := by
    intro p
    by_cases hp : p = s.currentProc
    · simp [Sched.waits, hpcb, hp, current]
    · cases hq : s.pcb p <;> simp [Sched.waits, hpcb, hp, hq]
  have hparent : ∀ p, s₁.parent p = s.parent p := by
    intro p
    rw [Sched.parent, hpcb, Sched.parent]
    cases s.pcb p with
    | none => rfl
    | some a => by_cases hp : p = s.currentProc <;> simp [hp]
  have hlists : ∀ p, s₁.children p = s.children p ∧ s₁.zombies p = s.zombies p ∧
      s₁.exitStatus p = s.exitStatus p ∧ s₁.live p = s.live p := by
    intro p
    simp only [Sched.children, Sched.zombies, Sched.exitStatus, Sched.live, hpcb, hexited]
    cases s.pcb p with
    | none => exact ⟨rfl, rfl, rfl, rfl⟩
    | some a => by_cases hp : p = s.currentProc <;> simp [hp]
  have hfamily : s₁.family = s.family := by
    simp only [family, funext hparent, (hlists _).2.1, (hlists _).2.2.1, (hlists _).2.2.2]
  have h₁ : s₁.FamilyInv := {
    run := by
      rw [hfamily, ← hs₁]
      exact h.run
    children := fun p c => by
      rw [(hlists p).1, (hlists c).2.2.2, hparent]
      exact h.children p c
    childrenNodup := fun p => by
      rw [(hlists p).1]
      exact h.childrenNodup p
    zombies := fun p c => by
      rw [(hlists p).2.1, hexited, hparent]
      exact h.zombies p c
    waiting := fun p hp => by
      rw [(hlists p).1, (hlists p).2.1]
      rw [hwaits, Bool.or_eq_true, beq_iff_eq] at hp
      rcases hp with hp | rfl
      · exact h.waiting p hp
      · simp only [Sched.zombies, Sched.children, current, Option.map_some, Option.getD_some]
        exact ⟨hzombies, hchildren⟩
    woken := fun p hwait hp hcurrent => by
      rw [hwaits, (hlists p).2.1, Bool.or_eq_true]
      have hbefore : s.inKernelWait p := by
        obtain ⟨a', sp, ha', hctx⟩ := hwait
        rw [hpcb] at ha'
        obtain ⟨a, ha, rfl⟩ := Option.map_eq_some_iff.mp ha'
        refine ⟨a, sp, ha, ?_⟩
        split at hctx
        · exact hctx
        · exact hctx
      rw [(hlists p).2.2.2] at hp
      rw [← hs₁] at hcurrent
      exact (h.woken p hbefore hp hcurrent).imp_left .inl
    forkedLt := fun p c hc => by
      rw [← hs₁] at hc ⊢
      exact h.forkedLt p c hc
    nextPid := by
      rw [← hs₁]
      exact h.nextPid }
  -- Every process has run before: only idle starts one for the first time.
  have hinit : ∀ p a, s₁.pcb p = some a → a.kernelContextInitialized = true := by
    intro p a' ha'
    rw [hpcb] at ha'
    obtain ⟨a, ha, rfl⟩ := Option.map_eq_some_iff.mp ha'
    have hinit : a.kernelContextInitialized = true := by
      by_contra hnot
      exact hcur (hrun.started p a ha (Bool.not_eq_true _ ▸ hnot)).1
    split
    · exact hinit
    · exact hinit
  have hcurrent : s₁.waits s₁.currentProc := by
    rw [hwaits, ← hs₁]
    simp [updCurrent, updPcb]
  unfold Sched.switchToNextProc
  split
  · rename_i next rest _
    have hrest : ({ s₁ with readyQueue := rest } : Sched).FamilyInv :=
      h₁.same ((SameKin.refl s₁).keep rfl) fun p hwait _ hp => .inl ⟨hwait, hp⟩
    exact hrest.switchToProc fun _ _ => ⟨hcurrent, hinit next⟩
  · exact h₁.switchToProc fun _ _ => ⟨hcurrent, hinit IDLE_PID⟩

/-! ## Fork -/

/-- The PCBs after a fork. -/
theorem addChild_pcb {c : Pid} (hc : c ≠ s.currentProc) (p : Pid) :
    (s.addChild c).pcb p =
      if p = c then some { liveParent := some s.currentProc }
      else (s.pcb p).map fun a =>
        if p = s.currentProc then { a with liveChildren := a.liveChildren ++ [c] } else a := by
  show (({ s with
    pcb := fun q => if q = c then some { liveParent := some s.currentProc } else s.pcb q } :
      Sched).updPcb s.currentProc fun p => { p with liveChildren := p.liveChildren ++ [c] }).pcb p = _
  rw [updPcb_pcb]
  by_cases hp : p = c
  · subst hp
    simp [hc]
  · simp [hp]

/-- `KernelFork` gives the running process a child with a new pid. -/
theorem FamilyInv.addChild (h : s.FamilyInv) {c : Pid} (hnew : s.nextPid = c + 1)
    (hnone : s.pcb c = none) (hexited : ¬ s.exited c) (hlive : s.live s.currentProc)
    (hforked : ∀ p, .fork p c ∉ s.familyEvents) (hfirst : 2 ≤ c)
    (hchild : ∀ p, c ∉ s.zombies p) : (s.addChild c).FamilyInv := by
  have hc : c ≠ s.currentProc := by
    rintro rfl
    simp [Sched.live, hnone] at hlive
  have hpcb := addChild_pcb (s := s) hc
  obtain ⟨a₀, ha₀⟩ := Option.isSome_iff_exists.mp (Bool.and_eq_true _ _ ▸ hlive).1
  have hevents : (s.addChild c).familyEvents = s.familyEvents ++ [.fork s.currentProc c] := by
    simp [familyEvents, Sched.addChild, observe, updCurrent, updPcb, Obs.familyEvent]
  have hexit : ∀ p, (s.addChild c).exited p = s.exited p := fun p => exited_addChild
  have hlives : ∀ p, (s.addChild c).live p ↔ p = c ∨ s.live p := by
    intro p
    simp only [Sched.live, hpcb, hexit, Bool.and_eq_true, Bool.not_eq_true']
    by_cases hp : p = c
    · simp [hp, hexited]
    · simp [hp]
  -- The fields that the relation is read from: the parent of the child, and the list it joins.
  have hparent : ∀ p, (s.addChild c).parent p = if p = c then some s.currentProc else s.parent p := by
    intro p
    rw [Sched.parent, hpcb, Sched.parent]
    by_cases hp : p = c
    · simp [hp]
    · cases hsp : s.pcb p with
      | none => simp [hp]
      | some a => by_cases hpc : p = s.currentProc <;> simp [hp, hpc, hc.symm]
  have hold : ∀ p, (s.addChild c).zombies p = s.zombies p ∧
      (s.addChild c).exitStatus p = s.exitStatus p ∧ (s.addChild c).waits p = s.waits p := by
    intro p
    simp only [Sched.zombies, Sched.exitStatus, Sched.waits, hpcb]
    by_cases hp : p = c
    · simp [hp, hnone]
    · cases hsp : s.pcb p with
      | none => simp [hp]
      | some a => by_cases hpc : p = s.currentProc <;> simp [hp, hpc, hc.symm]
  have hchildren : ∀ p, (s.addChild c).children p =
      if p = s.currentProc then s.children p ++ [c] else s.children p := by
    intro p
    simp only [Sched.children, hpcb]
    by_cases hp : p = c
    · simp [hp, hnone, hc]
    · by_cases hpc : p = s.currentProc
      · simp [hpc, hc.symm, ha₀]
      · simp [hp, hpc]
  have hnotChild : ∀ p, c ∉ s.children p := by
    intro p hmem
    have hlive' := ((h.children p c).mp hmem).1
    simp [Sched.live, hnone] at hlive'
  refine ⟨?_, fun p d => ?_, fun p => ?_, fun p d => ?_, fun p hp => ?_, fun p hwait hp hcur => ?_,
    fun p d hd => ?_, h.nextPid⟩
  · have hfamily : (s.addChild c).family = s.family.fork s.currentProc c := by
      have halive : ({p | (s.addChild c).live p} : Set Pid) = insert c {p | s.live p} :=
        Set.ext hlives
      simp only [family, Lib.Family.fork, halive, funext hparent, (hold _).1, (hold _).2.1]
    rw [hevents, hfamily]
    exact .fork h.run hlive (Nat.not_lt.mpr hfirst) hforked
  · rw [hchildren, hlives, hparent]
    by_cases hd : d = c
    · subst hd
      by_cases hp : p = s.currentProc
      · simp [hp]
      · have hp' : ¬ s.currentProc = p := fun e => hp e.symm
        simp [hp, hp', hnotChild p]
    · by_cases hp : p = s.currentProc
      · simp [hp, hd, h.children]
      · simp [hp, hd, h.children]
  · rw [hchildren]
    split
    · refine List.nodup_append.mpr ⟨h.childrenNodup p, by simp, fun x hx y hy => ?_⟩
      rw [List.mem_singleton.mp hy]
      exact ne_of_mem_of_not_mem hx (hnotChild p)
    · exact h.childrenNodup p
  · rw [(hold p).1, hexit, hparent]
    by_cases hd : d = c
    · subst hd
      simp [hchild p, hexited]
    · rw [if_neg hd]
      exact h.zombies p d
  · rw [(hold p).2.2] at hp
    obtain ⟨hz, hch⟩ := h.waiting p hp
    rw [(hold p).1, hchildren]
    refine ⟨hz, ?_⟩
    split
    · simp
    · exact hch
  · rw [(hold p).1, (hold p).2.2]
    -- The child has not called anything yet.
    have hpc : p ≠ c := by
      rintro rfl
      obtain ⟨a', sp, ha', hctx⟩ := hwait
      rw [hpcb, if_pos rfl] at ha'
      cases ha'
      cases hctx
    refine h.woken p ?_ (((hlives p).mp hp).resolve_left hpc) hcur
    obtain ⟨a', sp, ha', hctx⟩ := hwait
    rw [hpcb, if_neg hpc] at ha'
    obtain ⟨a, ha, rfl⟩ := Option.map_eq_some_iff.mp ha'
    refine ⟨a, sp, ha, ?_⟩
    split at hctx
    · exact hctx
    · exact hctx
  · rw [hevents] at hd
    rcases List.mem_append.mp hd with hd | hd
    · exact h.forkedLt p d hd
    · cases List.mem_singleton.mp hd
      exact Nat.lt_of_lt_of_eq (Nat.lt_succ_self _) hnew.symm

/-! ## Exit -/

/-- The PCB of another process, after a process with the PCB `pcb` has exited. -/
def afterExitOf (exiting : Pid) (pcb : PCB) (p : Pid) (a : PCB) : PCB :=
  let a := if p ∈ pcb.liveChildren then { a with liveParent := none } else a
  if pcb.liveParent = some p then
    { a with
      liveChildren := a.liveChildren.erase exiting
      zombieChildren := a.zombieChildren ++ [exiting]
      waitingOnChildren := false }
  else a

/-- The PCBs after an exit. -/
theorem leaveFamily_pcb {pcb : PCB} (status : Int) (hpcb : s.pcb s.currentProc = some pcb)
    (hzombie : s.currentProc ∉ pcb.zombieChildren) (hchild : s.currentProc ∉ pcb.liveChildren)
    (hparent : pcb.liveParent ≠ some s.currentProc) (p : Pid) :
    (s.leaveFamily status).pcb p =
      if p = s.currentProc then pcb.liveParent.map fun _ =>
        { pcb with liveChildren := [], zombieChildren := [], exitStatus := status }
      else if p ∈ pcb.zombieChildren then none
      else (s.pcb p).map (afterExitOf s.currentProc pcb p) := by
  -- The children first, which is the same with and without a parent.
  have habandon : ∀ q, ((s.abandonChildren pcb).updCurrent fun p =>
      { p with liveChildren := [], zombieChildren := [], exitStatus := status }).pcb q =
      if q = s.currentProc then
        some { pcb with liveChildren := [], zombieChildren := [], exitStatus := status }
      else if q ∈ pcb.zombieChildren then none
      else (s.pcb q).map fun a => if q ∈ pcb.liveChildren then { a with liveParent := none } else a := by
    intro q
    have hcur : (s.abandonChildren pcb).currentProc = s.currentProc := rfl
    rw [updCurrent, updPcb_pcb, hcur]
    simp only [abandonChildren]
    by_cases hq : q = s.currentProc
    · simp [hq, hzombie, hchild, hpcb]
    · by_cases hqz : q ∈ pcb.zombieChildren
      · simp [hq, hqz]
      · by_cases hqc : q ∈ pcb.liveChildren <;> simp [hq, hqz, hqc, Function.comp_def]
  unfold leaveFamily
  rw [hpcb]
  dsimp only
  generalize hs₂ : ((s.abandonChildren pcb).updCurrent fun p =>
    { p with liveChildren := [], zombieChildren := [], exitStatus := status }) = s₂ at habandon
  have hcur₂ : s₂.currentProc = s.currentProc := by
    rw [← hs₂]
    rfl
  cases hlp : pcb.liveParent with
  | none =>
      simp only [freePcb, observe, hcur₂, habandon, Option.map_none]
      by_cases hp : p = s.currentProc
      · simp [hp]
      · simp only [if_neg hp]
        have hafter : afterExitOf s.currentProc pcb p = fun a =>
            if p ∈ pcb.liveChildren then { a with liveParent := none } else a := by
          funext a
          simp [afterExitOf, hlp]
        rw [hafter]
  | some parent =>
      have hne : s.currentProc ≠ parent := fun e => hparent (e ▸ hlp)
      have hzombie : ∀ s₃ : Sched, (s₃.becomeZombie parent).pcb p =
          (s₃.pcb p).map fun a =>
            if p = parent then { a with
              liveChildren := a.liveChildren.erase s₃.currentProc
              zombieChildren := a.zombieChildren ++ [s₃.currentProc]
              waitingOnChildren := false } else a := by
        intro s₃
        unfold becomeZombie
        dsimp only
        split
        · exact updPcb_pcb _ _ _ _
        · exact updPcb_pcb _ _ _ _
      simp only [hzombie, observe, hcur₂, habandon, Option.map_some]
      by_cases hp : p = s.currentProc
      · simp [hp, hne, hlp]
      · simp only [if_neg hp]
        by_cases hpz : p ∈ pcb.zombieChildren
        · simp [hpz]
        · simp only [if_neg hpz, Option.map_map]
          refine Option.map_congr fun a _ => ?_
          by_cases hpp : p = parent
          · simp [afterExitOf, hlp, hpp]
          · have hpp' : ¬ parent = p := fun e => hpp e.symm
            simp [afterExitOf, hlp, hpp, hpp']

/-- What an exit leaves alone, and what it records. -/
theorem leaveFamily_frame (status : Int) (hpcb : (s.pcb s.currentProc).isSome) :
    (s.leaveFamily status).history = s.history ++ [.exited s.currentProc status] ∧
      (s.leaveFamily status).currentProc = s.currentProc ∧
      (s.leaveFamily status).mode = s.mode ∧ (s.leaveFamily status).nextPid = s.nextPid := by
  obtain ⟨pcb, hpcb⟩ := Option.isSome_iff_exists.mp hpcb
  unfold leaveFamily
  rw [hpcb]
  dsimp only
  split
  · exact ⟨rfl, rfl, rfl, rfl⟩
  · unfold becomeZombie
    dsimp only
    split
    · exact ⟨rfl, rfl, rfl, rfl⟩
    · exact ⟨rfl, rfl, rfl, rfl⟩

/-- What the exit of the running process changes: it is not alive any more and has no
children, its children have no parent, and its parent has a zombie instead of a child. -/
structure LeavesFamily (s : Sched) (status : Int) (s' : Sched) : Prop where
  events : s'.familyEvents = s.familyEvents ++ [.exit s.currentProc status]
  exited : ∀ p, s'.exited p ↔ s.exited p ∨ p = s.currentProc
  live : ∀ p, s'.live p ↔ s.live p ∧ p ≠ s.currentProc
  parent : ∀ p, s'.parent p = if s.parent p = some s.currentProc then none else s.parent p
  zombies : ∀ p, s'.zombies p =
    if p = s.currentProc then []
    else if s.parent s.currentProc = some p then s.zombies p ++ [s.currentProc]
    else s.zombies p
  children : ∀ p, s'.children p =
    if p = s.currentProc then []
    else if s.parent s.currentProc = some p then (s.children p).erase s.currentProc
    else s.children p
  waits : ∀ p, s'.waits p → s.waits p ∧ p ≠ s.currentProc ∧ s.parent s.currentProc ≠ some p
  stillWaits : ∀ p, s.live p → s.waits p → p ≠ s.currentProc → s.parent s.currentProc ≠ some p →
    s'.waits p
  exitStatus : ∀ p c, p ≠ s.currentProc → s.parent c = some p →
    s'.exitStatus c = if c = s.currentProc then status else s.exitStatus c

theorem FamilyInv.leavesFamily (h : s.FamilyInv) (hlive : s.live s.currentProc)
    (hwaits : s.waits s.currentProc = false) (status : Int) :
    LeavesFamily s status (s.leaveFamily status) := by
  obtain ⟨pcb, hpcb⟩ := Option.isSome_iff_exists.mp (Bool.and_eq_true _ _ ▸ hlive).1
  have hnotExited : ¬ s.exited s.currentProc := by
    simp only [Sched.live, Bool.and_eq_true, Bool.not_eq_true'] at hlive
    simp [hlive.2]
  have hzombies : s.zombies s.currentProc = pcb.zombieChildren := by simp [Sched.zombies, hpcb]
  have hchildren : s.children s.currentProc = pcb.liveChildren := by simp [Sched.children, hpcb]
  have hparentCur : s.parent s.currentProc = pcb.liveParent := by simp [Sched.parent, hpcb]
  have hself : s.parent s.currentProc ≠ some s.currentProc := fun hp =>
    Lib.Family.Runs.parent_ne h.run hp rfl
  have hselfZombie : s.currentProc ∉ pcb.zombieChildren := fun hmem =>
    hnotExited ((h.zombies _ _).mp (hzombies ▸ hmem)).1
  have hselfChild : s.currentProc ∉ pcb.liveChildren := fun hmem =>
    hself ((h.children _ _).mp (hchildren ▸ hmem)).2
  have hpcb' := leaveFamily_pcb status hpcb hselfZombie hselfChild (hparentCur ▸ hself)
  -- The children of the exiting process are those that have it as their parent.
  have hmine : ∀ p, s.parent p = some s.currentProc ↔
      p ∈ pcb.liveChildren ∨ p ∈ pcb.zombieChildren := by
    intro p
    rw [← hchildren, ← hzombies, h.children, h.zombies]
    constructor
    · intro hp
      obtain ⟨a, ha, -⟩ := Option.bind_eq_some_iff.mp hp
      cases hexited : s.exited p with
      | true => exact .inr ⟨rfl, hp⟩
      | false => exact .inl ⟨by simp [Sched.live, ha, hexited], hp⟩
    · rintro (hp | hp)
      · exact hp.2
      · exact hp.2
  have hparentLive : ∀ {p q}, s.parent q = some p → s.live p := fun hp =>
    (Lib.Family.Runs.parent_alive h.run hp).1
  have hzombieDead : ∀ {p}, p ∈ pcb.zombieChildren → ¬ s.live p := by
    intro p hp hl
    have hexited := ((h.zombies _ _).mp (hzombies ▸ hp)).1
    simp [Sched.live, hexited] at hl
  obtain ⟨hhistory, hcur, hmode, hnext⟩ :=
    leaveFamily_frame status (Option.isSome_iff_exists.mpr ⟨pcb, hpcb⟩)
  have hevents : (s.leaveFamily status).familyEvents
      = s.familyEvents ++ [.exit s.currentProc status] := by
    simp [familyEvents, hhistory, Obs.familyEvent]
  have hexited' : ∀ p, (s.leaveFamily status).exited p ↔ s.exited p ∨ p = s.currentProc := by
    intro p
    rw [exited_iff, exited_iff, hevents]
    simp [exists_or]
  have hlive' : ∀ p, (s.leaveFamily status).live p ↔ s.live p ∧ p ≠ s.currentProc := by
    intro p
    have hex := hexited' p
    by_cases hp : p = s.currentProc
    · subst hp
      have hdead := hex.mpr (.inr rfl)
      simp [Sched.live, hdead]
    · rw [or_iff_left hp] at hex
      have hsame : (s.leaveFamily status).exited p = s.exited p := Bool.eq_iff_iff.mpr hex
      by_cases hz : p ∈ pcb.zombieChildren
      · have hdead := hzombieDead hz
        simp only [Sched.live, hpcb', if_neg hp, if_pos hz]
        simp only [Sched.live] at hdead
        simp [hdead]
      · simp [Sched.live, hpcb', hp, hz, hsame]
  -- The fields of the other processes.
  have hparent' : ∀ p, (s.leaveFamily status).parent p =
      if s.parent p = some s.currentProc then none else s.parent p := by
    intro p
    by_cases hp : p = s.currentProc
    · subst hp
      rw [if_neg hself, hparentCur, Sched.parent, hpcb', if_pos rfl]
      cases pcb.liveParent <;> simp
    · by_cases hz : p ∈ pcb.zombieChildren
      · rw [if_pos ((hmine p).mpr (.inr hz)), Sched.parent, hpcb', if_neg hp, if_pos hz]
        rfl
      · by_cases hc : p ∈ pcb.liveChildren
        · rw [if_pos ((hmine p).mpr (.inl hc)), Sched.parent, hpcb', if_neg hp, if_neg hz]
          cases s.pcb p with
          | none => rfl
          | some a => by_cases hlp : pcb.liveParent = some p <;> simp [afterExitOf, hc, hlp]
        · have hnot : s.parent p ≠ some s.currentProc := by
            rw [Ne, hmine]
            exact fun hm => hm.elim hc hz
          rw [if_neg hnot, Sched.parent, hpcb', if_neg hp, if_neg hz, Sched.parent]
          cases s.pcb p with
          | none => rfl
          | some a => by_cases hlp : pcb.liveParent = some p <;> simp [afterExitOf, hc, hlp]
  have hnoZombies : ∀ {p}, p ∈ pcb.zombieChildren → s.zombies p = [] ∧ s.children p = [] := by
    intro p hp
    refine ⟨List.eq_nil_iff_forall_not_mem.mpr fun c hc => ?_,
      List.eq_nil_iff_forall_not_mem.mpr fun c hc => ?_⟩
    · exact hzombieDead hp (hparentLive ((h.zombies p c).mp hc).2)
    · exact hzombieDead hp (hparentLive ((h.children p c).mp hc).2)
  have hzombies' : ∀ p, (s.leaveFamily status).zombies p =
      if p = s.currentProc then []
      else if s.parent s.currentProc = some p then s.zombies p ++ [s.currentProc]
      else s.zombies p := by
    intro p
    rw [hparentCur, Sched.zombies, hpcb']
    by_cases hp : p = s.currentProc
    · rw [if_pos hp, if_pos hp]
      cases pcb.liveParent <;> rfl
    rw [if_neg hp, if_neg hp]
    by_cases hz : p ∈ pcb.zombieChildren
    · rw [if_pos hz, (hnoZombies hz).1, if_neg]
      · rfl
      · exact fun hlp => hzombieDead hz (hparentLive (hparentCur.trans hlp))
    · rw [if_neg hz, Sched.zombies]
      cases hsp : s.pcb p with
      | none =>
          rw [if_neg]
          · rfl
          · intro hlp
            have hl := hparentLive (hparentCur.trans hlp)
            simp [Sched.live, hsp] at hl
      | some a =>
          by_cases hlp : pcb.liveParent = some p <;> by_cases hc : p ∈ pcb.liveChildren <;>
            simp [afterExitOf, hlp, hc]
  have hchildren' : ∀ p, (s.leaveFamily status).children p =
      if p = s.currentProc then []
      else if s.parent s.currentProc = some p then (s.children p).erase s.currentProc
      else s.children p := by
    intro p
    rw [hparentCur, Sched.children, hpcb']
    by_cases hp : p = s.currentProc
    · rw [if_pos hp, if_pos hp]
      cases pcb.liveParent <;> rfl
    rw [if_neg hp, if_neg hp]
    by_cases hz : p ∈ pcb.zombieChildren
    · rw [if_pos hz, (hnoZombies hz).2]
      simp
    · rw [if_neg hz, Sched.children]
      cases hsp : s.pcb p with
      | none => simp
      | some a =>
          by_cases hlp : pcb.liveParent = some p <;> by_cases hc : p ∈ pcb.liveChildren <;>
            simp [afterExitOf, hlp, hc]
  have hwaits' : ∀ p, (s.leaveFamily status).waits p →
      s.waits p ∧ p ≠ s.currentProc ∧ s.parent s.currentProc ≠ some p := by
    intro p
    rw [hparentCur, Sched.waits, hpcb']
    by_cases hp : p = s.currentProc
    · rw [if_pos hp]
      have hflag : pcb.waitingOnChildren = false := by simpa [Sched.waits, hpcb] using hwaits
      cases pcb.liveParent <;> simp [hflag]
    rw [if_neg hp]
    by_cases hz : p ∈ pcb.zombieChildren
    · simp [hz]
    · rw [if_neg hz, Sched.waits]
      cases hsp : s.pcb p with
      | none => simp
      | some a =>
          by_cases hlp : pcb.liveParent = some p <;> by_cases hc : p ∈ pcb.liveChildren <;>
            simp [afterExitOf, hlp, hc, hp]
  have hstatus' : ∀ p c, p ≠ s.currentProc → s.parent c = some p →
      (s.leaveFamily status).exitStatus c =
        if c = s.currentProc then status else s.exitStatus c := by
    intro p c hp hc
    have hnot : c ∉ pcb.zombieChildren := by
      intro hz
      have hmem := (hmine c).mpr (.inr hz)
      exact hp (Option.some.inj (hc.symm.trans hmem))
    rw [Sched.exitStatus, hpcb', if_neg hnot, Sched.exitStatus]
    by_cases hcc : c = s.currentProc
    · subst hcc
      rw [hparentCur] at hc
      simp [hc]
    · rw [if_neg hcc, if_neg hcc]
      cases s.pcb c with
      | none => rfl
      | some a =>
          by_cases hlp : pcb.liveParent = some c <;> by_cases hch : c ∈ pcb.liveChildren <;>
            simp [afterExitOf, hlp, hch]
  have hstill : ∀ p, s.live p → s.waits p → p ≠ s.currentProc →
      s.parent s.currentProc ≠ some p → (s.leaveFamily status).waits p := by
    intro p hl hw hp hlp
    rw [hparentCur] at hlp
    rw [Sched.waits, hpcb', if_neg hp, if_neg fun hz => hzombieDead hz hl]
    rw [Sched.waits] at hw
    cases hsp : s.pcb p with
    | none => simp [hsp] at hw
    | some a => by_cases hc : p ∈ pcb.liveChildren <;> simpa [afterExitOf, hlp, hc, hsp] using hw
  exact ⟨hevents, hexited', hlive', hparent', hzombies', hchildren', hwaits', hstill, hstatus'⟩

/-- `KernelExit` of the running process, when it waits for no child. -/
theorem FamilyInv.leaveFamily (h : s.FamilyInv) (hlive : s.live s.currentProc)
    (hwaits : s.waits s.currentProc = false) (status : Int) :
    (s.leaveFamily status).FamilyInv := by
  have he := h.leavesFamily hlive hwaits status
  have hpcb : (s.pcb s.currentProc).isSome := (Bool.and_eq_true _ _ ▸ hlive).1
  obtain ⟨-, hcur, hmode, hnext⟩ := leaveFamily_frame status hpcb
  have hself : s.parent s.currentProc ≠ some s.currentProc := fun hp =>
    Lib.Family.Runs.parent_ne h.run hp rfl
  have hnotExited : ¬ s.exited s.currentProc := by
    simp only [Sched.live, Bool.and_eq_true, Bool.not_eq_true'] at hlive
    simp [hlive.2]
  -- A parent other than the exiting process keeps its children, but for that process.
  have hparent : ∀ p c, p ≠ s.currentProc →
      ((s.leaveFamily status).parent c = some p ↔ s.parent c = some p) := by
    intro p c hp
    rw [he.parent]
    split
    · rename_i hc
      rw [hc]
      exact ⟨fun e => (by cases e), fun e => absurd (Option.some.inj e).symm hp⟩
    · exact Iff.rfl
  have hnoParent : ∀ c, (s.leaveFamily status).parent c ≠ some s.currentProc := by
    intro c
    rw [he.parent]
    split
    · simp
    · assumption
  refine ⟨?_, fun p c => ?_, fun p => ?_, fun p c => ?_, fun p hp => ?_, fun p hwait hp hcurrent => ?_,
    fun p c hc => ?_, ?_⟩
  · have hfamily : (s.leaveFamily status).family = s.family.exit s.currentProc status := by
      have halive : ({p | (s.leaveFamily status).live p} : Set Pid)
          = {p | s.live p} \ {s.currentProc} := Set.ext he.live
      have hz : (fun p => ((s.leaveFamily status).zombies p).map fun c =>
          (c, (s.leaveFamily status).exitStatus c)) = (s.family.exit s.currentProc status).zombies := by
        funext p
        show _ = if p = s.currentProc then []
          else if s.parent s.currentProc = some p then
            ((s.zombies p).map fun c => (c, s.exitStatus c)) ++ [(s.currentProc, status)]
          else (s.zombies p).map fun c => (c, s.exitStatus c)
        rw [he.zombies]
        by_cases hp : p = s.currentProc
        · rw [if_pos hp, if_pos hp]
          rfl
        · have hsame : (s.zombies p).map (fun c => (c, (s.leaveFamily status).exitStatus c))
              = (s.zombies p).map fun c => (c, s.exitStatus c) := by
            refine List.map_congr_left fun c hc => ?_
            obtain ⟨hex, hpar⟩ := (h.zombies p c).mp hc
            have hne : c ≠ s.currentProc := fun e : c = s.currentProc => hnotExited (e ▸ hex)
            rw [he.exitStatus p c hp hpar, if_neg hne]
          rw [if_neg hp, if_neg hp]
          by_cases hlp : s.parent s.currentProc = some p
          · rw [if_pos hlp, if_pos hlp, List.map_append, hsame, List.map_singleton,
              he.exitStatus p _ hp hlp, if_pos rfl]
          · rw [if_neg hlp, if_neg hlp]
            exact hsame
      simp only [family, hz, halive, funext he.parent]
      rfl
    rw [he.events, hfamily]
    exact .exit status h.run hlive
  · rw [he.children, he.live]
    by_cases hp : p = s.currentProc
    · subst hp
      simp [hnoParent c]
    · rw [if_neg hp, hparent p c hp]
      split
      · rw [(h.childrenNodup p).mem_erase_iff, h.children]
        constructor
        · rintro ⟨hne, hl, hpar⟩
          exact ⟨⟨hl, hne⟩, hpar⟩
        · rintro ⟨⟨hl, hne⟩, hpar⟩
          exact ⟨hne, hl, hpar⟩
      · rename_i hlp
        rw [h.children]
        constructor
        · rintro ⟨hl, hpar⟩
          exact ⟨⟨hl, fun e => hlp (e ▸ hpar)⟩, hpar⟩
        · rintro ⟨⟨hl, _⟩, hpar⟩
          exact ⟨hl, hpar⟩
  · rw [he.children]
    split
    · exact List.nodup_nil
    split
    · exact (h.childrenNodup p).erase _
    · exact h.childrenNodup p
  · rw [he.zombies, he.exited]
    by_cases hp : p = s.currentProc
    · subst hp
      simp [hnoParent c]
    · rw [if_neg hp, hparent p c hp]
      by_cases hc : c = s.currentProc
      · subst hc
        have hnot : s.currentProc ∉ s.zombies p := fun hm => hnotExited ((h.zombies p _).mp hm).1
        split
        · rename_i hlp
          simp [hlp]
        · rename_i hlp
          simp [hlp, hnot]
      · rw [or_iff_left hc, ← h.zombies]
        split
        · simp [hc]
        · rfl
  · obtain ⟨hw, hne, hlp⟩ := he.waits p hp
    rw [he.zombies, he.children, if_neg hne, if_neg hlp, if_neg hne, if_neg hlp]
    exact h.waiting p hw
  · obtain ⟨hl, hne⟩ := (he.live p).mp hp
    rw [he.zombies, if_neg hne]
    by_cases hlp : s.parent s.currentProc = some p
    · rw [if_pos hlp]
      exact .inr (by simp)
    · rw [if_neg hlp]
      obtain ⟨a', sp, ha', hctx⟩ := hwait
      obtain ⟨a, ha, hcore⟩ := leaveFamily_sameCores s status p a' ha'
      have hcontext : a.kernelContext = a'.kernelContext := congrArg (fun c => c.1.2) hcore
      refine (h.woken p ⟨a, sp, ha, hcontext.trans hctx⟩ hl (.inl hne)).imp_left fun hw => ?_
      exact he.stillWaits p hl hw hne hlp
  · rw [he.events] at hc
    rw [hnext]
    rcases List.mem_append.mp hc with hc | hc
    · exact h.forkedLt p c hc
    · cases (List.mem_singleton.mp hc)
  · rw [hnext]
    exact h.nextPid

/-! ## Wait -/

/-- No child is a zombie twice. -/
theorem FamilyInv.zombiesNodup (h : s.FamilyInv) {p : Pid} (hp : s.live p) :
    (s.zombies p).Nodup := by
  have honce := h.run.left_once p
  rw [h.run.delivered hp, List.map_append] at honce
  have hmap : (s.family.zombies p).map Prod.fst = s.zombies p := by
    simp [family, List.map_map, Function.comp_def]
  exact hmap ▸ (List.nodup_append.mp honce).2.1

/-- The first zombie is collected. -/
theorem FamilyInv.collect (h : s.FamilyInv) (hlive : s.live s.currentProc) {pcb childPcb : PCB}
    {child : Pid} {rest : List Pid} (current : s.pcb s.currentProc = some pcb)
    (zombies : pcb.zombieChildren = child :: rest) (zombie : s.pcb child = some childPcb) :
    (((s.updCurrent fun p => { p with zombieChildren := rest }).freePcb child).observe
      (.waited s.currentProc child childPcb.exitStatus)).toUser.FamilyInv := by
  generalize hs' : (((s.updCurrent fun p => { p with zombieChildren := rest }).freePcb
    child).observe (.waited s.currentProc child childPcb.exitStatus)).toUser = s'
  have hcurZombies : s.zombies s.currentProc = child :: rest := by
    simp [Sched.zombies, current, zombies]
  obtain ⟨hexited, hparentChild⟩ := (h.zombies s.currentProc child).mp
    (hcurZombies ▸ List.mem_cons_self)
  have hdead : ¬ s.live child := by simp [Sched.live, hexited]
  have hne : child ≠ s.currentProc := by
    rintro rfl
    exact hdead hlive
  have hpcb : ∀ p, s'.pcb p =
      if p = child then none
      else (s.pcb p).map fun a => if p = s.currentProc then { a with zombieChildren := rest } else a := by
    intro p
    rw [← hs']
    simp only [Sched.toUser, observe, freePcb, updCurrent, updPcb_pcb]
  have hevents : s'.familyEvents
      = s.familyEvents ++ [.wait s.currentProc child childPcb.exitStatus] := by
    rw [← hs']
    simp [familyEvents, Sched.toUser, observe, freePcb, updCurrent, updPcb, Obs.familyEvent]
  have hexited' : ∀ p, s'.exited p = s.exited p := by
    intro p
    have hiff : s'.exited p ↔ s.exited p := by
      rw [exited_iff, exited_iff, hevents]
      simp
    exact Bool.eq_iff_iff.mpr hiff
  have hlive' : ∀ p, s'.live p = s.live p := by
    intro p
    rw [Sched.live, Sched.live, hexited', hpcb]
    by_cases hp : p = child
    · simp [hp, hexited]
    · simp [hp]
  have hparent' : ∀ p, s'.parent p = if p = child then none else s.parent p := by
    intro p
    rw [Sched.parent, hpcb, Sched.parent]
    by_cases hp : p = child
    · simp [hp]
    · cases s.pcb p with
      | none => simp [hp]
      | some a => by_cases hpc : p = s.currentProc <;> simp [hpc, hp, hne.symm]
  -- A zombie is nobody's parent: its children were abandoned when it exited.
  have hnone : ∀ c, s.parent c ≠ some child := fun c hc =>
    hdead (h.run.parent_alive hc).1
  have hzombieChild : s.zombies child = [] := List.eq_nil_iff_forall_not_mem.mpr fun c hc =>
    hnone c ((h.zombies child c).mp hc).2
  have hchildrenChild : s.children child = [] := List.eq_nil_iff_forall_not_mem.mpr fun c hc =>
    hnone c ((h.children child c).mp hc).2
  have hzombies' : ∀ p, s'.zombies p = if p = s.currentProc then rest else s.zombies p := by
    intro p
    rw [Sched.zombies, hpcb]
    by_cases hp : p = child
    · rw [if_pos hp, if_neg (hp ▸ hne), hp, hzombieChild]
      rfl
    · by_cases hpc : p = s.currentProc
      · simp [hpc, hne.symm, current]
      · simp [hp, hpc, Sched.zombies]
  have hchildren' : ∀ p, s'.children p = s.children p := by
    intro p
    rw [Sched.children, hpcb]
    by_cases hp : p = child
    · rw [if_pos hp, hp, hchildrenChild]
      rfl
    · rw [if_neg hp, Sched.children]
      cases s.pcb p with
      | none => rfl
      | some a => by_cases hpc : p = s.currentProc <;> simp [hpc]
  have hwaits' : ∀ p, p ≠ child → s'.waits p = s.waits p := by
    intro p hp
    rw [Sched.waits, hpcb, if_neg hp, Sched.waits]
    cases s.pcb p with
    | none => rfl
    | some a => by_cases hpc : p = s.currentProc <;> simp [hpc]
  have hstatus' : ∀ c, c ≠ child → s'.exitStatus c = s.exitStatus c := by
    intro c hc
    rw [Sched.exitStatus, hpcb, if_neg hc, Sched.exitStatus]
    cases s.pcb c with
    | none => rfl
    | some a => by_cases hcc : c = s.currentProc <;> simp [hcc]
  -- A zombie is listed once, so the other zombies keep their place.
  have hrest : child ∉ rest := by
    have hnodup := h.zombiesNodup hlive
    rw [hcurZombies] at hnodup
    exact (List.nodup_cons.mp hnodup).1
  refine ⟨?_, fun p c => ?_, fun p => ?_, fun p c => ?_, fun p hp => ?_, fun p hwait hp hcur => ?_,
    fun p c hc => ?_, ?_⟩
  · have hfamily : s'.family = s.family.wait s.currentProc child
        (rest.map fun c => (c, s.exitStatus c)) := by
      have hz : (fun p => (s'.zombies p).map fun c => (c, s'.exitStatus c)) = fun p =>
          if p = s.currentProc then rest.map fun c => (c, s.exitStatus c)
          else (s.zombies p).map fun c => (c, s.exitStatus c) := by
        funext p
        rw [hzombies']
        split
        · exact List.map_congr_left fun c hc => by rw [hstatus' c (ne_of_mem_of_not_mem hc hrest)]
        · rename_i hp
          refine List.map_congr_left fun c hc => ?_
          have hcc : c ≠ child := by
            rintro rfl
            have hpar := ((h.zombies p c).mp hc).2
            rw [hparentChild] at hpar
            exact hp (Option.some.inj hpar).symm
          rw [hstatus' c hcc]
      simp only [family, hz, hlive', funext hparent']
      rfl
    rw [hevents, hfamily]
    refine .wait h.run hlive ?_
    show (s.zombies s.currentProc).map _ = _
    rw [hcurZombies, List.map_cons]
    simp [Sched.exitStatus, zombie]
  · rw [hchildren', hlive', hparent', h.children]
    by_cases hc : c = child
    · subst hc
      simp [hdead]
    · rw [if_neg hc]
  · rw [hchildren']
    exact h.childrenNodup p
  · rw [hzombies', hexited', hparent']
    by_cases hc : c = child
    · subst hc
      by_cases hp : p = s.currentProc
      · simp [hp, hrest]
      · have hnot : c ∉ s.zombies p := fun hm => by
          have hpar := ((h.zombies p c).mp hm).2
          rw [hparentChild] at hpar
          exact hp (Option.some.inj hpar).symm
        simp [hp, hnot]
    · rw [if_neg hc, ← h.zombies]
      split
      · rename_i hp
        rw [hp, hcurZombies, List.mem_cons, or_iff_right hc]
      · rfl
  · have hpc : p ≠ child := by
      rintro rfl
      simp [Sched.waits, hpcb] at hp
    rw [hwaits' p hpc] at hp
    obtain ⟨hz, hch⟩ := h.waiting p hp
    rw [hzombies', hchildren']
    refine ⟨?_, hch⟩
    split
    · rename_i hcurp
      rw [hcurp, hcurZombies] at hz
      cases hz
    · exact hz
  · have hcur' : p ≠ s.currentProc := by
      rw [← hs'] at hcur
      exact hcur.resolve_right (by simp [Sched.toUser])
    rw [hlive'] at hp
    have hpc : p ≠ child := by
      rintro rfl
      exact hdead hp
    rw [hwaits' p hpc, hzombies', if_neg hcur']
    obtain ⟨a', sp, ha', hctx⟩ := hwait
    rw [hpcb, if_neg hpc] at ha'
    obtain ⟨a, ha, rfl⟩ := Option.map_eq_some_iff.mp ha'
    rw [if_neg hcur'] at hctx
    exact h.woken p ⟨a, sp, ha, hctx⟩ hp (.inl hcur')
  · have hnext : s'.nextPid = s.nextPid := by
      rw [← hs']
      rfl
    rw [hevents] at hc
    rw [hnext]
    rcases List.mem_append.mp hc with hc | hc
    · exact h.forkedLt p c hc
    · cases (List.mem_singleton.mp hc)
  · rw [← hs']
    exact h.nextPid

end

end Sched

end Theynix
