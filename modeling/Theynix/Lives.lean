import Theynix.Queues

/-!
# `Theynix.Lives`: where a process is while it lives

The invariant is `Sched.Settled`: every live process other than idle is in exactly one
queue, once, but for the running process, which is in none. A system call that blocks puts
the running process into a queue and then switches; between the two the state is `Parked`,
where the running process is in a queue too. After the switch it is `Running` again.

* `Settled.same`: the queues stay as they are;
* `Settled.wake`: a process goes from its queue to the ready queue;
* `Settled.park`: the running process is put into a queue;
* `Settled.switch`: `SwitchToNextProc` on a parked state;
* `Settled.block`: the last two together, which is what a system call that blocks does.

`SameLives` is what the first three need to know about the step otherwise.
-/

set_option autoImplicit false

namespace Theynix

open Theynix.Lib (Placed Adds count_cons)

/-! ## Lives of processes -/

/-- The fields of a PCB that say where the process goes on. -/
def PCB.life (a : PCB) : Bool × KernelContext := (a.kernelContextInitialized, a.kernelContext)

namespace Sched

/-- No process has been created, suspended, resumed or ended. A list of dead children gets
only processes that have exited, and the ready queue only grows at its end. -/
structure SameLives (s s' : Sched) : Prop where
  currentProc : s'.currentProc = s.currentProc
  nextPid : s'.nextPid = s.nextPid
  mode : s.mode = .user → s'.mode = .user
  exited : ∀ p, s'.exited p = s.exited p
  pcb : ∀ p, (s'.pcb p).map PCB.life = (s.pcb p).map PCB.life
  zombies : ∀ p a', s'.pcb p = some a' → ∃ a, s.pcb p = some a ∧
    ∀ q ∈ a'.zombieChildren, q ∈ a.zombieChildren ∨ s.exited q
  readyQueue : s.readyQueue <+: s'.readyQueue

namespace SameLives

variable {s s₁ s₂ : Sched}

theorem refl (s : Sched) : SameLives s s :=
  ⟨rfl, rfl, id, fun _ => rfl, fun _ => rfl, fun _ a ha => ⟨a, ha, fun _ => .inl⟩,
    List.prefix_rfl⟩

theorem trans (h : SameLives s s₁) (h' : SameLives s₁ s₂) : SameLives s s₂ where
  currentProc := h'.currentProc.trans h.currentProc
  nextPid := h'.nextPid.trans h.nextPid
  mode hm := h'.mode (h.mode hm)
  exited p := (h'.exited p).trans (h.exited p)
  pcb p := (h'.pcb p).trans (h.pcb p)
  zombies p a₂ ha₂ := by
    obtain ⟨a₁, ha₁, hz₁⟩ := h'.zombies p a₂ ha₂
    obtain ⟨a, ha, hz⟩ := h.zombies p a₁ ha₁
    refine ⟨a, ha, fun q hq => ?_⟩
    rcases hz₁ q hq with hq | hq
    · exact hz q hq
    · exact .inr (by rwa [← h.exited])
  readyQueue := h.readyQueue.trans h'.readyQueue

/-- A change outside the PCBs, the past and the ready queue. -/
theorem keep (h : SameLives s s₁) (hcur : s₂.currentProc = s₁.currentProc)
    (hnext : s₂.nextPid = s₁.nextPid) (hmode : s₁.mode = .user → s₂.mode = .user)
    (hhistory : s₂.history = s₁.history) (hpcb : s₂.pcb = s₁.pcb)
    (hready : s₂.readyQueue = s₁.readyQueue) : SameLives s s₂ :=
  h.trans ⟨hcur, hnext, hmode, fun _ => by rw [Sched.exited, hhistory]; rfl,
    fun _ => by rw [hpcb], fun _ a ha => ⟨a, by rwa [← hpcb], fun _ => .inl⟩,
    hready ▸ List.prefix_rfl⟩

theorem observe (h : SameLives s s₁) {o : Obs}
    (ho : ∀ p, o.isExitOf p = false) : SameLives s (s₁.observe o) :=
  h.trans { refl s₁ with exited := fun p => by simp [Sched.exited, Sched.observe, ho] }

theorem appendReady (h : SameLives s s₁) (ps : List Pid) :
    SameLives s { s₁ with readyQueue := s₁.readyQueue ++ ps } :=
  h.trans { refl s₁ with readyQueue := List.prefix_append _ _ }

theorem ready (h : SameLives s s₁) (p : Pid) : SameLives s (s₁.ready p) := h.appendReady [p]

theorem toUser (h : SameLives s s₁) : SameLives s s₁.toUser :=
  h.keep rfl rfl (fun _ => rfl) rfl rfl rfl

/-- A PCB is changed, but not where its process goes on. -/
theorem updPcb' (h : SameLives s s₁) {p : Pid} {f : PCB → PCB} (hf : ∀ a, (f a).life = a.life)
    (hz : ∀ a, ∀ q ∈ (f a).zombieChildren, q ∈ a.zombieChildren ∨ s₁.exited q) :
    SameLives s (s₁.updPcb p f) := by
  refine h.trans { refl s₁ with pcb := fun q => ?_, zombies := fun q a' ha' => ?_ }
  · rw [updPcb_pcb]
    cases s₁.pcb q with
    | none => rfl
    | some a =>
        by_cases hq : q = p
        · simp [hq, hf]
        · simp [hq]
  · rw [updPcb_pcb] at ha'
    obtain ⟨a, ha, rfl⟩ := Option.map_eq_some_iff.mp ha'
    refine ⟨a, ha, fun r hr => ?_⟩
    split at hr
    · exact hz a r hr
    · exact .inl hr

theorem updPcb (h : SameLives s s₁) {p : Pid} {f : PCB → PCB}
    (hf : ∀ a, (f a).life = a.life)
    (hz : ∀ a, (f a).zombieChildren = a.zombieChildren) :
    SameLives s (s₁.updPcb p f) :=
  h.updPcb' hf fun a _ hq => .inl (hz a ▸ hq)

theorem updTty (h : SameLives s s₁) (t : Nat) (f : Tty → Tty) : SameLives s (s₁.updTty t f) :=
  h.keep rfl rfl id rfl rfl rfl

theorem updLock (h : SameLives s s₁) (i : Nat) (f : Lock → Lock) :
    SameLives s (s₁.updLock i f) :=
  h.keep rfl rfl id rfl rfl rfl

theorem updCvar (h : SameLives s s₁) (i : Nat) (f : CVar → CVar) :
    SameLives s (s₁.updCvar i f) :=
  h.keep rfl rfl id rfl rfl rfl

theorem updPipe (h : SameLives s s₁) (i : Nat) (f : Pipe → Pipe) :
    SameLives s (s₁.updPipe i f) :=
  h.keep rfl rfl id rfl rfl rfl

theorem live (h : SameLives s s₁) (p : Pid) : s₁.live p = s.live p := by
  have hp := congrArg Option.isSome (h.pcb p)
  simp only [Option.isSome_map] at hp
  simp only [Sched.live, h.exited, hp]

/-- A PCB of the later state goes on where one of the earlier state does. -/
theorem pcb_some (h : SameLives s s₁) {p : Pid} {a₁ : PCB} (hp : s₁.pcb p = some a₁) :
    ∃ a, s.pcb p = some a ∧ a.kernelContextInitialized = a₁.kernelContextInitialized ∧
      a.kernelContext = a₁.kernelContext := by
  have hlife := h.pcb p
  rw [hp] at hlife
  cases hs : s.pcb p with
  | none => simp [hs] at hlife
  | some a =>
      simp only [hs, Option.map_some, Option.some.injEq, PCB.life, Prod.mk.injEq] at hlife
      exact ⟨a, rfl, hlife.1.symm, hlife.2.symm⟩

end SameLives

/-! ## The invariant -/

/-- Every live process other than idle is in exactly one queue, and other processes are in
none. The running process is in a queue only while it is `parked`. -/
structure Settled (s : Sched) (parked : Prop) : Prop where
  placed : Placed s.occ fun p => s.live p ∧ p ≠ IDLE_PID ∧ (parked ∨ p ≠ s.currentProc)
  /-- A process that waits in a queue is suspended in a function that put it there. -/
  suspended : ∀ q p, q ≠ .ready → s.occ q p ≠ 0 → p ≠ s.currentProc →
    ∃ a, s.pcb p = some a ∧ q.Suspends a.kernelContext
  current : parked ∨ s.live s.currentProc
  pcbLt : ∀ p, (s.pcb p).isSome → p < s.nextPid
  exitedLt : ∀ p, s.exited p → p < s.nextPid
  zombies : ∀ p a, s.pcb p = some a → ∀ q ∈ a.zombieChildren, s.exited q
  idleLive : s.live IDLE_PID
  idleContext : ∀ a, s.pcb IDLE_PID = some a →
    a.kernelContextInitialized = true ∧ a.kernelContext = .trapClock
  /-- Only init can be waiting to run for the first time, at the start of the kernel. -/
  started : ∀ p a, s.pcb p = some a → a.kernelContextInitialized = false →
    s.currentProc = IDLE_PID ∧ s.mode = .user ∧ s.readyQueue.head? = some p

/-- A user process or idle is running, or the kernel works for it. -/
abbrev Running (s : Sched) : Prop := s.Settled False

/-- The running process is in a queue, and the kernel is about to switch. -/
abbrev Parked (s : Sched) : Prop := s.Settled True

section
variable {s s' : Sched} {parked parked' : Prop}

/-- The lives are the same and every process is in one place: the rest of the invariant. -/
theorem Settled.of_placed (h : s.Settled parked) (hl : SameLives s s')
    (hplaced : Placed s'.occ fun p => s.live p ∧ p ≠ IDLE_PID ∧ (parked' ∨ p ≠ s.currentProc))
    (hsub : ∀ q p, q ≠ .ready → s'.occ q p ≠ 0 → p ≠ s.currentProc → s.occ q p ≠ 0)
    (hcurrent : parked' ∨ s.live s.currentProc) : s'.Settled parked' where
  placed := hplaced.congr (fun _ _ => rfl) fun p => by rw [hl.live, hl.currentProc]
  suspended q p hq hocc hp := by
    rw [hl.currentProc] at hp
    obtain ⟨a, ha, hs⟩ := h.suspended q p hq (hsub q p hq hocc hp) hp
    cases ha' : s'.pcb p with
    | none =>
        have hlife := hl.pcb p
        simp [ha', ha] at hlife
    | some a' =>
        obtain ⟨a₁, ha₁, -, hctx⟩ := hl.pcb_some ha'
        have heq : a₁ = a := Option.some.inj (ha₁.symm.trans ha)
        exact ⟨a', rfl, by rwa [← hctx, heq]⟩
  current := by rwa [hl.live, hl.currentProc]
  pcbLt p hp := by
    rw [hl.nextPid]
    refine h.pcbLt p ?_
    have hlife := congrArg Option.isSome (hl.pcb p)
    simp only [Option.isSome_map] at hlife
    rwa [← hlife]
  exitedLt p hp := by
    rw [hl.nextPid]
    exact h.exitedLt p (by rwa [← hl.exited])
  zombies p a' ha' q hq := by
    obtain ⟨a, ha, hz⟩ := hl.zombies p a' ha'
    rw [hl.exited]
    exact (hz q hq).elim (h.zombies p a ha q) id
  idleLive := by rw [hl.live]; exact h.idleLive
  idleContext a' ha' := by
    obtain ⟨a, ha, hinit, hctx⟩ := hl.pcb_some ha'
    rw [← hinit, ← hctx]
    exact h.idleContext a ha
  started p a' ha' hinit' := by
    obtain ⟨a, ha, hinit, -⟩ := hl.pcb_some ha'
    obtain ⟨hcur, hmode, hhead⟩ := h.started p a ha (hinit.trans hinit')
    obtain ⟨rest, hrest⟩ := List.head?_eq_some_iff.mp hhead
    obtain ⟨more, hmore⟩ := hl.readyQueue
    refine ⟨hl.currentProc.trans hcur, hl.mode hmode, ?_⟩
    rw [← hmore, hrest]
    rfl

/-- The queues are as they were. -/
theorem Settled.same (h : s.Settled parked) (hl : SameLives s s')
    (hocc : ∀ q p, s'.occ q p = s.occ q p) : s'.Settled parked :=
  h.of_placed hl (h.placed.congr hocc fun _ => Iff.rfl)
    (fun q p _ hp _ => by rwa [← hocc q p]) h.current

/-- A process goes from its queue to the ready queue. -/
theorem Settled.wake (h : s.Settled parked) (hl : SameLives s s') {q : Queue} {p : Pid}
    {mid : Queue → Pid → Nat} (hout : Adds q p mid s.occ) (hin : Adds .ready p mid s'.occ) :
    s'.Settled parked := by
  refine h.of_placed hl (h.placed.move hout hin) (fun r b hr hocc _ => ?_) h.current
  have h₁ := hin r b
  have h₂ := hout r b
  rw [if_neg fun e => hr e.1] at h₁
  omega

/-- The running process, which is not idle, is put into a queue. -/
theorem Settled.park (h : s.Running) (hcur : s.currentProc ≠ IDLE_PID) (hl : SameLives s s')
    {q : Queue} (hin : Adds q s.currentProc s.occ s'.occ) : s'.Parked := by
  have hadd := h.placed.add (fun hi => (hi.2.2.resolve_left id) rfl) hin
  refine h.of_placed hl (hadd.congr (fun _ _ => rfl) fun p => ?_) (fun r b _ hocc hb => ?_)
    (.inl trivial)
  · constructor
    · rintro ⟨hlive, hidle, -⟩
      by_cases hp : p = s.currentProc
      · exact .inr hp
      · exact .inl ⟨hlive, hidle, .inr hp⟩
    · rintro (⟨hlive, hidle, -⟩ | rfl)
      · exact ⟨hlive, hidle, .inl trivial⟩
      · exact ⟨h.current.resolve_left id, hcur, .inl trivial⟩
  · rwa [hin r b, if_neg fun e => hb e.2, Nat.add_zero] at hocc

/-- Idle gives up the processor: it is in no queue. -/
theorem Settled.park_idle (h : s.Running) (hcur : s.currentProc = IDLE_PID) : s.Parked := by
  refine h.of_placed (SameLives.refl s) (h.placed.congr (fun _ _ => rfl) fun p => ?_)
    (fun _ _ _ hocc _ => hocc) (.inl trivial)
  constructor
  · rintro ⟨hlive, hidle, -⟩
    exact ⟨hlive, hidle, .inr (hcur ▸ hidle)⟩
  · rintro ⟨hlive, hidle, -⟩
    exact ⟨hlive, hidle, .inl trivial⟩

end

/-! ## Switching -/

section
variable {s : Sched} {next : Pid} {c : KernelContext}

/-- `SwitchToProc` suspends the running process; a process that runs for the first time gets
the same context. -/
theorem switchToProc_pcb (s : Sched) (next : Pid) (c : KernelContext) (p : Pid) :
    (s.switchToProc next c).pcb p = (s.pcb p).map fun a =>
      { a with
        kernelContext :=
          if p = s.currentProc ∨ p = next ∧ a.kernelContextInitialized = false then c
          else a.kernelContext
        kernelContextInitialized := a.kernelContextInitialized || decide (p = next) } := by
  unfold switchToProc
  by_cases hinit : s.initialized next
  · simp only [hinit, Bool.not_true, if_false, Bool.false_eq_true, updCurrent, updPcb_pcb]
    cases hp : s.pcb p with
    | none => rfl
    | some a =>
        have hnext : p = next → a.kernelContextInitialized = true := by
          rintro rfl
          simpa [initialized, hp] using hinit
        by_cases hpn : p = next <;> by_cases hpc : p = s.currentProc <;>
          simp_all [PCB.ext_iff]
  · simp only [hinit, Bool.not_false, if_true, updCurrent, updPcb_pcb, Option.map_map]
    cases hp : s.pcb p with
    | none => rfl
    | some a =>
        have hnext : p = next → a.kernelContextInitialized = false := by
          rintro rfl
          simpa [initialized, hp] using hinit
        by_cases hpn : p = next <;> by_cases hpc : p = s.currentProc <;>
          simp_all

theorem switchToProc_readyQueue : (s.switchToProc next c).readyQueue = s.readyQueue := by
  unfold switchToProc
  dsimp only
  split <;> rfl

theorem switchToProc_currentProc : (s.switchToProc next c).currentProc = next := rfl

/-- After a switch the kernel goes on in another process. -/
theorem switchToNextProc_mode : (s.switchToNextProc c).mode = .kernel := by
  unfold switchToNextProc
  split
  · rfl
  · rfl

theorem switchToProc_nextPid : (s.switchToProc next c).nextPid = s.nextPid := by
  unfold switchToProc
  dsimp only
  split <;> rfl

theorem switchToProc_exited {p : Pid} : (s.switchToProc next c).exited p = s.exited p := by
  unfold switchToProc
  dsimp only
  split <;> rfl

theorem switchToProc_live {p : Pid} : (s.switchToProc next c).live p = s.live p := by
  rw [live, live, switchToProc_exited, switchToProc_pcb, Option.isSome_map]

theorem switchToProc_occ {q : Queue} {p : Pid} :
    (s.switchToProc next c).occ q p = s.occ q p := by
  cases q with
  | wait =>
      simp only [occ, switchToProc_pcb, Option.map_map]
      rfl
  | ready => rw [occ, occ, switchToProc_readyQueue]
  | _ =>
      unfold switchToProc
      dsimp only
      split <;> rfl

/-- Switching to a process that is in no queue, when every other process is in one. -/
theorem Running.of_switchToProc
    (placed : Placed s.occ fun p => s.live p ∧ p ≠ IDLE_PID ∧ p ≠ next)
    (suspended : ∀ q p, q ≠ .ready → s.occ q p ≠ 0 → p ≠ s.currentProc →
      ∃ a, s.pcb p = some a ∧ q.Suspends a.kernelContext)
    (context : ∀ q, q ≠ .ready → s.occ q s.currentProc ≠ 0 → q.Suspends c)
    (nextLive : s.live next)
    (pcbLt : ∀ p, (s.pcb p).isSome → p < s.nextPid)
    (exitedLt : ∀ p, s.exited p → p < s.nextPid)
    (zombies : ∀ p a, s.pcb p = some a → ∀ q ∈ a.zombieChildren, s.exited q)
    (idleLive : s.live IDLE_PID)
    (idleContext : ∀ a, s.pcb IDLE_PID = some a →
      a.kernelContextInitialized = true ∧ a.kernelContext = .trapClock)
    (idle : s.currentProc = IDLE_PID → c = .trapClock)
    (started : ∀ p a, s.pcb p = some a → a.kernelContextInitialized = false → p = next) :
    (s.switchToProc next c).Running where
  placed := placed.congr (fun _ _ => switchToProc_occ) fun p => by
    rw [switchToProc_live, switchToProc_currentProc, false_or]
  suspended q p hq hocc _ := by
    rw [switchToProc_occ] at hocc
    -- A process in a queue is not the one that is switched to.
    obtain ⟨hlive, -, hp⟩ := placed.inside_of_occ hocc
    obtain ⟨a, ha⟩ := Option.isSome_iff_exists.mp (Bool.and_eq_true _ _ ▸ hlive).1
    refine ⟨_, by rw [switchToProc_pcb, ha]; rfl, ?_⟩
    dsimp only
    by_cases hcur : p = s.currentProc
    · rw [if_pos (.inl hcur)]
      exact context q hq (hcur ▸ hocc)
    · rw [if_neg (by simp [hcur, hp])]
      obtain ⟨a', ha', hs⟩ := suspended q p hq hocc hcur
      rwa [Option.some.inj (ha.symm.trans ha')]
  current := .inr (by rw [switchToProc_live]; exact nextLive)
  pcbLt p hp := by
    rw [switchToProc_nextPid]
    rw [switchToProc_pcb, Option.isSome_map] at hp
    exact pcbLt p hp
  exitedLt p hp := by
    rw [switchToProc_nextPid]
    rw [switchToProc_exited] at hp
    exact exitedLt p hp
  zombies p a' ha' q hq := by
    rw [switchToProc_pcb] at ha'
    obtain ⟨a, ha, rfl⟩ := Option.map_eq_some_iff.mp ha'
    rw [switchToProc_exited]
    exact zombies p a ha q hq
  idleLive := by
    rw [switchToProc_live]
    exact idleLive
  idleContext a' ha' := by
    rw [switchToProc_pcb] at ha'
    obtain ⟨a, ha, rfl⟩ := Option.map_eq_some_iff.mp ha'
    obtain ⟨hinit, hctx⟩ := idleContext a ha
    refine ⟨by simp [hinit], ?_⟩
    dsimp only
    split
    · rename_i h
      rcases h with h | ⟨-, h⟩
      · exact idle h.symm
      · simp [hinit] at h
    · exact hctx
  started p a' ha' hinit' := by
    rw [switchToProc_pcb] at ha'
    obtain ⟨a, ha, rfl⟩ := Option.map_eq_some_iff.mp ha'
    simp only [Bool.or_eq_false_iff, decide_eq_false_iff_not] at hinit'
    exact absurd (started p a ha hinit'.1) hinit'.2

/-- `SwitchToNextProc`, in a context that fits the queue of the running process. -/
theorem Settled.switch (h : s.Parked)
    (context : ∀ q, q ≠ .ready → s.occ q s.currentProc ≠ 0 → q.Suspends c)
    (idle : s.currentProc = IDLE_PID → c = .trapClock) : (s.switchToNextProc c).Running := by
  unfold switchToNextProc
  cases hq : s.readyQueue with
  | nil =>
      -- A process that never ran is at the head of the ready queue, so here there is none.
      have hempty : ∀ p a, s.pcb p = some a → a.kernelContextInitialized = false →
          p = IDLE_PID := by
        intro p a ha hinit
        obtain ⟨-, -, hhead⟩ := h.started p a ha hinit
        simp [hq] at hhead
      refine Running.of_switchToProc (h.placed.congr (fun _ _ => rfl) fun p => ?_) h.suspended
        context h.idleLive h.pcbLt h.exitedLt h.zombies h.idleLive h.idleContext idle hempty
      constructor
      · rintro ⟨hlive, hidle, -⟩
        exact ⟨hlive, hidle, .inl trivial⟩
      · rintro ⟨hlive, hidle, -⟩
        exact ⟨hlive, hidle, hidle⟩
  | cons next rest =>
      -- `next` leaves the ready queue and becomes the current process.
      have hout : Adds .ready next ({ s with readyQueue := rest } : Sched).occ s.occ := by
        refine Adds.of_queue (fun r => ?_) fun q hq r => ?_
        · simp [occ, hq, count_cons]
        · cases q with
          | ready => exact absurd rfl hq
          | _ => rfl
      have hsame : ∀ q p, q ≠ .ready →
          ({ s with readyQueue := rest } : Sched).occ q p = s.occ q p := by
        intro q p hr
        rw [hout q p, if_neg fun e => hr e.1, Nat.add_zero]
      obtain ⟨⟨hlive, hidle, -⟩, hplaced⟩ := h.placed.remove hout
      have hstarted : ∀ p a, s.pcb p = some a → a.kernelContextInitialized = false →
          p = next := by
        intro p a ha hinit
        obtain ⟨-, -, hhead⟩ := h.started p a ha hinit
        simpa [hq, eq_comm] using hhead
      refine Running.of_switchToProc (hplaced.congr (fun _ _ => rfl) fun p => ?_)
        (fun q p hr hocc => h.suspended q p hr (by rwa [← hsame q p hr]))
        (fun q hr hocc => context q hr (by rwa [← hsame q _ hr]))
        hlive h.pcbLt h.exitedLt h.zombies h.idleLive h.idleContext idle hstarted
      constructor
      · rintro ⟨hp, hp', hne⟩
        exact ⟨⟨hp, hp', .inl trivial⟩, hne⟩
      · rintro ⟨⟨hp, hp', -⟩, hne⟩
        exact ⟨hp, hp', hne⟩

/-- A system call that blocks: the running process goes into a queue, and the kernel
switches in a context that fits the queue. -/
theorem Settled.block {s' : Sched} {q : Queue} (h : s.Running) (hcur : s.currentProc ≠ IDLE_PID)
    (hl : SameLives s s') (hin : Adds q s.currentProc s.occ s'.occ) (hctx : q.Suspends c) :
    (s'.switchToNextProc c).Running := by
  have hparked := h.park hcur hl hin
  refine hparked.switch (fun r _ hocc => ?_) fun hidle => absurd (hl.currentProc ▸ hidle) hcur
  have hq : s'.occ q s.currentProc ≠ 0 := by
    rw [hin, if_pos ⟨rfl, rfl⟩]
    omega
  rw [hl.currentProc] at hocc
  have hrq : r = q := by
    by_contra hne
    exact hocc ((hparked.placed.unique hq).2 r hne)
  exact hrq ▸ hctx

end

end Sched

end Theynix
