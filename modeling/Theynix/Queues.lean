import Theynix.Lib.Placement
import Theynix.Objects

/-!
# `Theynix.Queues`: the queues of the kernel

`Sched.occ` counts how often a process occurs in each queue of the kernel: the ready queue,
`clock_block_procs`, the two lists of each terminal, the lists of the locks, cvars and
pipes, and, as a queue of its own, the flag `waiting_on_children`. The lemmas say how the
operations change the counts: `adds_*_in` and `adds_*_out` for one process that is put into
a queue or taken out of it, `occ_*` for operations that leave the queues as they are.
-/

set_option autoImplicit false

namespace Theynix

open Theynix.Lib (Adds count_concat count_cons)

/-! ## Queues -/

/-- The queues a process can wait in. Waiting for a child is a flag in the PCB. -/
inductive Queue
  | ready
  | clock
  | receive (ttyId : Nat)
  | transmit (ttyId : Nat)
  | lock (lockId : Nat)
  | cvar (cvarId : Nat)
  | pipe (pipeId : Nat)
  | wait
deriving DecidableEq, Repr

/-- The kernel functions that suspend a process after putting it into the queue. -/
def Queue.Suspends : Queue → KernelContext → Prop
  | .ready, _ => True
  | .clock, c => c = .kernelDelay
  | .receive _, c => ∃ buf, c = .kernelTtyRead buf
  | .transmit _, c => Sched.TransmitContext c
  | .lock i, c => c = .kernelAcquire i
  | .cvar _, c => ∃ lockId, c = .kernelCvarWait lockId
  | .pipe i, c => ∃ buf len, c = .kernelPipeRead i buf len
  | .wait, c => ∃ statusPtr, c = .kernelWait statusPtr

/-- Whether an event is the end of a process. -/
def Obs.isExitOf (p : Pid) : Obs → Bool
  | .exited q _ => q == p
  | _ => false

namespace Sched

/-- How often a process occurs in a queue. -/
def occ (s : Sched) : Queue → Pid → Nat
  | .ready, p => s.readyQueue.count p
  | .clock, p => s.clockBlockProcs.count p
  | .receive t, p => (s.ttys t).waitingToReceive.count p
  | .transmit t, p => (s.ttys t).waitingToTransmit.count p
  | .lock i, p => (((s.lock i).map Lock.waitingProcs).getD []).count p
  | .cvar i, p => (((s.cvar i).map CVar.waitingProcs).getD []).count p
  | .pipe i, p => (((s.pipe i).map fun x => x.waitingToRead.map Prod.snd).getD []).count p
  | .wait, p => if ((s.pcb p).map PCB.waitingOnChildren).getD false then 1 else 0

/-- `KernelExit` has finished with the process. -/
def exited (s : Sched) (p : Pid) : Bool := s.history.any (Obs.isExitOf p)

/-- The process exists and has not exited. -/
def live (s : Sched) (p : Pid) : Bool := (s.pcb p).isSome && !s.exited p

/-! ## How operations change who lives -/

section
variable {s : Sched} {p r : Pid}

@[simp] theorem live_updPcb {f : PCB → PCB} : (s.updPcb r f).live p = s.live p := by
  rw [live, updPcb_pcb, Option.isSome_map]
  rfl

@[simp] theorem live_ready : (s.ready r).live p = s.live p := rfl

theorem live_of_freePcb (h : (s.freePcb r).live p = true) : s.live p = true := by
  simp only [live, Bool.and_eq_true, freePcb] at h ⊢
  obtain ⟨hp, hexited⟩ := h
  split at hp
  · cases hp
  · exact ⟨hp, hexited⟩

theorem live_of_observe {o : Obs} (h : (s.observe o).live p = true) : s.live p = true := by
  simp only [live, exited, observe, Bool.and_eq_true, Bool.not_eq_true', List.any_append,
    Bool.or_eq_false_iff] at h ⊢
  exact ⟨h.1, h.2.1⟩

/-- A fork ends no process. -/
theorem exited_addChild : (s.addChild r).exited p = s.exited p := by
  simp [exited, addChild, observe, updCurrent, updPcb, Obs.isExitOf]

end

/-! ## How operations change the counts -/

section
variable {s : Sched} {p r : Pid} {q : Queue}

@[simp] theorem occ_observe (o : Obs) : (s.observe o).occ q r = s.occ q r := by
  cases q <;> rfl

@[simp] theorem occ_toUser : s.toUser.occ q r = s.occ q r := by
  cases q <;> rfl

theorem occ_updPcb {f : PCB → PCB} (h : ∀ a, (f a).waitingOnChildren = a.waitingOnChildren) :
    (s.updPcb p f).occ q r = s.occ q r := by
  cases q with
  | wait =>
      simp only [occ, updPcb]
      split
      · rename_i hrp
        subst hrp
        cases s.pcb r <;> simp [h]
      · rfl
  | _ => rfl

theorem occ_updTty {t : Nat} {f : Tty → Tty} :
    (s.updTty t f).occ q r =
      if q = .receive t then (f (s.ttys t)).waitingToReceive.count r
      else if q = .transmit t then (f (s.ttys t)).waitingToTransmit.count r else s.occ q r := by
  cases q with
  | receive u | transmit u =>
      by_cases hu : u = t <;> simp [occ, updTty, hu]
  | _ => rfl

theorem occ_updLock {i : Nat} {f : Lock → Lock} :
    (s.updLock i f).occ q r =
      if q = .lock i then (((s.lock i).map fun l => (f l).waitingProcs).getD []).count r
      else s.occ q r := by
  cases q with
  | lock j => by_cases hj : j = i <;> simp [occ, updLock, hj, Function.comp_def]
  | _ => rfl

theorem occ_updCvar {i : Nat} {f : CVar → CVar} :
    (s.updCvar i f).occ q r =
      if q = .cvar i then (((s.cvar i).map fun c => (f c).waitingProcs).getD []).count r
      else s.occ q r := by
  cases q with
  | cvar j => by_cases hj : j = i <;> simp [occ, updCvar, hj, Function.comp_def]
  | _ => rfl

theorem occ_updPipe {i : Nat} {f : Pipe → Pipe} :
    (s.updPipe i f).occ q r =
      if q = .pipe i then
        (((s.pipe i).map fun p => (f p).waitingToRead.map Prod.snd).getD []).count r
      else s.occ q r := by
  cases q with
  | pipe j => by_cases hj : j = i <;> simp [occ, updPipe, hj, Function.comp_def]
  | _ => rfl

theorem adds_ready : Adds .ready p s.occ (s.ready p).occ := by
  refine Adds.of_queue (fun r => count_concat _ _ _) fun q hq r => ?_
  cases q with
  | ready => exact absurd rfl hq
  | _ => rfl

/-- The first process of a lock's queue is taken out. -/
theorem adds_lock_out {i : Nat} {l : Lock} {f : Lock → Lock} (hl : s.lock i = some l)
    (hw : l.waitingProcs = p :: (f l).waitingProcs) :
    Adds (.lock i) p (s.updLock i f).occ s.occ := by
  refine Adds.of_queue (fun r => ?_) fun q hq r => ?_
  · rw [occ_updLock, if_pos rfl, hl]
    simp [occ, hl, hw, count_cons]
  · rw [occ_updLock, if_neg hq]

theorem adds_lock_in {i : Nat} {l : Lock} {f : Lock → Lock} (hl : s.lock i = some l)
    (hw : (f l).waitingProcs = l.waitingProcs ++ [p]) :
    Adds (.lock i) p s.occ (s.updLock i f).occ := by
  refine Adds.of_queue (fun r => ?_) fun q hq r => ?_
  · rw [occ_updLock, if_pos rfl, hl, Option.map_some, Option.getD_some, hw, count_concat]
    simp [occ, hl]
  · rw [occ_updLock, if_neg hq]

theorem occ_updLock_same {i : Nat} {f : Lock → Lock}
    (hw : ∀ l, (f l).waitingProcs = l.waitingProcs) : (s.updLock i f).occ q r = s.occ q r := by
  rw [occ_updLock]
  split
  · rename_i hq
    simp [hq, occ, hw]
  · rfl

/-- The first process of a cvar's queue is taken out. -/
theorem adds_cvar_out {i : Nat} {c : CVar} {f : CVar → CVar} (hc : s.cvar i = some c)
    (hw : c.waitingProcs = p :: (f c).waitingProcs) :
    Adds (.cvar i) p (s.updCvar i f).occ s.occ := by
  refine Adds.of_queue (fun r => ?_) fun q hq r => ?_
  · rw [occ_updCvar, if_pos rfl, hc]
    simp [occ, hc, hw, count_cons]
  · rw [occ_updCvar, if_neg hq]

theorem adds_cvar_in {i : Nat} {c : CVar} {f : CVar → CVar} (hc : s.cvar i = some c)
    (hw : (f c).waitingProcs = c.waitingProcs ++ [p]) :
    Adds (.cvar i) p s.occ (s.updCvar i f).occ := by
  refine Adds.of_queue (fun r => ?_) fun q hq r => ?_
  · rw [occ_updCvar, if_pos rfl, hc, Option.map_some, Option.getD_some, hw, count_concat]
    simp [occ, hc]
  · rw [occ_updCvar, if_neg hq]

theorem adds_pipe_in {i n : Nat} {x : Pipe} {f : Pipe → Pipe} (hx : s.pipe i = some x)
    (hw : (f x).waitingToRead = x.waitingToRead ++ [(n, p)]) :
    Adds (.pipe i) p s.occ (s.updPipe i f).occ := by
  refine Adds.of_queue (fun r => ?_) fun q hq r => ?_
  · rw [occ_updPipe, if_pos rfl, hx, Option.map_some, Option.getD_some, hw, List.map_append,
      List.map_singleton, count_concat]
    simp [occ, hx]
  · rw [occ_updPipe, if_neg hq]

theorem occ_updPipe_same {i : Nat} {x : Pipe} {f : Pipe → Pipe} (hx : s.pipe i = some x)
    (hw : (f x).waitingToRead = x.waitingToRead) : (s.updPipe i f).occ q r = s.occ q r := by
  rw [occ_updPipe]
  split
  · rename_i hq
    simp [hq, occ, hx, hw]
  · rfl

theorem adds_receive_out {t : Nat} {f : Tty → Tty}
    (hw : (s.ttys t).waitingToReceive = p :: (f (s.ttys t)).waitingToReceive)
    (hw' : (f (s.ttys t)).waitingToTransmit = (s.ttys t).waitingToTransmit) :
    Adds (.receive t) p (s.updTty t f).occ s.occ := by
  refine Adds.of_queue (fun r => ?_) fun q hq r => ?_
  · simp [occ, updTty, hw, count_cons]
  · by_cases hq' : q = .transmit t
    · simp [hq', occ, updTty, hw']
    · rw [occ_updTty, if_neg hq, if_neg hq']

theorem adds_receive_in {t : Nat} {f : Tty → Tty}
    (hw : (f (s.ttys t)).waitingToReceive = (s.ttys t).waitingToReceive ++ [p])
    (hw' : (f (s.ttys t)).waitingToTransmit = (s.ttys t).waitingToTransmit) :
    Adds (.receive t) p s.occ (s.updTty t f).occ := by
  refine Adds.of_queue (fun r => ?_) fun q hq r => ?_
  · rw [occ_updTty, if_pos rfl, hw, count_concat]
    rfl
  · by_cases hq' : q = .transmit t
    · simp [hq', occ, updTty, hw']
    · rw [occ_updTty, if_neg hq, if_neg hq']

theorem adds_transmit_out {t : Nat} {f : Tty → Tty}
    (hw : (s.ttys t).waitingToTransmit = p :: (f (s.ttys t)).waitingToTransmit)
    (hw' : (f (s.ttys t)).waitingToReceive = (s.ttys t).waitingToReceive) :
    Adds (.transmit t) p (s.updTty t f).occ s.occ := by
  refine Adds.of_queue (fun r => ?_) fun q hq r => ?_
  · simp [occ, updTty, hw, count_cons]
  · by_cases hq' : q = .receive t
    · simp [hq', occ, updTty, hw']
    · rw [occ_updTty, if_neg hq', if_neg hq]

theorem adds_transmit_in {t : Nat} {f : Tty → Tty}
    (hw : (f (s.ttys t)).waitingToTransmit = (s.ttys t).waitingToTransmit ++ [p])
    (hw' : (f (s.ttys t)).waitingToReceive = (s.ttys t).waitingToReceive) :
    Adds (.transmit t) p s.occ (s.updTty t f).occ := by
  refine Adds.of_queue (fun r => ?_) fun q hq r => ?_
  · rw [occ_updTty, if_neg (by simp), if_pos rfl, hw, count_concat]
    rfl
  · by_cases hq' : q = .receive t
    · simp [hq', occ, updTty, hw']
    · rw [occ_updTty, if_neg hq', if_neg hq]

theorem occ_updTty_same {t : Nat} {f : Tty → Tty}
    (hw : ∀ x, (f x).waitingToReceive = x.waitingToReceive)
    (hw' : ∀ x, (f x).waitingToTransmit = x.waitingToTransmit) :
    (s.updTty t f).occ q r = s.occ q r := by
  rw [occ_updTty]
  split
  · rename_i hq
    simp [hq, occ, hw]
  · split
    · rename_i hq
      simp [hq, occ, hw']
    · rfl

/-- A parent starts waiting for a child. -/
theorem adds_wait_in {a : PCB} {f : PCB → PCB} (hp : s.pcb p = some a)
    (hw : a.waitingOnChildren = false) (hw' : (f a).waitingOnChildren = true) :
    Adds .wait p s.occ (s.updPcb p f).occ := by
  refine Adds.of_queue (fun r => ?_) fun q hq r => ?_
  · by_cases hr : r = p <;> simp [occ, updPcb, hr, hp, hw, hw']
  · cases q with
    | wait => exact absurd rfl hq
    | _ => rfl

/-- A parent stops waiting for a child. -/
theorem adds_wait_out {a : PCB} {f : PCB → PCB} (hp : s.pcb p = some a)
    (hw : a.waitingOnChildren = true) (hw' : (f a).waitingOnChildren = false) :
    Adds .wait p (s.updPcb p f).occ s.occ := by
  refine Adds.of_queue (fun r => ?_) fun q hq r => ?_
  · by_cases hr : r = p <;> simp [occ, updPcb, hr, hp, hw, hw']
  · cases q with
    | wait => exact absurd rfl hq
    | _ => rfl

theorem occ_ready_ne_zero : s.occ .ready p ≠ 0 ↔ p ∈ s.readyQueue :=
  List.count_pos_iff.symm.trans Nat.pos_iff_ne_zero |>.symm

end

end Sched

end Theynix
