import Theynix.Lib.Stream
import Theynix.Footprint
import Theynix.UserBytes

/-!
# `Theynix.Pipes`: pipes are byte streams

The buffer of a pipe is a window that slides: a read moves its start, an empty buffer is
rewound, and a write that does not fit copies the unread bytes to the start of a larger
buffer. `Pipe.unread` is what the window shows. `Pipe.WellFormed` says that it lies inside
the buffer, and every operation keeps that.

* `pipes_fifo` is the main result: the completed writes and reads of a pipe are a run of the
  abstract stream that ends in the unread bytes. What a write puts in is what its process has
  at `buf`, and what a read takes out is then at `buf` of its process (`Kernel.PipeBytes`).
-/

set_option autoImplicit false

namespace Theynix

open Theynix.Lib (bind_eq_ok ite_eq_ok StreamEvent)

/-! ## The window -/

namespace Pipe

/-- The window lies inside the buffer. -/
structure WellFormed (p : Pipe) : Prop where
  ptr : 0 ≤ p.bufferPtr
  available : 0 ≤ p.numCharsAvailable
  window : p.bufferPtr + p.numCharsAvailable ≤ p.bufferCapacity
  capacity : p.bufferCapacity = p.buffer.length

/-- The bytes that have been written and not been read. -/
def unread (p : Pipe) : List Byte :=
  (p.buffer.drop p.bufferPtr.toNat).take p.numCharsAvailable.toNat

/-- A new pipe is empty. -/
theorem wellFormed_new : ({} : Pipe).WellFormed := ⟨by decide, by decide, by decide, rfl⟩

section
variable {p p' : Pipe} {len : Nat} {bytes : List Byte}

theorem WellFormed.length_unread (h : p.WellFormed) :
    p.unread.length = p.numCharsAvailable.toNat := by
  have hwindow := h.window
  have hcapacity := h.capacity
  have hptr := h.ptr
  simp only [unread, List.length_take, List.length_drop]
  omega

/-- A read takes what it returns from the front of the unread bytes. -/
theorem WellFormed.pipeCopyIntoUserBuffer (h : p.WellFormed)
    (hrun : p.pipeCopyIntoUserBuffer len = .ok (bytes, p')) :
    p'.WellFormed ∧ p.unread = bytes ++ p'.unread ∧ bytes.length = len := by
  obtain ⟨_, hassert, hrun⟩ := bind_eq_ok.mp hrun
  have hlen : (len : Int) ≤ p.numCharsAvailable := of_decide_eq_true (cAssert_eq_ok hassert)
  have hptr := h.ptr
  have hwindow := h.window
  have hcapacity := h.capacity
  have hlength : ((p.buffer.drop p.bufferPtr.toNat).take len).length = len := by
    simp only [List.length_take, List.length_drop]
    omega
  have hsplit : p.unread = (p.buffer.drop p.bufferPtr.toNat).take len ++
      (p.buffer.drop (p.bufferPtr + len).toNat).take (p.numCharsAvailable - len).toNat := by
    have hnum : p.numCharsAvailable.toNat = len + (p.numCharsAvailable - len).toNat := by omega
    have hdrop : (p.bufferPtr + len).toNat = p.bufferPtr.toNat + len := by omega
    rw [unread, hnum, List.take_add, hdrop, List.drop_drop]
  rcases ite_eq_ok hrun with ⟨hempty, hret⟩ | ⟨-, hret⟩ <;> cases hret
  · -- Everything has been read, and the window is moved back to the start.
    dsimp only at hempty
    refine ⟨⟨Int.le_refl 0, ?_, ?_, hcapacity⟩, ?_, hlength⟩
    · dsimp only
      omega
    · dsimp only
      omega
    · rw [hsplit, ← hempty]
      simp [unread]
  · refine ⟨⟨?_, ?_, ?_, hcapacity⟩, hsplit, hlength⟩
    all_goals
      dsimp only
      omega

/-- A larger buffer shows the same bytes and has room for the write. -/
theorem WellFormed.growBuffer (h : p.WellFormed) (hrun : p.growBuffer len = .ok p') :
    p'.WellFormed ∧ p'.unread = p.unread ∧ (len : Int) ≤ p'.pipeSpotsRemaining := by
  have hlength := h.length_unread
  have havailable := h.available
  rcases ite_eq_ok hrun with ⟨-, hret⟩ | ⟨-, hret⟩ <;> cases hret
  have hunread : (p.buffer.drop p.bufferPtr.toNat).take p.numCharsAvailable.toNat = p.unread := rfl
  refine ⟨⟨Int.le_refl 0, havailable, ?_, ?_⟩, ?_, ?_⟩
  · dsimp only
    omega
  · dsimp only
    rw [hunread, List.length_append, List.length_replicate, hlength]
    omega
  · rw [unread]
    dsimp only
    rw [hunread, Int.toNat_zero, List.drop_zero, ← hlength, List.take_left]
  · simp only [pipeSpotsRemaining]
    omega

/-- What is written follows the unread bytes. -/
theorem WellFormed.pipeCopyIntoPipeBuffer (h : p.WellFormed)
    (hrun : p.pipeCopyIntoPipeBuffer bytes = .ok p') :
    p'.WellFormed ∧ p'.unread = p.unread ++ bytes := by
  obtain ⟨_, hassert, hret⟩ := bind_eq_ok.mp hrun
  have hroom : (bytes.length : Int) ≤ p.pipeSpotsRemaining :=
    of_decide_eq_true (cAssert_eq_ok hassert)
  simp only [pipeSpotsRemaining] at hroom
  have hptr := h.ptr
  have havailable := h.available
  have hcapacity := h.capacity
  have hwindow := h.window
  cases hret
  have hat : (p.buffer.take (p.bufferPtr + p.numCharsAvailable).toNat).length
      = p.bufferPtr.toNat + p.numCharsAvailable.toNat := by
    rw [List.length_take]
    omega
  refine ⟨⟨hptr, ?_, ?_, ?_⟩, ?_⟩
  · dsimp only
    omega
  · dsimp only
    omega
  · simp only [List.length_append, List.length_drop, hat]
    omega
  · simp only [unread]
    have hdrop : (p.bufferPtr + p.numCharsAvailable).toNat
        = p.bufferPtr.toNat + p.numCharsAvailable.toNat := by omega
    have hnum : (p.numCharsAvailable + bytes.length).toNat
        = p.numCharsAvailable.toNat + bytes.length := by omega
    have hfront : (p.buffer.take (p.bufferPtr.toNat + p.numCharsAvailable.toNat)).drop
        p.bufferPtr.toNat = (p.buffer.drop p.bufferPtr.toNat).take p.numCharsAvailable.toNat := by
      rw [List.drop_take, Nat.add_sub_cancel_left]
    have hfrontLength :
        ((p.buffer.drop p.bufferPtr.toNat).take p.numCharsAvailable.toNat).length
          = p.numCharsAvailable.toNat := h.length_unread
    rw [List.append_assoc, List.drop_append_of_le_length (by rw [hat]; omega), hdrop, hfront,
      hnum, ← List.append_assoc, List.take_append_of_le_length (by simp [hfrontLength])]
    rw [List.take_of_length_le (by simp [hfrontLength])]

/-- `KernelPipeWrite` appends to the unread bytes. -/
theorem WellFormed.write (h : p.WellFormed) (hrun : p.write bytes = .ok p') :
    p'.WellFormed ∧ p'.unread = p.unread ++ bytes := by
  obtain ⟨p₁, hgrow, hcopy⟩ := write_eq_ok hrun
  rcases hgrow with ⟨-, hgrow⟩ | ⟨-, rfl⟩
  · obtain ⟨h₁, hunread, -⟩ := h.growBuffer hgrow
    rw [← hunread]
    exact h₁.pipeCopyIntoPipeBuffer hcopy
  · exact h.pipeCopyIntoPipeBuffer hcopy

/-- The asserts of `KernelPipeWrite` hold. -/
theorem WellFormed.write_ok (h : p.WellFormed)
    (hfits : p.numCharsAvailable + bytes.length < 0x80000000) : ∃ p', p.write bytes = .ok p' := by
  have hcopy : ∀ p₁ : Pipe, (bytes.length : Int) ≤ p₁.pipeSpotsRemaining →
      ∃ p', (do cAssert (bytes.length ≤ p₁.pipeSpotsRemaining)
                p₁.pipeCopyIntoPipeBuffer bytes) = .ok p' := by
    intro p₁ hroom
    simp [cAssert, Pipe.pipeCopyIntoPipeBuffer, hroom]
  unfold Pipe.write
  by_cases hlarge : (bytes.length : Int) > p.pipeSpotsRemaining
  · have hgrow : ∃ p₁, p.growBuffer bytes.length = .ok p₁ := by
      unfold Pipe.growBuffer
      rw [if_neg (by omega)]
      exact ⟨_, rfl⟩
    obtain ⟨p₁, hgrow⟩ := hgrow
    rw [if_pos hlarge, hgrow]
    exact hcopy p₁ (h.growBuffer hgrow).2.2
  · rw [if_neg hlarge]
    exact hcopy p (by omega)

/-- The assert of `PipeCopyIntoUserBuffer` holds when enough bytes are there. -/
theorem pipeCopyIntoUserBuffer_ok (h : (len : Int) ≤ p.numCharsAvailable) :
    ∃ bytes p', p.pipeCopyIntoUserBuffer len = .ok (bytes, p') := by
  unfold Pipe.pipeCopyIntoUserBuffer
  simp only [cAssert, h, decide_true, if_true, Lib.ok_bind]
  split
  · exact ⟨_, _, rfl⟩
  · exact ⟨_, _, rfl⟩

end

end Pipe

/-! ## The pipes of a run -/

/-- What an event means to the stream of a pipe. -/
def Obs.pipeEvent (pipeId : Nat) : Obs → Option (StreamEvent Byte)
  | .pipeWritten i bytes => if i = pipeId then some (.put bytes) else none
  | .pipeRead i _ _ bytes => if i = pipeId then some (.take bytes) else none
  | _ => none

/-- A completed read has returned as many bytes as it asked for. -/
def Obs.FullRead : Obs → Prop
  | .pipeRead _ _ len bytes => bytes.length = len
  | _ => True

namespace Sched

/-- What has happened to the stream of a pipe, oldest first. -/
def pipeEvents (s : Sched) (pipeId : Nat) : List (StreamEvent Byte) :=
  (s.events .pipes).filterMap (Obs.pipeEvent pipeId)

/-- The unread bytes of a pipe. A pipe that does not exist has none. -/
def pipeUnread (s : Sched) (pipeId : Nat) : List Byte :=
  ((s.pipe pipeId).map Pipe.unread).getD []

/-- Every pipe is a stream of bytes: what has been written is what has been read, followed
by the unread bytes. -/
structure PipeInv (s : Sched) : Prop where
  wellFormed : ∀ i p, s.pipe i = some p → p.WellFormed
  stream : ∀ i, Lib.Stream.run [] (s.pipeEvents i) = some (s.pipeUnread i)
  full : ∀ o ∈ s.events .pipes, o.FullRead

section
variable {s s' : Sched}

theorem pipeEvents_observe {o : Obs} {i : Nat} :
    (s.observe o).pipeEvents i = s.pipeEvents i ++ (o.pipeEvent i).toList := by
  rw [pipeEvents, events_observe]
  split
  · rw [List.filterMap_append]
    cases ho : o.pipeEvent i <;> simp [pipeEvents, ho]
  · rename_i hpart
    cases o <;> first | exact absurd rfl hpart | simp [pipeEvents, Obs.pipeEvent]

/-- A step that touches another part. -/
theorem PipeInv.same (h : s.PipeInv) {part : Part} (hs : SameBut part s s')
    (hpart : part ≠ .pipes) : s'.PipeInv := by
  have hpipe := hs.pipe hpart
  have hevents := hs.events .pipes hpart.symm (by simp)
  refine ⟨fun i p hp => h.wellFormed i p (by rwa [← hpipe]), fun i => ?_, fun o ho => ?_⟩
  · rw [pipeEvents, hevents, pipeUnread, hpipe]
    exact h.stream i
  · exact h.full o (by rwa [← hevents])

/-- The bytes of one pipe change as an event says. -/
theorem PipeInv.change (h : s.PipeInv) {i : Nat} {p p' : Pipe} {o : Obs} {e : StreamEvent Byte}
    (hp : s.pipe i = some p) (hwf : p'.WellFormed) (hpart : o.part = .pipes) (hfull : o.FullRead)
    (hevent : ∀ j, o.pipeEvent j = if j = i then some e else none)
    (hstep : Lib.Stream.step p.unread e = some p'.unread) :
    ((s.updPipe i fun _ => p').observe o).PipeInv := by
  refine ⟨fun j q hq => ?_, fun j => ?_, fun o' ho' => ?_⟩
  · by_cases hj : j = i
    · simp only [observe, updPipe, hj, if_true, hp, Option.map_some] at hq
      cases hq
      exact hwf
    · simp only [observe, updPipe, if_neg hj] at hq
      exact h.wellFormed j q hq
  · have hrun : Lib.Stream.run [] (s.pipeEvents j) = some (s.pipeUnread j) := h.stream j
    show Lib.Stream.run [] (((s.updPipe i fun _ => p').observe o).pipeEvents j) = _
    rw [pipeEvents_observe, hevent]
    by_cases hj : j = i
    · have hunread : s.pipeUnread j = p.unread := by simp [pipeUnread, hj, hp]
      rw [hunread] at hrun
      simp only [if_pos hj, Option.toList_some]
      refine (Lib.Stream.run_concat hrun).trans (hstep.trans ?_)
      simp [pipeUnread, observe, updPipe, hj, hp]
    · simp only [if_neg hj, Option.toList_none, List.append_nil]
      refine hrun.trans ?_
      simp [pipeUnread, observe, updPipe, hj]
  · rw [events_observe, if_pos hpart] at ho'
    rcases List.mem_append.mp ho' with ho' | ho'
    · exact h.full o' ho'
    · rw [List.mem_singleton.mp ho']
      exact hfull

/-- A change of the waiting list of a pipe. -/
theorem PipeInv.waiting (h : s.PipeInv) {i : Nat} {f : Pipe → Pipe}
    (hwf : ∀ p, p.WellFormed → (f p).WellFormed) (hunread : ∀ p, (f p).unread = p.unread) :
    (s.updPipe i f).PipeInv := by
  refine ⟨fun j q hq => ?_, fun j => (h.stream j).trans ?_, h.full⟩
  · by_cases hj : j = i
    · simp only [updPipe, hj, if_true] at hq
      obtain ⟨p, hp, rfl⟩ := Option.map_eq_some_iff.mp hq
      exact hwf p (h.wellFormed i p hp)
    · simp only [updPipe, if_neg hj] at hq
      exact h.wellFormed j q hq
  · by_cases hj : j = i
    · cases hp : s.pipe i <;> simp [pipeUnread, updPipe, hj, hp, hunread]
    · simp [pipeUnread, updPipe, hj]

/-- A new pipe is empty, as the pipe that did not exist was. -/
theorem PipeInv.pipeNewPipe (h : s.PipeInv) (hobj : s.Objects) : s.pipeNewPipe.PipeInv := by
  refine ⟨fun j q hq => ?_, fun j => (h.stream j).trans ?_, h.full⟩
  · by_cases hj : j = s.nextSynchResourceId
    · simp only [Sched.pipeNewPipe, hj, if_true] at hq
      cases hq
      exact Pipe.wellFormed_new
    · simp only [Sched.pipeNewPipe, if_neg hj] at hq
      exact h.wellFormed j q hq
  · by_cases hj : j = s.nextSynchResourceId
    · simp [pipeUnread, Sched.pipeNewPipe, hj, hobj.pipeFresh _ (Nat.le_refl _), Pipe.unread]
    · simp [pipeUnread, Sched.pipeNewPipe, hj]

/-- Whom a write wakes makes no difference to the bytes. -/
theorem afterPipeWrite_unread {i : Nat} {p p' : Pipe} {bytes : List Byte}
    (hp : s.pipe i = some p) : (s.afterPipeWrite i p' bytes).pipeUnread i = p'.unread := by
  unfold Sched.afterPipeWrite
  dsimp only
  split
  · simp [pipeUnread, ready, observe, updPipe, hp, Pipe.unread]
  · simp [pipeUnread, observe, updPipe, hp, Pipe.unread]

theorem afterPipeWrite_pipeEvents {i : Nat} {p' : Pipe} {bytes : List Byte} :
    (s.afterPipeWrite i p' bytes).pipeEvents i = s.pipeEvents i ++ [.put bytes] := by
  have hevents : ∀ f, ((s.updPipe i f).observe (.pipeWritten i bytes)).pipeEvents i
      = s.pipeEvents i ++ [.put bytes] := by
    intro f
    rw [pipeEvents_observe]
    simp [Obs.pipeEvent, pipeEvents, Sched.events, updPipe]
  unfold Sched.afterPipeWrite
  dsimp only
  split
  · exact hevents _
  · exact hevents _

/-- `KernelPipeWrite` appends what it writes, whoever it wakes. -/
theorem PipeInv.afterPipeWrite (h : s.PipeInv) {i : Nat} {p p' : Pipe} {bytes : List Byte}
    (hp : s.pipe i = some p) (hrun : p.write bytes = .ok p') :
    (s.afterPipeWrite i p' bytes).PipeInv := by
  obtain ⟨hwf, hunread⟩ := (h.wellFormed i p hp).write hrun
  have hchange : ∀ waiting, ((s.updPipe i fun _ =>
      { p' with waitingToRead := waiting }).observe (.pipeWritten i bytes)).PipeInv := by
    intro waiting
    refine h.change hp ⟨hwf.ptr, hwf.available, hwf.window, hwf.capacity⟩ rfl trivial
      (fun j => ?_) (?_ : Lib.Stream.step p.unread (.put bytes) = _)
    · simp [Obs.pipeEvent, eq_comm]
    · rw [Lib.Stream.step, ← hunread]
      rfl
  unfold Sched.afterPipeWrite
  dsimp only
  split
  · exact (hchange _).same ((SameBut.refl .other _).ready _) (by simp)
  · exact hchange _

/-- Every step keeps the pipes streams. -/
theorem SchedStep.pipeInv {c : Cause} (h : s.PipeInv) (hobj : s.Objects) (hrun : s.Running)
    (hstep : SchedStep s c s') : s'.PipeInv := by
  obtain ⟨part, s₁, hpart, hsame⟩ := hstep.part hrun
  refine PipeInv.same ?_ hsame (by simp)
  by_cases hpipes : part = .pipes
  · subst hpipes
    cases hpart with
    | pipeInit => exact h.pipeNewPipe hobj
    | pipeReadBlock _ _ =>
        exact h.waiting (fun _ hp => ⟨hp.ptr, hp.available, hp.window, hp.capacity⟩) fun _ => rfl
    | pipeRead pipe run =>
        obtain ⟨hwf, hunread, hlength⟩ := (h.wellFormed _ _ pipe).pipeCopyIntoUserBuffer run
        refine h.change pipe hwf rfl hlength (fun j => ?_)
          (hunread ▸ Lib.Stream.step_take _ _)
        simp [Obs.pipeEvent, eq_comm]
    | pipeWrite _ pipe run => exact h.afterPipeWrite pipe run
  · exact h.same hpart.same hpipes

end

theorem bootSched_pipeInv : Kernel.bootSched.PipeInv := by
  refine ⟨fun _ _ hp => (by cases hp), fun _ => ?_, fun _ ho => (by cases ho)⟩
  simp [Kernel.bootSched, pipeEvents, events, pipeUnread]

end Sched

open Sched

/-- In every state of every run, every pipe is a stream. -/
theorem reachable_pipeInv {b : BootImage} {k : Kernel} (h : Reachable b k) :
    k.toSched.PipeInv := by
  have hinv : (k.toSched.Objects ∧ k.toSched.Running) ∧ k.toSched.PipeInv :=
    h.schedInvariant (I := fun s => (s.Objects ∧ s.Running) ∧ s.PipeInv)
      ⟨⟨bootSched_objects, bootSched_running⟩, bootSched_pipeInv⟩
      fun _ _ _ hs hstep => ⟨⟨hstep.objects hs.1.1, hstep.running hs.1.2 hs.1.1⟩,
        SchedStep.pipeInv hs.2 hs.1.1 hs.1.2 hstep⟩
  exact hinv.2

/-- The bytes that the completed writes of a pipe have written, in order. -/
def Sched.pipeWritten (s : Sched) (pipeId : Nat) : List Byte :=
  Lib.Stream.puts (s.pipeEvents pipeId)

/-- The bytes that the completed reads of a pipe have returned, in order. -/
def Sched.pipeReturned (s : Sched) (pipeId : Nat) : List Byte :=
  Lib.Stream.takes (s.pipeEvents pipeId)

theorem Sched.pipeReturned_congr {s s' : Sched} {i : Nat}
    (h : s'.pipeEvents i = s.pipeEvents i) : s'.pipeReturned i = s.pipeReturned i := by
  rw [Sched.pipeReturned, h, Sched.pipeReturned]

/-! ## The memory of the processes -/

/-- A `KernelPipeRead` of `len` bytes into `buf` goes on waiting, or it takes `len` bytes from
the pipe, leaves them at `buf` in the memory of its process and returns `len`. -/
def Kernel.ReadsFromPipe (k k' : Kernel) (pipeId buf : Nat) (len : Int) : Prop :=
  (k'.mode = .kernel ∧ k'.pipeUnread pipeId = k.pipeUnread pipeId ∧
      k'.pipeReturned pipeId = k.pipeReturned pipeId) ∨
    ∃ bytes : List Byte, (bytes.length : Int) = len ∧
      k.pipeUnread pipeId = bytes ++ k'.pipeUnread pipeId ∧
      k'.pipeReturned pipeId = k.pipeReturned pipeId ++ bytes ∧
      k'.machine.Holds k.currentProc buf bytes ∧ k'.currentProc = k.currentProc ∧
      k'.mode = .user ∧ k'.userContext.regs 0 = asUnsigned len

/-- A `KernelPipeWrite` of `len` bytes from `buf` appends what its process has there to the
pipe, and returns `len`. -/
def Kernel.WritesToPipe (k k' : Kernel) (pipeId buf : Nat) (len : Int) : Prop :=
  ∃ bytes : List Byte, (bytes.length : Int) = len ∧ k.machine.Holds k.currentProc buf bytes ∧
    k'.pipeUnread pipeId = k.pipeUnread pipeId ++ bytes ∧
    k'.pipeWritten pipeId = k.pipeWritten pipeId ++ bytes ∧ k'.userContext.regs 0 = asUnsigned len

/-- What the next call on a pipe does with the memory of the process that makes it. -/
structure Kernel.PipeBytes (k : Kernel) (pipeId : Nat) : Prop where
  write : ∀ uc env k', uc.Calls YALNIX_PIPE_WRITE → uc.regs 0 = pipeId →
    Step k (.trap uc env) k' → k' = ({ k with userContext := uc } : Kernel).ret ERROR ∨
      k.WritesToPipe k' pipeId (uc.regs 1) (asInt (uc.regs 2))
  read : ∀ uc env k', uc.Calls YALNIX_PIPE_READ → uc.regs 0 = pipeId →
    Step k (.trap uc env) k' → k' = ({ k with userContext := uc } : Kernel).ret ERROR ∨
      k.ReadsFromPipe k' pipeId (uc.regs 1) (asInt (uc.regs 2))
  /-- A reader that was woken tries again. -/
  resume : ∀ buf len k', k.toSched.ResumesIn (.kernelPipeRead pipeId buf len) →
    Step k .resume k' → k.ReadsFromPipe k' pipeId buf len

section
variable {k k' : Kernel} {pipeId buf len : Nat}

/-- The loop of `KernelPipeRead`. -/
theorem Kernel.pipeReadLoop_reads (hinv : k.toSched.PipeInv) (hapart : k.Apart)
    (hlive : k.live k.currentProc = true) (h : k.pipeReadLoop pipeId buf len = .ok k') :
    k.ReadsFromPipe k' pipeId buf len := by
  unfold Kernel.pipeReadLoop at h
  cases hp : k.pipe pipeId with
  | none => simp [hp] at h
  | some p =>
      simp only [hp] at h
      rcases ite_eq_ok h with ⟨-, h⟩ | ⟨-, h⟩
      · -- There is not enough: the reader is put on the waiting list.
        have hsched := Kernel.switchToNextProc_sched h
        have hsame : SameBut .other (k.updPipe pipeId fun p =>
            { p with waitingToRead := p.waitingToRead ++ [(len, k.currentProc)] }) k'.toSched := by
          rw [hsched]
          exact (SameBut.refl _ _).switchToNextProc _
        have hevents : k'.pipeEvents pipeId = k.pipeEvents pipeId := by
          rw [pipeEvents, hsame.events .pipes (by simp) (by simp)]
          rfl
        have hmode : k'.mode = .kernel := by
          rw [hsched]
          exact switchToNextProc_mode
        refine .inl ⟨hmode, ?_, pipeReturned_congr hevents⟩
        rw [pipeUnread, hsame.pipe (by simp), pipeUnread]
        simp [updPipe, hp, Pipe.unread]
      · obtain ⟨⟨bytes, p'⟩, hcopy, hrest⟩ := bind_eq_ok.mp h
        obtain ⟨m, hstore, hret⟩ := bind_eq_ok.mp hrest
        cases hret
        obtain ⟨-, hunread, hlength⟩ := (hinv.wellFormed pipeId p hp).pipeCopyIntoUserBuffer hcopy
        refine .inr ⟨bytes, congrArg _ hlength, ?_, ?_, hapart.storeBytes_holds hlive hstore, rfl,
          rfl, rfl⟩
        · rw [pipeUnread, hp, pipeUnread]
          simp [Kernel.ret, Kernel.withSched, observe, updPipe, hp, hunread]
        · have hevents : ((k.updPipe pipeId fun _ => p').observe
              (.pipeRead pipeId k.currentProc len bytes)).pipeEvents pipeId
                = k.pipeEvents pipeId ++ [.take bytes] := by
            rw [pipeEvents_observe]
            simp [Obs.pipeEvent, pipeEvents, Sched.events, updPipe]
          show Lib.Stream.takes _ = _
          refine (congrArg Lib.Stream.takes hevents).trans ?_
          simp [Sched.pipeReturned, Lib.Stream.takes]

/-- `KernelPipeRead` fails, or runs its loop for a positive number of bytes. -/
theorem Kernel.kernelPipeRead_reads {len : Int} (hinv : k.toSched.PipeInv) (hapart : k.Apart)
    (hlive : k.live k.currentProc = true) (h : k.kernelPipeRead pipeId buf len = .ok k') :
    k' = k.ret ERROR ∨ k.ReadsFromPipe k' pipeId buf len := by
  unfold Kernel.kernelPipeRead at h
  rcases ite_eq_ok h with ⟨-, h⟩ | ⟨hneg, h⟩
  · cases h
    exact .inl rfl
  rcases ite_eq_ok h with ⟨hzero, h⟩ | ⟨-, h⟩
  · cases h
    subst hzero
    exact .inr (.inr ⟨[], rfl, rfl, (List.append_nil _).symm, .nil, rfl, rfl, rfl⟩)
  rcases ite_eq_ok h with ⟨-, h⟩ | ⟨-, h⟩
  · cases h
    exact .inl rfl
  split at h
  · cases h
    exact .inl rfl
  · have hloop := Kernel.pipeReadLoop_reads hinv hapart hlive h
    rw [Int.toNat_of_nonneg (Int.not_lt.mp hneg)] at hloop
    exact .inr hloop

/-- `KernelPipeWrite` fails, or appends the bytes at `buf`. -/
theorem Kernel.kernelPipeWrite_writes {len : Int} (hinv : k.toSched.PipeInv) (hapart : k.Apart)
    (h : k.kernelPipeWrite pipeId buf len = .ok k') :
    k' = k.ret ERROR ∨ k.WritesToPipe k' pipeId buf len := by
  unfold Kernel.kernelPipeWrite at h
  rcases ite_eq_ok h with ⟨-, h⟩ | ⟨hneg, h⟩
  · cases h
    exact .inl rfl
  rcases ite_eq_ok h with ⟨hzero, h⟩ | ⟨-, h⟩
  · cases h
    subst hzero
    exact .inr ⟨[], rfl, .nil, (List.append_nil _).symm, (List.append_nil _).symm, rfl⟩
  rcases ite_eq_ok h with ⟨-, h⟩ | ⟨-, h⟩
  · cases h
    exact .inl rfl
  split at h
  · cases h
    exact .inl rfl
  · rename_i p hfound
    obtain ⟨bytes, hload, h⟩ := bind_eq_ok.mp h
    obtain ⟨p', hwrite, hret⟩ := bind_eq_ok.mp h
    cases hret
    have hp : k.pipe pipeId = some p := (mem_of_findPipe hfound).2
    obtain ⟨-, hunread⟩ := (hinv.wellFormed pipeId p hp).write hwrite
    have hlength := Machine.loadBytes_length hload
    refine .inr ⟨bytes, by omega, hapart.loadBytes_holds hload, ?_, ?_, rfl⟩
    · show (k.afterPipeWrite pipeId p' bytes).pipeUnread pipeId = _
      rw [afterPipeWrite_unread hp, hunread, pipeUnread, hp]
      rfl
    · show (k.afterPipeWrite pipeId p' bytes).pipeWritten pipeId = _
      rw [pipeWritten, afterPipeWrite_pipeEvents, pipeWritten]
      simp [Lib.Stream.puts]

end

/-- In every state of every run, the calls on a pipe work on the memory of their process. -/
theorem reachable_pipeBytes {b : BootImage} {k : Kernel} (h : Reachable b k) (pipeId : Nat) :
    k.PipeBytes pipeId := by
  have hinv := reachable_pipeInv h
  have hapart := reachable_apart h
  have hlive := (reachable_running h).2.current.resolve_left id
  -- The user context that a trap saves is no part of what these rest on.
  have hsaved : ∀ uc, ({ k with userContext := uc } : Kernel).Apart :=
    fun _ => ⟨hapart.isolated, hapart.ptbr1⟩
  constructor
  case write =>
    intro uc env k' hcall hpipe hstep
    obtain ⟨-, run⟩ := hstep.of_call hcall
    unfold Kernel.trapKernel at run
    simp only [hcall.2] at run
    subst hpipe
    exact Kernel.kernelPipeWrite_writes (k := { k with userContext := uc }) hinv (hsaved uc) run
  case read =>
    intro uc env k' hcall hpipe hstep
    obtain ⟨-, run⟩ := hstep.of_call hcall
    unfold Kernel.trapKernel at run
    simp only [hcall.2] at run
    subst hpipe
    exact Kernel.kernelPipeRead_reads (k := { k with userContext := uc }) hinv (hsaved uc) hlive
      run
  case resume =>
    intro buf len k' hentry hstep
    obtain ⟨hcontext, run⟩ := hstep.of_resume hentry
    simp only [Kernel.resume, hcontext] at run
    exact Kernel.pipeReadLoop_reads (k := k.restoreUserContext) hinv
      ⟨hapart.isolated, hapart.ptbr1⟩ hlive run

/-- In every state of every run, what has been written to a pipe is what has been read from
it and the bytes in its window. Every read has returned what it asked for, the window lies
inside the buffer, and the asserts of the next read and the next write hold. The next write
puts in what its process has at `buf`, and the next read that completes leaves what it takes
at `buf` of its process. -/
theorem pipes_fifo {b : BootImage} {k : Kernel} (h : Reachable b k) {pipeId : Nat} {p : Pipe}
    (hp : k.pipe pipeId = some p) :
    k.pipeWritten pipeId = k.pipeReturned pipeId ++ p.unread ∧
    (∀ reader len bytes, .pipeRead pipeId reader len bytes ∈ k.history → bytes.length = len) ∧
    0 ≤ p.bufferPtr ∧ 0 ≤ p.numCharsAvailable ∧
    p.bufferPtr + p.numCharsAvailable ≤ p.bufferCapacity ∧ p.bufferCapacity = p.buffer.length ∧
    (∀ len : Nat, len ≤ p.numCharsAvailable →
      ∃ bytes p', p.pipeCopyIntoUserBuffer len = .ok (bytes, p')) ∧
    (∀ bytes, p.numCharsAvailable + bytes.length < 0x80000000 →
      ∃ p', p.write bytes = .ok p') ∧
    k.PipeBytes pipeId := by
  have hinv := reachable_pipeInv h
  have hwf := hinv.wellFormed pipeId p hp
  have hunread : k.pipeUnread pipeId = p.unread := by simp [Sched.pipeUnread, hp]
  refine ⟨?_, fun reader len bytes ho => ?_, hwf.ptr, hwf.available, hwf.window, hwf.capacity,
    fun len => Pipe.pipeCopyIntoUserBuffer_ok, fun bytes => hwf.write_ok,
    reachable_pipeBytes h pipeId⟩
  · have hputs := Lib.Stream.run_puts (hinv.stream pipeId)
    rwa [hunread, List.nil_append] at hputs
  · exact hinv.full _ (List.mem_filter.mpr ⟨ho, by simp [Obs.part]⟩)

/-- Init makes a pipe, writes six bytes to it and reads four of them. -/
def pipeRuns : List Event := initRuns ++ systemCall YALNIX_PIPE_INIT stackBuffer 0 0 ::
  userStores stackBuffer [1, 2, 3, 4, 5, 6] ++
  [systemCall YALNIX_PIPE_WRITE 1 stackBuffer 6, systemCall YALNIX_PIPE_READ 1 (stackBuffer + 16) 4]

/-- The pipe that init has written to and read from, and the bytes that init has read. -/
theorem pipes_fifo_init : ∃ k p, Kernel.run smallImage pipeRuns = some k ∧
    k.pipe 1 = some p ∧ p.bufferPtr = 4 ∧ p.unread = [5, 6] ∧
    k.pipeWritten 1 = [1, 2, 3, 4, 5, 6] ∧ k.pipeReturned 1 = [1, 2, 3, 4] ∧
    k.machine.Holds INIT_PID (stackBuffer + 16) [1, 2, 3, 4] ∧
    k.pipeWritten 1 = k.pipeReturned 1 ++ p.unread := by
  have hsome : ((Kernel.run smallImage pipeRuns).bind fun k =>
      (k.pipe 1).map fun p => (p.bufferPtr, p.unread, k.pipeWritten 1, k.pipeReturned 1,
        decide (k.machine.Holds INIT_PID (stackBuffer + 16) [1, 2, 3, 4])))
        = some (4, [5, 6], [1, 2, 3, 4, 5, 6], [1, 2, 3, 4], true) := by
    decide +kernel
  obtain ⟨k, hrun, hk⟩ := Option.bind_eq_some_iff.mp hsome
  obtain ⟨p, hp, heq⟩ := Option.map_eq_some_iff.mp hk
  simp only [Prod.mk.injEq, decide_eq_true_eq] at heq
  obtain ⟨hptr, hunread, hwritten, hreturned, hholds⟩ := heq
  exact ⟨k, p, hrun, hp, hptr, hunread, hwritten, hreturned, hholds,
    (pipes_fifo (.of_run hrun) hp).1⟩

end Theynix
