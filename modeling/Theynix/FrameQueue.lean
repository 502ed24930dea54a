import Theynix.FrameIsolation
import Theynix.Lib.Pool

/-!
# `Theynix.FrameQueue`: the frames after initialisation

`Managed` are the states that the users of `PMem.c` can reach after
`InitializePhysicalMemoryManagement`, each with the pool of frames that it stands for: frames
are obtained and released, frames that are not free are written to, and the page tables and
`REG_PTBR1` change at will.

* `frame_queue`: in every such state the two entry points do what the operations of the pool
  do, and nothing else.
* `all_memory_managed_iff`: which frames there are in the beginning. The frame at
  `KERNEL_STACK_LIMIT` is left out.
-/

set_option autoImplicit false

namespace Theynix

open Theynix.Lib (Pool)

namespace Machine

/-! ## The frames in use -/

/-- Of memory at most the frame `f` differs, and the ends of the free list do not. The page
tables, `REG_PTBR1` and the kernel break may be any. -/
structure WritesFrame (f : Nat) (m m' : Machine) : Prop where
  freeFramesHead : m'.freeFramesHead = m.freeFramesHead
  freeFramesTail : m'.freeFramesTail = m.freeFramesTail
  frame : ∀ g, g ≠ f → m'.frame g = m.frame g

theorem writesFrame_setByte (m : Machine) (f off : Nat) (b : Byte) :
    WritesFrame f m (m.setByte f off b) :=
  ⟨rfl, rfl, fun _ hg => funext fun _ => if_neg fun h => hg h.1⟩

/-- The states after `InitializePhysicalMemoryManagement`, with the pool of frames: `free` are
the frames in the order in which they became free, `held` those that have been obtained and
not released. -/
inductive Managed (kernelBrkPage pmemSize : Nat) : Machine → Pool Nat → Prop
  | start {m : Machine} (brk : m.kernelBrkPage = kernelBrkPage)
      (nodup : (initialFree kernelBrkPage pmemSize).Nodup) :
      Managed kernelBrkPage pmemSize (m.initializePhysicalMemoryManagement pmemSize)
        (.ofFree (initialFree kernelBrkPage pmemSize) nodup)
  | none {m : Machine} {pool : Pool Nat} {r : PteRef} (h : Managed kernelBrkPage pmemSize m pool)
      (empty : pool.take = none) :
      Managed kernelBrkPage pmemSize (m.getUnusedFrame r).2 pool
  | get {m : Machine} {pool pool' : Pool Nat} {r : PteRef} {f : Nat}
      (h : Managed kernelBrkPage pmemSize m pool) (taken : pool.take = some (f, pool')) :
      Managed kernelBrkPage pmemSize (m.getUnusedFrame r).2 pool'
  | release {m : Machine} {pool : Pool Nat} {f : Nat} (h : Managed kernelBrkPage pmemSize m pool)
      (held : f ∈ pool.held) :
      Managed kernelBrkPage pmemSize (m.releaseUsedFrame f) (pool.give f held)
  | write {m m' : Machine} {pool : Pool Nat} {f : Nat}
      (h : Managed kernelBrkPage pmemSize m pool) (notFree : f ∉ pool.free)
      (writes : WritesFrame f m m') : Managed kernelBrkPage pmemSize m' pool

section
variable {m m' : Machine} {pool : Pool Nat} {kernelBrkPage pmemSize f : Nat}

theorem mem_initialFree : f ∈ initialFree kernelBrkPage pmemSize ↔
    kernelBrkPage ≤ f ∧ f < 126 ∧ kernelBrkPage < 126 ∨
      129 ≤ f ∧ f < pmemSize % 0x100000000 / 8192 := by
  simp only [initialFree, List.mem_append, List.mem_range'_1, KERNEL_STACK_BASE_PAGE]
  omega

/-- The free list is that of the pool, and its frames are numbers of frames. -/
theorem Managed.list (hbrk : kernelBrkPage < KERNEL_STACK_BASE_PAGE)
    (h : Managed kernelBrkPage pmemSize m pool) :
    m.FreeList pool.free ∧ (∀ f ∈ pool.free, f < 0x80000000) ∧ ∀ f ∈ pool.held, f < 0x80000000 := by
  have hbrk' : kernelBrkPage < 126 := hbrk
  induction h with
  | @start m brk nodup =>
      obtain ⟨-, hlist⟩ := initializePhysicalMemoryManagement_spec (brk ▸ hbrk) pmemSize
      refine ⟨brk ▸ hlist, fun f hf => ?_, fun f hf => by cases hf⟩
      have hf' := mem_initialFree.mp hf
      omega
  | @none m pool r h empty ih =>
      obtain ⟨hlist, hsmall⟩ := ih
      rw [Pool.take_eq_none] at empty
      rw [empty] at hlist
      rw [getUnusedFrame_nil hlist, empty]
      exact ⟨hlist, empty ▸ hsmall⟩
  | @get m pool pool' r f h taken ih =>
      obtain ⟨hlist, hfree, hheld⟩ := ih
      obtain ⟨hcons, hheld'⟩ := Pool.take_eq_some taken
      rw [hcons] at hlist hfree
      obtain ⟨-, -, -, m', hget, -, hlist'⟩ := getUnusedFrame_cons hlist r
      rw [hget]
      refine ⟨hlist', fun g hg => hfree g (List.mem_cons_of_mem f hg), fun g hg => ?_⟩
      rw [hheld', List.mem_cons] at hg
      rcases hg with rfl | hg
      · exact hfree g List.mem_cons_self
      · exact hheld g hg
  | @release m pool f h held ih =>
      obtain ⟨hlist, hfree, hheld⟩ := ih
      obtain ⟨-, hlist', -⟩ :=
        releaseUsedFrame_spec hlist (Pool.not_free_of_held held) (hheld f held)
      refine ⟨hlist', fun g hg => ?_, fun g hg => hheld g (Pool.mem_give_held held |>.mp hg).1⟩
      rcases List.mem_append.mp hg with hg | hg
      · exact hfree g hg
      · rw [List.mem_singleton.mp hg]
        exact hheld f held
  | @write m m' pool f h notFree writes ih =>
      obtain ⟨hlist, hsmall⟩ := ih
      refine ⟨hlist.congr writes.freeFramesHead writes.freeFramesTail fun g hg => ?_, hsmall⟩
      exact writes.frame g fun hgf => notFree (hgf ▸ hg)

/-- What `GetUnusedFrame` does, with entry `r`, when the pool hands out frame `f`. -/
structure FrameTaken (m m' : Machine) (r : PteRef) (f : Nat) : Prop where
  entry : m'.pte r.table r.index = { m.pte r.table r.index with pfn := f }
  others : ∀ t i, ¬ (t = r.table ∧ i = r.index) → m'.pte t i = m.pte t i
  ptbr1 : m'.ptbr1 = m.ptbr1
  frame : m'.frame = m.frame

/-- What `ReleaseUsedFrame` leaves alone when frame `f` is released. -/
structure FrameReleased (m m' : Machine) (pool : Pool Nat) (f : Nat) : Prop where
  tables : m'.pte = m.pte
  ptbr1 : m'.ptbr1 = m.ptbr1
  frame : ∀ g ∈ pool.held, g ≠ f → m'.frame g = m.frame g

/-- `GetUnusedFrame` and `ReleaseUsedFrame` are the operations of the pool: the frame that is
handed out is the one that has been free longest, no held frame is written to, and the page
tables are the same but for the entry that was passed. -/
theorem frame_queue (hbrk : kernelBrkPage < KERNEL_STACK_BASE_PAGE)
    (h : Managed kernelBrkPage pmemSize m pool) :
    (∀ r, ((m.getUnusedFrame r).1 = ERROR ↔ pool.take = none) ∧
      (pool.take = none → m.getUnusedFrame r = (ERROR, m))) ∧
    (∀ r f pool', pool.take = some (f, pool') → f ∉ pool.held ∧
      ∃ m', m.getUnusedFrame r = (SUCCESS, m') ∧ FrameTaken m m' r f ∧
        Managed kernelBrkPage pmemSize m' pool') ∧
    ∀ f (hf : f ∈ pool.held), FrameReleased m (m.releaseUsedFrame f) pool f ∧
      Managed kernelBrkPage pmemSize (m.releaseUsedFrame f) (pool.give f hf) := by
  obtain ⟨hlist, hfree, hheld⟩ := h.list hbrk
  have hnone : ∀ r, pool.take = none → m.getUnusedFrame r = (ERROR, m) := by
    intro r hempty
    rw [Pool.take_eq_none] at hempty
    exact getUnusedFrame_nil (hempty ▸ hlist) r
  have hsome : ∀ r f pool', pool.take = some (f, pool') →
      ∃ m', m.getUnusedFrame r = (SUCCESS, m') ∧ FrameTaken m m' r f := by
    intro r f pool' htake
    obtain ⟨hcons, -⟩ := Pool.take_eq_some htake
    obtain ⟨head, tail, tlb, m', hget, rfl, -⟩ := getUnusedFrame_cons (hcons ▸ hlist) r
    exact ⟨_, hget, setPte_pte_self m _ _ _, fun t i hne => setPte_pte_of_ne m _ hne, rfl, rfl⟩
  refine ⟨fun r => ⟨⟨fun herr => ?_, fun hempty => by rw [hnone r hempty]⟩, hnone r⟩,
    fun r f pool' htake => ⟨?_, ?_⟩, fun f hf => ⟨?_, .release h hf⟩⟩
  · -- A frame that is there is handed out.
    cases htake : pool.take with
    | none => rfl
    | some fp =>
        obtain ⟨m', hget, -⟩ := hsome r fp.1 fp.2 htake
        rw [hget] at herr
        exact absurd (show SUCCESS = ERROR from herr) (by decide)
  · obtain ⟨hcons, -⟩ := Pool.take_eq_some htake
    exact Pool.not_held_of_free (hcons ▸ List.mem_cons_self)
  · obtain ⟨m', hget, htaken⟩ := hsome r f pool' htake
    refine ⟨m', hget, htaken, ?_⟩
    have hnext := Managed.get (r := r) h htake
    rwa [hget] at hnext
  · obtain ⟨hsame, -, hframe⟩ :=
      releaseUsedFrame_spec hlist (Pool.not_free_of_held hf) (hheld f hf)
    exact ⟨hsame.pte, hsame.ptbr1, fun g hg hgf => hframe g (Pool.not_free_of_held hg) hgf⟩

/-- A machine before `InitializePhysicalMemoryManagement`, whose kernel ends at page 110. -/
def blankMachine : Machine where
  frame := fun _ _ => 0
  pte := fun _ _ => {}
  ptbr1 := .region1 IDLE_PID
  freeFramesHead := 0
  freeFramesTail := 0
  kernelBrkPage := 110
  virtualMemoryEnabled := true

/-- After the start on a small machine its lowest frame has been handed out, and the holder has
written a byte to it. -/
def firstFrameUsed : Machine :=
  ((blankMachine.initializePhysicalMemoryManagement 0x110000).getUnusedFrame
    ⟨.region0, 110⟩).2.setByte 110 0 7

/-- The next frame that is handed out is the second one, and the first goes behind the others
when its holder releases it. -/
theorem frame_queue_first : ∃ pool : Pool Nat, Managed 110 0x110000 firstFrameUsed pool ∧
    pool.free = (initialFree 110 0x110000).tail ∧ pool.held = [110] ∧
    (∃ m', firstFrameUsed.getUnusedFrame ⟨.region0, 111⟩ = (SUCCESS, m') ∧
      FrameTaken firstFrameUsed m' ⟨.region0, 111⟩ 111) ∧
    FrameReleased firstFrameUsed (firstFrameUsed.releaseUsedFrame 110) pool 110 ∧
    ∃ pool', Managed 110 0x110000 (firstFrameUsed.releaseUsedFrame 110) pool' ∧
      pool'.free = (initialFree 110 0x110000).tail ++ [110] := by
  have hnodup : (initialFree 110 0x110000).Nodup := by decide
  have hfull : initialFree 110 0x110000 = 110 :: (initialFree 110 0x110000).tail := by decide
  have hstart : Managed 110 0x110000 _ _ := .start (m := blankMachine) rfl hnodup
  cases htake : (Pool.ofFree (initialFree 110 0x110000) hnodup).take with
  | none =>
      have hempty : initialFree 110 0x110000 = [] := Pool.take_eq_none.mp htake
      exact absurd (hfull.symm.trans hempty) (List.cons_ne_nil _ _)
  | some fp =>
      obtain ⟨f, pool⟩ := fp
      obtain ⟨hcons, hheld⟩ := Pool.take_eq_some htake
      obtain ⟨rfl, hfree⟩ := List.cons.inj (hfull.symm.trans hcons)
      have hmem : 110 ∈ pool.held := hheld ▸ List.mem_cons_self
      have hused : Managed 110 0x110000 firstFrameUsed pool :=
        .write (.get hstart htake) (Pool.not_free_of_held hmem) (writesFrame_setByte _ _ _ _)
      obtain ⟨-, hget, hrelease⟩ := frame_queue (by decide) hused
      obtain ⟨hreleased, hgiven⟩ := hrelease 110 hmem
      refine ⟨pool, hused, hfree.symm, hheld, ?_, hreleased, _, hgiven,
        congrArg (· ++ [110]) hfree.symm⟩
      cases hnext : pool.take with
      | none =>
          rw [Pool.take_eq_none, ← hfree] at hnext
          exact absurd hnext (by decide)
      | some gp =>
          obtain ⟨-, m', hok, htaken, -⟩ := hget ⟨.region0, 111⟩ gp.1 gp.2 hnext
          have hsecond : gp.1 = 111 := by
            have hhead := congrArg List.head? (hfree.trans (Pool.take_eq_some hnext).1)
            exact (Option.some.inj hhead).symm
          exact ⟨m', hok, hsecond ▸ htaken⟩

/-! ## The frames at the start -/

/-- The free list enumerates the frames from the kernel break to the end of memory that do
not hold the kernel stack. -/
def AllManaged (m : Machine) (kernelBrkPage pmemSize : Nat) : Prop :=
  ∃ free, m.FreeList free ∧ free.Nodup ∧ ∀ f, f ∈ free ↔
    kernelBrkPage ≤ f ∧ (f : Int) ≤ ((pmemSize >>> PAGESHIFT : Nat) : Int) - 1 ∧
      ¬ (addrToPage KERNEL_STACK_BASE ≤ f ∧ f < addrToPage KERNEL_STACK_LIMIT)

/-- All memory is put under management exactly when there is no whole frame above the kernel
stack. -/
theorem all_memory_managed_iff (hbrk : m.kernelBrkPage < KERNEL_STACK_BASE_PAGE)
    (hreach : KERNEL_STACK_LIMIT ≤ pmemSize) (hsize : pmemSize < 0x100000000) :
    (m.initializePhysicalMemoryManagement pmemSize).AllManaged m.kernelBrkPage pmemSize ↔
      pmemSize < KERNEL_STACK_LIMIT + PAGESIZE := by
  obtain ⟨-, hlist⟩ := initializePhysicalMemoryManagement_spec hbrk pmemSize
  have hbrk' : m.kernelBrkPage < 126 := hbrk
  have hreach' : 0x100000 ≤ pmemSize := hreach
  have hbase : addrToPage KERNEL_STACK_BASE = 126 := addrToPage_eq _
  have hlimit : addrToPage KERNEL_STACK_LIMIT = 128 := addrToPage_eq _
  have hpages : pmemSize >>> PAGESHIFT = pmemSize / 8192 := Nat.shiftRight_eq_div_pow _ _
  have hmod : pmemSize % 0x100000000 = pmemSize := Nat.mod_eq_of_lt hsize
  unfold AllManaged
  rw [hbase, hlimit, hpages]
  constructor
  · -- Frame 128 is never on the list.
    rintro ⟨free, hfree, -, hmem⟩
    obtain rfl := hlist.unique hfree
    by_contra hlarge
    have hlarge' : ¬ pmemSize < 0x102000 := hlarge
    have h128 := mem_initialFree.mp ((hmem 128).mpr (by omega))
    omega
  · intro hsmall
    have hsmall' : pmemSize < 0x102000 := hsmall
    refine ⟨_, hlist, hlist.nodup, fun f => ?_⟩
    rw [mem_initialFree, hmod]
    omega

/-- On a machine of 136 frames, frame 128 is not managed. -/
theorem all_memory_managed_fails :
    ¬ (blankMachine.initializePhysicalMemoryManagement 0x110000).AllManaged 110 0x110000 := by
  intro h
  obtain ⟨free, hfree, -, hmem⟩ := h
  obtain ⟨-, hlist⟩ := initializePhysicalMemoryManagement_spec
    (m := blankMachine) (by decide) 0x110000
  obtain rfl := hlist.unique hfree
  have h128 := (hmem 128).mpr (by decide)
  exact absurd h128 (by decide)

/-- On a machine whose memory ends with the kernel stack, all memory is managed. -/
theorem all_memory_managed_small :
    (blankMachine.initializePhysicalMemoryManagement 0x100000).AllManaged 110 0x100000 :=
  (all_memory_managed_iff (m := blankMachine) (by decide) (by decide) (by decide)).mpr (by decide)

end

end Machine

end Theynix
