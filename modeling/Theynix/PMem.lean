import Mathlib.Data.List.Nodup
import Theynix.Hardware
import Theynix.Lib.Walk

/-!
# `Theynix.PMem`: the free frames (`PMem.c`)

The free frames form a linked list whose links are words inside the frames themselves: word
0 of a free frame is the number of the next free frame, word 1 the number of the previous
one. `free_frames_head` and `free_frames_tail` are the ends, `-1` when the list is empty.
The kernel reaches a frame by mapping it as page 0 of the table in `REG_PTBR1` and then
putting the entry back.

`Machine.FreeList m free` says that following word 0 from the head to the tail passes
through the frames `free`. The principal results are the specifications of the two entry
points: `getUnusedFrame_nil` and `getUnusedFrame_cons` (the first frame of the list is
taken) and `releaseUsedFrame_spec` (the frame joins the list at its end). Both leave every
page table as it was, but for the `pfn` of the entry handed to `getUnusedFrame`, also when
that entry is the borrowed one.
-/

set_option autoImplicit false

namespace Theynix

open Theynix.Lib (Walk)

namespace Machine

/-! ## The source -/

/-- Maps frame `frameA` as page 0 of the table in `REG_PTBR1`, readable and writable. -/
def mapPage0 (m : Machine) (frameA : Int) : Machine :=
  (m.setPte m.ptbr1 0
    { valid := true, prot := PROT_READ ||| PROT_WRITE, pfn := frameA.toNat }).flushPage 0

/-- Remaps page 0 of the table in `REG_PTBR1`. -/
def remapPage0 (m : Machine) (prevPte : Pte) : Machine :=
  (m.setPte m.ptbr1 0 prevPte).flushPage 0

/-- `frame_ptrs[i]`, for `frame_ptrs = (int *) VMEM_1_BASE`: the int read through page 0. -/
def framePtrs (m : Machine) (i : Nat) : Int := m.frameInt (m.pte m.ptbr1 0).pfn (4 * i)

/-- `frame_ptrs[i] = v`. -/
def setFramePtrs (m : Machine) (i : Nat) (v : Int) : Machine :=
  (m.setFrameInt (m.pte m.ptbr1 0).pfn (4 * i) v).access 0

/-- `SetNextAndPrevFreeFrameNumbers`. -/
def setNextAndPrevFreeFrameNumbers (m : Machine) (frameA nextFrameB prevFrameC : Int) :
    Machine :=
  let aWasTail := frameA = m.freeFramesTail
  let aWasHead := frameA = m.freeFramesHead
  -- The frame is reached through page 0, whose entry is put back at the end.
  let prevPte := m.pte m.ptbr1 0
  let m := m.mapPage0 frameA
  let m :=
    if 0 ≤ nextFrameB then
      let m := m.setFramePtrs 0 nextFrameB
      if aWasTail then { m with freeFramesTail := nextFrameB } else m
    else m
  let m :=
    if 0 ≤ prevFrameC then
      let m := m.setFramePtrs 1 prevFrameC
      if aWasHead then { m with freeFramesHead := prevFrameC } else m
    else m
  m.remapPage0 prevPte

/-- `AddToLinkedList`. -/
def addToLinkedList (m : Machine) (frameNumber : Int) : Machine :=
  let m :=
    if m.freeFramesHead < 0 then
      { m with freeFramesHead := frameNumber, freeFramesTail := frameNumber }
    else m
  let prevTail := m.freeFramesTail
  -- This moves the tail to the new frame.
  let m := m.setNextAndPrevFreeFrameNumbers m.freeFramesTail frameNumber (-1)
  m.setNextAndPrevFreeFrameNumbers frameNumber (-1) prevTail

/-- `GetNextFreeFrameNumber`. -/
def getNextFreeFrameNumber (m : Machine) (frameNumber : Int) : Int × Machine :=
  if frameNumber = m.freeFramesTail then (-1, m)
  else
    let prevPte := m.pte m.ptbr1 0
    let m := m.mapPage0 frameNumber
    let nextFrameNumber := m.framePtrs 0
    (nextFrameNumber, (m.access 0).remapPage0 prevPte)

/-- `GetUnusedFrame`. -/
def getUnusedFrame (m : Machine) (r : PteRef) : Int × Machine :=
  if m.freeFramesHead < 0 then (ERROR, m)
  else
    let m := m.setPte r.table r.index
      { m.pte r.table r.index with pfn := m.freeFramesHead.toNat }
    -- The last free frame.
    if m.freeFramesHead = m.freeFramesTail then
      (SUCCESS, { m with freeFramesHead := -1, freeFramesTail := -1 })
    else
      let (nextFrameNumber, m) := m.getNextFreeFrameNumber m.freeFramesHead
      (SUCCESS, { m with freeFramesHead := nextFrameNumber })

/-- `ReleaseUsedFrame`. -/
def releaseUsedFrame (m : Machine) (frameNumber : Nat) : Machine :=
  m.addToLinkedList frameNumber

/-- `AddToLinkedList` on the frames `i`, `i + 1`, up to `i + n - 1`. -/
def addFrames (m : Machine) (i : Nat) : Nat → Machine
  | 0 => m
  | n + 1 => (m.addToLinkedList i).addFrames (i + 1) n

/-- `InitializePhysicalMemoryManagement`. -/
def initializePhysicalMemoryManagement (m : Machine) (pmemSize : Nat) : Machine :=
  let maxFrame : Int := (((pmemSize + PMEM_BASE) % 0x100000000) >>> PAGESHIFT : Nat) - 1
  let m := { m with freeFramesHead := m.kernelBrkPage, freeFramesTail := m.kernelBrkPage }
  -- Up to the kernel stack, and from the page after its limit on.
  let i := m.kernelBrkPage + 1
  let m := m.addFrames i (addrToPage KERNEL_STACK_BASE - i)
  let i := addrToPage KERNEL_STACK_LIMIT + 1
  m.addFrames i (maxFrame + 1 - i).toNat

/-- The page tables, `REG_PTBR1` and the kernel break are the same. -/
structure SameTables (m m' : Machine) : Prop where
  pte : m'.pte = m.pte
  ptbr1 : m'.ptbr1 = m.ptbr1
  kernelBrkPage : m'.kernelBrkPage = m.kernelBrkPage
  virtualMemoryEnabled : m'.virtualMemoryEnabled = m.virtualMemoryEnabled

theorem SameTables.refl (m : Machine) : SameTables m m := ⟨rfl, rfl, rfl, rfl⟩

theorem SameTables.trans {m₁ m₂ m₃ : Machine} (h : SameTables m₁ m₂) (h' : SameTables m₂ m₃) :
    SameTables m₁ m₃ :=
  ⟨h'.pte.trans h.pte, h'.ptbr1.trans h.ptbr1, h'.kernelBrkPage.trans h.kernelBrkPage,
    h'.virtualMemoryEnabled.trans h.virtualMemoryEnabled⟩

/-! ## The list the links describe -/

/-- Word 0 of a frame. -/
def nextFree (m : Machine) (f : Int) : Int := m.frameInt f.toNat 0

/-- Following word 0 of each frame from `free_frames_head` to `free_frames_tail` passes
through the frames `free`. -/
def FreeList (m : Machine) : List Nat → Prop
  | [] => m.freeFramesHead < 0
  | f :: free => Walk m.nextFree m.freeFramesTail m.freeFramesHead
      ((f :: free).map fun g : Nat => (g : Int))

section
variable {m : Machine}

theorem FreeList.eq_nil {free : List Nat} (h : m.FreeList free) (hneg : m.freeFramesHead < 0) :
    free = [] := by
  cases free with
  | nil => rfl
  | cons f free =>
      obtain ⟨t, ht⟩ := Walk.eq_cons h
      rw [List.map_cons, List.cons.injEq] at ht
      omega

/-- A nonempty free list starts at the head. -/
theorem FreeList.head_eq {f : Nat} {free : List Nat} (h : m.FreeList (f :: free)) :
    m.freeFramesHead = f := by
  obtain ⟨t, ht⟩ := Walk.eq_cons h
  rw [List.map_cons, List.cons.injEq] at ht
  exact ht.1.symm

/-- The tail of a nonempty free list is one of its frames. -/
theorem FreeList.tail_mem {f : Nat} {free : List Nat} (h : m.FreeList (f :: free)) :
    ∃ g ∈ f :: free, m.freeFramesTail = (g : Int) := by
  obtain ⟨g, hg, hgt⟩ := List.mem_map.mp (Walk.last_mem h)
  exact ⟨g, hg, hgt.symm⟩

theorem FreeList.nodup {free : List Nat} (h : m.FreeList free) : free.Nodup := by
  cases free with
  | nil => exact List.nodup_nil
  | cons f free => exact List.Nodup.of_map _ (Walk.nodup h)

/-- The list is the only one the links describe. -/
theorem FreeList.unique {free free' : List Nat} (h : m.FreeList free) (h' : m.FreeList free') :
    free = free' := by
  cases free with
  | nil => exact (h'.eq_nil h).symm
  | cons f free =>
      cases free' with
      | nil => exact h.eq_nil h'
      | cons f' free' =>
          exact List.map_injective_iff.mpr (fun a b hab => Int.ofNat.inj hab) (Walk.unique h h')

/-- The list depends on the ends and on word 0 of its frames. -/
theorem FreeList.congr {m' : Machine} {free : List Nat} (h : m.FreeList free)
    (hhead : m'.freeFramesHead = m.freeFramesHead) (htail : m'.freeFramesTail = m.freeFramesTail)
    (hframe : ∀ f ∈ free, m'.frame f = m.frame f) : m'.FreeList free := by
  cases free with
  | nil =>
      show m'.freeFramesHead < 0
      rw [hhead]
      exact h
  | cons f free =>
      show Walk m'.nextFree m'.freeFramesTail m'.freeFramesHead _
      rw [hhead, htail]
      refine Walk.congr h fun x hx _ => ?_
      obtain ⟨g, hg, rfl⟩ := List.mem_map.mp hx
      simp only [nextFree, frameInt, Int.toNat_natCast, hframe g hg]

end

/-! ## What the helpers do -/

section
variable (m : Machine)

/-- Borrowing page 0: what the TLB has cached of it is dropped, and the table is as it was. -/
theorem remapPage0_mapPage0 (frameA : Int) :
    ((m.mapPage0 frameA).access 0).remapPage0 (m.pte m.ptbr1 0) = m.flushPage 0 := by
  have hpte := congrArg pte (m.setPte_restore m.ptbr1 0
    { valid := true, prot := PROT_READ ||| PROT_WRITE, pfn := frameA.toNat })
  have htlb : (((m.mapPage0 frameA).access 0).remapPage0 (m.pte m.ptbr1 0)).tlb
      = (m.flushPage 0).tlb := by
    funext i
    by_cases h : i = 0 <;> simp [remapPage0, mapPage0, access, flushPage, setPte, h]
  exact congrArg₂ (fun p t => Machine.mk _ p _ _ _ _ _ t) hpte htlb

theorem mapPage0_self (frameA : Int) : (m.mapPage0 frameA).pte (m.mapPage0 frameA).ptbr1 0
    = { valid := true, prot := PROT_READ ||| PROT_WRITE, pfn := frameA.toNat } :=
  setPte_pte_self m m.ptbr1 0 _

/-- Borrowing page 0 to read word 0 of a frame leaves the tables as they were. -/
theorem getNextFreeFrameNumber_eq {f : Int} (h : f ≠ m.freeFramesTail) :
    m.getNextFreeFrameNumber f = (m.nextFree f, m.flushPage 0) := by
  simp only [getNextFreeFrameNumber, if_neg h, remapPage0_mapPage0, framePtrs, mapPage0_self,
    nextFree, Nat.mul_zero]
  rfl

/-- Linking behind frame `a`: word 0 of `a` becomes `b`, and `b` becomes the tail when `a`
was the tail. -/
theorem setNext_eq {a b : Int} (hb : 0 ≤ b) :
    m.setNextAndPrevFreeFrameNumbers a b (-1)
      = { m with
          frame := (m.setFrameInt a.toNat 0 b).frame
          freeFramesTail := if a = m.freeFramesTail then b else m.freeFramesTail
          tlb := (m.flushPage 0).tlb } := by
  have hpte := congrArg pte (m.remapPage0_mapPage0 a)
  have htlb := congrArg tlb (m.remapPage0_mapPage0 a)
  simp only [setNextAndPrevFreeFrameNumbers, setFramePtrs, if_pos hb, mapPage0_self,
    show ¬ (0 : Int) ≤ -1 by decide, if_false]
  split <;> exact congrArg₂ (fun p t => Machine.mk _ p _ _ _ _ _ t) hpte htlb

/-- Linking back from frame `a`: word 1 of `a` becomes `c`, and `c` becomes the head when
`a` was the head. -/
theorem setPrev_eq {a c : Int} (hc : 0 ≤ c) :
    m.setNextAndPrevFreeFrameNumbers a (-1) c
      = { m with
          frame := (m.setFrameInt a.toNat 4 c).frame
          freeFramesHead := if a = m.freeFramesHead then c else m.freeFramesHead
          tlb := (m.flushPage 0).tlb } := by
  have hpte := congrArg pte (m.remapPage0_mapPage0 a)
  have htlb := congrArg tlb (m.remapPage0_mapPage0 a)
  simp only [setNextAndPrevFreeFrameNumbers, setFramePtrs, if_pos hc, mapPage0_self,
    show ¬ (0 : Int) ≤ -1 by decide, if_false]
  split <;> exact congrArg₂ (fun p t => Machine.mk _ p _ _ _ _ _ t) hpte htlb

end

/-! ## The two entry points -/

/-- With no free frame, `getUnusedFrame` fails and changes nothing. -/
theorem getUnusedFrame_nil {m : Machine} (h : m.FreeList []) (r : PteRef) :
    m.getUnusedFrame r = (ERROR, m) := by
  have hneg : m.freeFramesHead < 0 := h
  simp only [getUnusedFrame, if_pos hneg]

/-- Otherwise it puts the first free frame into the entry and takes it off the list. -/
theorem getUnusedFrame_cons {m : Machine} {f : Nat} {free : List Nat}
    (h : m.FreeList (f :: free)) (r : PteRef) :
    ∃ (head tail : Int) (tlb : Nat → List Pte) (m' : Machine),
      m.getUnusedFrame r = (SUCCESS, m') ∧
      m' = { m.setPte r.table r.index { m.pte r.table r.index with pfn := f } with
        freeFramesHead := head, freeFramesTail := tail, tlb := tlb } ∧
      m'.FreeList free := by
  have hhead := h.head_eq
  have hpos : ¬ m.freeFramesHead < 0 := by omega
  by_cases hlast : m.freeFramesHead = m.freeFramesTail
  · -- The only free frame: both ends become `-1`.
    have hnil : free = [] := by
      have hw := h
      simp only [FreeList, ← hlast] at hw
      have hs := Walk.eq_singleton hw
      rw [List.map_cons, List.cons.injEq, List.map_eq_nil_iff] at hs
      exact hs.2
    refine ⟨-1, -1, m.tlb, _, (if_neg hpos).trans ((if_pos hlast).trans ?_), rfl, ?_⟩
    · simp only [hhead, Int.toNat_natCast]
      rfl
    · rw [hnil]
      exact (by decide : (-1 : Int) < 0)
  · refine ⟨m.nextFree m.freeFramesHead, m.freeFramesTail, (m.flushPage 0).tlb, _,
      (if_neg hpos).trans ((if_neg hlast).trans ?_), rfl, ?_⟩
    · simp only [setPte_freeFramesHead]
      rw [getNextFreeFrameNumber_eq _ (by exact hlast)]
      simp only [hhead, Int.toNat_natCast]
      rfl
    · obtain ⟨t, ht, hw⟩ := Walk.tail h hlast
      rw [List.map_cons, List.cons.injEq] at ht
      obtain ⟨g, free', rfl⟩ : ∃ g free', free = g :: free' := by
        cases free with
        | nil => exact absurd (ht.2 ▸ rfl) hw.ne_nil
        | cons g free' => exact ⟨g, free', rfl⟩
      rw [← ht.2] at hw
      exact hw

/-- A frame that is not free joins the list at its end. The links are words of the frame
itself and of the old last frame, so every other frame keeps its contents. -/
theorem releaseUsedFrame_spec {m : Machine} {f : Nat} {free : List Nat} (h : m.FreeList free)
    (hf : f ∉ free) (hlt : f < 0x80000000) :
    SameTables m (m.releaseUsedFrame f) ∧ (m.releaseUsedFrame f).FreeList (free ++ [f]) ∧
      ∀ g, g ∉ free → g ≠ f → (m.releaseUsedFrame f).frame g = m.frame g := by
  have hf0 : (0 : Int) ≤ (f : Int) := Int.natCast_nonneg f
  have hltI : (f : Int) < 0x80000000 := by omega
  cases free with
  | nil =>
      -- The empty list: `f` becomes both ends and is linked to itself.
      have hneg : m.freeFramesHead < 0 := h
      simp only [releaseUsedFrame, addToLinkedList, if_pos hneg, setNext_eq _ hf0,
        setPrev_eq _ hf0, if_true, Int.toNat_natCast]
      refine ⟨⟨rfl, rfl, rfl, rfl⟩, .last, ?_⟩
      intro g _ hg
      rw [setFrameInt_frame_of_ne _ _ _ hg]
      exact setFrameInt_frame_of_ne m 0 f hg
  | cons e free =>
      have hpos : ¬ m.freeFramesHead < 0 := by have := h.head_eq; omega
      obtain ⟨z, hz, htail⟩ := h.tail_mem
      have hz0 : (0 : Int) ≤ (z : Int) := Int.natCast_nonneg z
      have hzf : z ≠ f := fun e => hf (e ▸ hz)
      have hfhead : ¬ (f : Int) = m.freeFramesHead := by
        rw [h.head_eq]
        intro he
        exact hf (by rw [Int.ofNat.inj he]; exact List.mem_cons_self)
      simp only [releaseUsedFrame, addToLinkedList, if_neg hpos, setNext_eq _ hf0, htail,
        setPrev_eq _ hz0, if_true, Int.toNat_natCast, if_neg hfhead]
      refine ⟨⟨rfl, rfl, rfl, rfl⟩, ?_, ?_⟩
      · -- Word 0 of the old tail `z` now names `f`, and no other link forward changed.
        have hw : Walk m.nextFree z m.freeFramesHead ((e :: free).map fun g : Nat => (g : Int)) :=
          htail ▸ h
        show Walk _ (f : Int) m.freeFramesHead ((e :: free ++ [f]).map fun g : Nat => (g : Int))
        rw [List.map_append]
        refine Walk.snoc (Walk.congr hw fun x hx hxz => ?_) ?_ ?_
        · obtain ⟨g, hg, rfl⟩ := List.mem_map.mp hx
          have hgf : g ≠ f := fun e => hf (e ▸ hg)
          have hgz : g ≠ z := fun e => hxz (by rw [e])
          simp only [nextFree, frameInt, Int.toNat_natCast, setFrameInt_frame_of_ne _ _ _ hgf]
          rw [setFrameInt_frame_of_ne m 0 f hgz]
        · intro hmem
          obtain ⟨g, hg, hgf⟩ := List.mem_map.mp hmem
          exact hf (Int.ofNat.inj hgf ▸ hg)
        · simp only [nextFree, frameInt, Int.toNat_natCast, setFrameInt_frame_of_ne _ _ _ hzf]
          exact frameInt_setFrameInt m hf0 hltI
      · intro g hg hgf
        have hgz : g ≠ z := fun e => hg (e ▸ hz)
        rw [setFrameInt_frame_of_ne _ _ _ hgf]
        exact setFrameInt_frame_of_ne m 0 f hgz

/-- `addFrames` puts the frames `i`, ..., `i + n - 1` behind the free ones. -/
theorem addFrames_spec {m : Machine} {free : List Nat} {i n : Nat} (h : m.FreeList free)
    (hlt : ∀ g ∈ free, g < i) (hn : i + n ≤ 0x80000000) :
    SameTables m (m.addFrames i n) ∧ (m.addFrames i n).FreeList (free ++ List.range' i n) := by
  induction n generalizing m free i with
  | zero => exact ⟨.refl m, by simpa [addFrames] using h⟩
  | succ n ih =>
      have hmem : i ∉ free := fun hi => Nat.lt_irrefl i (hlt i hi)
      obtain ⟨hsame, hlist, -⟩ := releaseUsedFrame_spec h hmem (by omega)
      have hlt' : ∀ g ∈ free ++ [i], g < i + 1 := by
        intro g hg
        rcases List.mem_append.mp hg with hg | hg
        · exact Nat.lt_succ_of_lt (hlt g hg)
        · rw [List.mem_singleton.mp hg]
          exact Nat.lt_succ_self i
      obtain ⟨hsame', hlist'⟩ := ih hlist hlt' (by omega)
      refine ⟨hsame.trans hsame', ?_⟩
      rw [List.range'_succ, List.append_cons]
      exact hlist'

/-- The frames the kernel puts on the free list at boot: from the kernel break up to the
kernel stack, and from above frame `ADDR_TO_PAGE(KERNEL_STACK_LIMIT)` to the last one. -/
def initialFree (kernelBrkPage pmemSize : Nat) : List Nat :=
  List.range' kernelBrkPage (KERNEL_STACK_BASE_PAGE - kernelBrkPage)
    ++ List.range' 129 (pmemSize % 0x100000000 / 8192 - 129)

/-- After `InitializePhysicalMemoryManagement` the free list is `initialFree`. -/
theorem initializePhysicalMemoryManagement_spec {m : Machine}
    (hbrk : m.kernelBrkPage < KERNEL_STACK_BASE_PAGE) (pmemSize : Nat) :
    SameTables m (m.initializePhysicalMemoryManagement pmemSize) ∧
      (m.initializePhysicalMemoryManagement pmemSize).FreeList
        (initialFree m.kernelBrkPage pmemSize) := by
  have hone : ({ m with freeFramesHead := m.kernelBrkPage, freeFramesTail := m.kernelBrkPage } :
      Machine).FreeList [m.kernelBrkPage] := .last
  have hbrk' : m.kernelBrkPage < 126 := hbrk
  obtain ⟨hsame, hlist⟩ := addFrames_spec (i := m.kernelBrkPage + 1)
    (n := 126 - (m.kernelBrkPage + 1)) hone (by simp) (by omega)
  have hlow : [m.kernelBrkPage] ++ List.range' (m.kernelBrkPage + 1) (126 - (m.kernelBrkPage + 1))
      = List.range' m.kernelBrkPage (126 - m.kernelBrkPage) := by
    rw [show 126 - m.kernelBrkPage = 126 - (m.kernelBrkPage + 1) + 1 by omega, List.range'_succ]
    rfl
  rw [hlow] at hlist
  obtain ⟨hsame', hlist'⟩ := addFrames_spec (i := 129)
    (n := pmemSize % 0x100000000 / 8192 - 129) hlist
    (fun g hg => by have := List.mem_range'_1.mp hg; omega) (by omega)
  have hcount : ((((pmemSize % 0x100000000) >>> 13 : Nat) : Int) - 1 + 1 - ((129 : Nat) : Int)).toNat
      = pmemSize % 0x100000000 / 8192 - 129 := by
    rw [Nat.shiftRight_eq_div_pow]
    omega
  have hrun : m.initializePhysicalMemoryManagement pmemSize
      = (({ m with freeFramesHead := m.kernelBrkPage, freeFramesTail := m.kernelBrkPage } :
          Machine).addFrames (m.kernelBrkPage + 1) (126 - (m.kernelBrkPage + 1))).addFrames 129
          (pmemSize % 0x100000000 / 8192 - 129) := by
    rw [← hcount]
    rfl
  rw [hrun]
  have hsetup : SameTables m
      { m with freeFramesHead := m.kernelBrkPage, freeFramesTail := m.kernelBrkPage } :=
    ⟨rfl, rfl, rfl, rfl⟩
  exact ⟨(hsetup.trans hsame).trans hsame', hlist'⟩

end Machine

end Theynix
