import Theynix.Frames

/-!
# `Theynix.KernelMemory`: kernel heap, kernel stacks and the copy of an address space

The memory half of `Kernel.c`, of `NewBlankPCBWithPageTables` and of the stack growth in
`TrapMemory`. Each function is followed by the lemma that it keeps `Machine.Isolated`.

`CopyRegion0PageData` and `CopyRegion1PageData` copy a page byte by byte. Source and
destination are whole pages, so `copyPage` copies the frame at once.
-/

set_option autoImplicit false

namespace Theynix

open Theynix.Lib (bind_eq_ok)

namespace Machine

/-! ## The kernel heap -/

/-- The growing loop of `SetKernelBrk`, from `newPage` with `n` pages left. -/
def growKernelHeap (m : Machine) (newPage : Nat) : Nat → Except Stop (Int × Machine)
  | 0 => .ok (SUCCESS, m)
  | n + 1 => do
    let (rc, m) ← m.mapNewRegion0Page newPage
    if rc = ERROR then return (ERROR, m)
    else m.growKernelHeap (newPage + 1) n

/-- The shrinking loop of `SetKernelBrk`: `n` pages, the last one is `newKernelBrkPage`. -/
def shrinkKernelHeap (m : Machine) (newKernelBrkPage : Nat) : Nat → Except Stop Machine
  | 0 => .ok m
  | n + 1 => do
    let pageToFree := newKernelBrkPage + n
    let m ← if pageToFree < KERNEL_STACK_BASE_PAGE then m.unmapUsedRegion0Page pageToFree
      else .ok m
    m.shrinkKernelHeap newKernelBrkPage n

/-- `SetKernelBrk`. -/
def setKernelBrk (m : Machine) (addr : Nat) : Except Stop (Int × Machine) := do
  -- `ADDR_TO_PAGE(addr - 1) + 1`
  let newKernelBrkPage := addrToPage ((addr + 0xFFFFFFFF) % 0x100000000) + 1
  if addr > KERNEL_STACK_BASE then return (-1, m)
  else if m.virtualMemoryEnabled then
    if newKernelBrkPage > m.kernelBrkPage then
      let (rc, m) ← m.growKernelHeap m.kernelBrkPage
        (min newKernelBrkPage KERNEL_STACK_BASE_PAGE - m.kernelBrkPage)
      if rc = ERROR then return (-1, m)
      else return (0, { m with kernelBrkPage := newKernelBrkPage })
    else if newKernelBrkPage < m.kernelBrkPage then
      let m ← m.shrinkKernelHeap newKernelBrkPage (m.kernelBrkPage - newKernelBrkPage)
      return (0, { m with kernelBrkPage := newKernelBrkPage })
    else return (0, { m with kernelBrkPage := newKernelBrkPage })
  -- Without virtual memory the break is only recorded.
  else return (0, { m with kernelBrkPage := newKernelBrkPage })

/-! ## Kernel stacks -/

/-- Copies the page at entry `src` to the page at entry `dst`. -/
def copyPage (m : Machine) (src dst : Pte) : Except Stop Machine :=
  if src.valid = true ∧ src.prot &&& PROT_READ = PROT_READ ∧
      dst.valid = true ∧ dst.prot &&& PROT_WRITE = PROT_WRITE then
    .ok { m with frame := fun f off =>
      if f = dst.pfn ∧ off < PAGESIZE then m.frame src.pfn off else m.frame f off }
  else .error .fault

/-- `CopyRegion0PageData`. -/
def copyRegion0PageData (m : Machine) (sourcePageNumber destPageNumber : Nat) :
    Except Stop Machine :=
  m.copyPage (m.pte .region0 sourcePageNumber) (m.pte .region0 destPageNumber)

/-- `CopyRegion1PageData`. -/
def copyRegion1PageData (m : Machine) (sourcePageNumber destPageNumber : Nat) :
    Except Stop Machine :=
  ((m.access sourcePageNumber).access destPageNumber).copyPage (m.pte m.ptbr1 sourcePageNumber)
    (m.pte m.ptbr1 destPageNumber)

/-- `UseKernelStackForProc`. -/
def useKernelStackForProc (m : Machine) (pid : Nat) : Machine :=
  (List.range NUM_KERNEL_PAGES).foldl
    (fun m i => m.setPte .region0 (KERNEL_STACK_BASE_PAGE + i) (m.pte (.kernelStack pid) i)) m

/-- `CopyKernelStackPageTableAndData`. -/
def copyKernelStackPageTableAndData (m : Machine) (source dest : Nat) : Except Stop Machine := do
  let base := KERNEL_STACK_BASE_PAGE
  -- The last page is copied through the entry of the first one, which is then put back.
  let m := m.setPte .region0 base (m.pte (.kernelStack dest) (NUM_KERNEL_PAGES - 1))
  let m ← m.copyRegion0PageData (base + NUM_KERNEL_PAGES - 1) base
  let m := m.setPte .region0 base (m.pte (.kernelStack source) 0)
  -- Page `i` is copied through the entry of page `i + 1`, the highest page first.
  (List.range (NUM_KERNEL_PAGES - 1)).reverse.foldlM
    (fun m i => (m.setPte .region0 (base + i + 1)
      (m.pte (.kernelStack dest) i)).copyRegion0PageData (base + i) (base + i + 1)) m

/-- The rollback of `NewBlankPCBWithPageTables`: frees the first `i` entries. -/
def releaseKernelStack (m : Machine) (pid i : Nat) : Machine :=
  (List.range i).foldl (fun m j => m.freeEntry (.kernelStack pid) j) m

/-- The loop of `NewBlankPCBWithPageTables`, from entry `i` with `n` entries left. -/
def newKernelStackLoop (m : Machine) (pid i : Nat) : Nat → Int × Machine
  | 0 => (SUCCESS, m)
  | n + 1 =>
    let (rc, m) := m.getUnusedFrame ⟨.kernelStack pid, i⟩
    if rc = ERROR then
      (ERROR, m.releaseKernelStack pid i)
    else
      (m.modifyPte (.kernelStack pid) i fun e =>
        { e with prot := PROT_READ ||| PROT_WRITE, valid := true }).newKernelStackLoop pid
          (i + 1) n

/-- The page tables of `NewBlankPCBWithPageTables`: `ERROR` when it returns `NULL`. -/
def newPageTables (m : Machine) (pid : Nat) : Int × Machine :=
  let m := m.createRegion1PageTable pid
  let m := m.callocPageTable (.kernelStack pid) NUM_KERNEL_PAGES
  m.newKernelStackLoop pid 0 NUM_KERNEL_PAGES

/-! ## Copying region 1 -/

/-- The allocating loop of `CopyRegion1PageTableAndData`, from entry `i` with `n` left. -/
def allocRegion1Copy (m : Machine) (source dest i : Nat) : Nat → Int × Machine
  | 0 => (SUCCESS, m)
  | n + 1 =>
    if (m.pte (.region1 source) i).valid then
      let m := m.modifyPte (.region1 dest) i fun e => { e with valid := true, prot := PROT_WRITE }
      let (rc, m) := m.getUnusedFrame ⟨.region1 dest, i⟩
      -- The pages before this one are given back, but not the kernel stack of the child.
      if rc = ERROR then (ERROR, m.freePageTable (.region1 dest) 0 i)
      else m.allocRegion1Copy source dest (i + 1) n
    else m.allocRegion1Copy source dest (i + 1) n

/-- The copying loop: page `i` of the temporary table is copied through page `i + 1`. -/
def copyRegion1Data (m : Machine) (dest : Nat) : Nat → Except Stop Machine
  | 0 => .ok m
  | i + 1 => do
    let m ←
      if (m.pte .tempRegion1 i).valid then
        ((m.setPte .tempRegion1 (i + 1) (m.pte (.region1 dest) i)).flushPage
          (i + 1)).copyRegion1PageData i (i + 1)
      else .ok m
    m.copyRegion1Data dest i

/-- The last loop: the copy gets the permissions of the source. -/
def copyRegion1Prot (m : Machine) (source dest i : Nat) : Nat → Machine
  | 0 => m
  | n + 1 =>
    let m :=
      if (m.pte (.region1 source) i).valid then
        m.modifyPte (.region1 dest) i fun e => { e with prot := (m.pte (.region1 source) i).prot }
      else m
    m.copyRegion1Prot source dest (i + 1) n

/-- Creates the temporary table as a copy of the source table and points `REG_PTBR1` to it. -/
def useTempRegion1 (m : Machine) (source : Nat) : Machine :=
  { m with
    pte := fun t i =>
      if t = PageTable.tempRegion1 ∧ i < NUM_PAGES_REG_1 then m.pte (.region1 source) i
      else m.pte t i
    ptbr1 := .tempRegion1 }.flushRegion1

/-- Copies the last page, through page 0 of the temporary table. -/
def copyLastRegion1Page (m : Machine) (dest : Nat) : Except Stop Machine :=
  if (m.pte .tempRegion1 (NUM_PAGES_REG_1 - 1)).valid then
    ((m.setPte .tempRegion1 0 (m.pte (.region1 dest) (NUM_PAGES_REG_1 - 1))).flushPage
      0).copyRegion1PageData (NUM_PAGES_REG_1 - 1) 0
  else .ok m

/-- `CopyRegion1PageTableAndData`. -/
def copyRegion1PageTableAndData (m : Machine) (source dest : Nat) :
    Except Stop (Int × Machine) := do
  let (rc, m) := m.allocRegion1Copy source dest 0 NUM_PAGES_REG_1
  if rc = ERROR then return (ERROR, m)
  else
    let m := m.useTempRegion1 source
    let m ← m.copyLastRegion1Page dest
    -- Page 0 of the source is readable again, for the last round of the loop.
    let m := (m.setPte .tempRegion1 0 (m.pte (.region1 source) 0)).flushPage 0
    let m ← m.copyRegion1Data dest (NUM_PAGES_REG_1 - 1)
    let m := m.copyRegion1Prot source dest 0 NUM_PAGES_REG_1
    return (SUCCESS, { m with ptbr1 := .region1 source }.flushRegion1)

/-! ## Stack growth -/

/-- The allocating loop of `TrapMemory`: the `n` pages from `addrPage` on, the highest one
first. With `addrPage = 0` the unsigned page number wraps around below 0, and the next
entry it names is outside memory. -/
def growStack (m : Machine) (pid addrPage : Nat) : Nat → Except Stop (Int × Machine)
  | 0 => if addrPage = 0 then .error .fault else .ok (SUCCESS, m)
  | n + 1 => do
    let pageToAlloc := addrPage + n
    let (rc, m) := m.getUnusedFrame ⟨.region1 pid, pageToAlloc⟩
    if rc = ERROR then return (ERROR, m)
    else
      -- The frame is in the entry already when the entry is checked.
      cAssert (!(m.pte (.region1 pid) pageToAlloc).valid)
      let m := m.modifyPte (.region1 pid) pageToAlloc fun e =>
        { e with valid := true, prot := PROT_READ ||| PROT_WRITE }
      m.growStack pid addrPage n

/-! ## The slots that count -/

/-- The page table entries that count as holding a frame: the region 0 entries below the
kernel stack, and both tables of the processes in `live`. -/
def ownedBy (live : Nat → Bool) (r : PteRef) : Bool :=
  match r.table with
  | .region0 => r.index < KERNEL_STACK_BASE_PAGE
  | .region1 pid => live pid && decide (r.index < NUM_PAGES_REG_1)
  | .kernelStack pid => live pid && decide (r.index < NUM_KERNEL_PAGES)
  | .tempRegion1 => false

section
variable {m m' : Machine} {live : Nat → Bool} {free : List Nat} {pid : Nat}

theorem ownedBy_region1 (h : live pid = true) :
    ∀ i < NUM_PAGES_REG_1, ownedBy live ⟨.region1 pid, i⟩ := by
  intro i hi
  simp [ownedBy, h, hi]

theorem ownedBy_kernelStack (h : live pid = true) :
    ∀ i < NUM_KERNEL_PAGES, ownedBy live ⟨.kernelStack pid, i⟩ := by
  intro i hi
  simp [ownedBy, h, hi]

theorem ownedBy_region0 {i : Nat} (h : i < KERNEL_STACK_BASE_PAGE) :
    ownedBy live ⟨.region0, i⟩ := by
  simpa [ownedBy] using h

/-- Fewer live processes hold fewer frames. -/
theorem held_ownedBy_mono {live' : Nat → Bool} (hsub : ∀ p, live' p = true → live p = true)
    {r : PteRef} {f : Nat} (h : m.held (ownedBy live') r = some f) :
    m.held (ownedBy live) r = some f := by
  rw [held_eq_some] at h ⊢
  refine ⟨?_, h.2⟩
  have hown := h.1
  obtain ⟨t, i⟩ := r
  cases t <;> simp only [ownedBy, Bool.and_eq_true] at hown ⊢
  · exact hown
  · exact ⟨hsub _ hown.1, hown.2⟩
  · exact ⟨hsub _ hown.1, hown.2⟩
  · exact hown

/-- Processes may leave the set of live ones: their frames are lost. -/
theorem Isolated.forget {live' : Nat → Bool} (h : m.Isolated (ownedBy live) free)
    (hsub : ∀ p, live' p = true → live p = true) : m.Isolated (ownedBy live') free :=
  h.mono h.list (held_ownedBy_mono hsub)

/-- Changing an entry that does not count changes nothing. -/
theorem Isolated.setPte_unowned {own : PteRef → Bool} {r : PteRef} (h : m.Isolated own free)
    (hr : own r = false) (e : Pte) : (m.setPte r.table r.index e).Isolated own free := by
  refine h.mono (h.list.setPte _ _ _) fun {r' f} hr' => ?_
  by_cases hrr : r' = r
  · rw [held_eq_some, hrr, hr] at hr'
    exact absurd hr'.1 (by simp)
  · rwa [held_setPte_of_ne e hrr] at hr'

/-- Copying onto a page that some slot holds leaves the free frames alone. -/
theorem Isolated.copyPage {own : PteRef → Bool} {src dst : Pte} {r : PteRef}
    (h : m.Isolated own free) (hown : own r) (hdst : dst = m.pte r.table r.index)
    (hok : m.copyPage src dst = .ok m') : m'.Isolated own free ∧ SameTables m m' := by
  unfold Machine.copyPage at hok
  split at hok
  case isFalse => cases hok
  case isTrue hc =>
      cases hok
      have hheld : m.held own r = some dst.pfn := by
        rw [held_eq_some, ← hdst]
        exact ⟨hown, hc.2.2.1, rfl⟩
      refine ⟨h.congr rfl rfl rfl fun f hf => ?_, ⟨rfl, rfl, rfl, rfl⟩⟩
      have hne : f ≠ dst.pfn := fun e => h.exclusive.notFree hheld (e ▸ hf)
      funext off
      simp [hne]

/-- `FreeRegion1PageTable` empties the table and gives its frames back. -/
theorem Isolated.freeRegion1PageTable (h : m.Isolated (ownedBy live) free)
    (hlive : live pid = true) :
    ∃ free', (m.freeRegion1PageTable pid).Isolated (ownedBy live) free' ∧
      OnlyTable (.region1 pid) m (m.freeRegion1PageTable pid) ∧
      free'.length = free.length + m.validCount (.region1 pid) 0 NUM_PAGES_REG_1 ∧
      ∀ i < NUM_PAGES_REG_1, ((m.freeRegion1PageTable pid).pte (.region1 pid) i).valid = false := by
  rw [Machine.freeRegion1PageTable]
  obtain ⟨free', hiso, honly, hlen, hin, -⟩ := h.freePageTable (t := .region1 pid) (i := 0)
    (n := NUM_PAGES_REG_1) fun j _ hj => ownedBy_region1 hlive j (by omega)
  exact ⟨free', hiso, honly, hlen, fun i hi => hin i (Nat.zero_le i) (by omega)⟩

/-- `FreeRegion0StackPages` empties the table and gives its frames back. -/
theorem Isolated.freeRegion0StackPages (h : m.Isolated (ownedBy live) free)
    (hlive : live pid = true) :
    ∃ free', (m.freeRegion0StackPages pid).Isolated (ownedBy live) free' ∧
      OnlyTable (.kernelStack pid) m (m.freeRegion0StackPages pid) := by
  rw [Machine.freeRegion0StackPages]
  obtain ⟨free', hiso, honly, -⟩ := h.freePageTable (t := .kernelStack pid) (i := 0)
    (n := NUM_KERNEL_PAGES) fun j _ hj => ownedBy_kernelStack hlive j (by omega)
  exact ⟨free', hiso, honly⟩

/-- A store by virtual address goes to a frame the running process holds. -/
theorem Isolated.storeByte {va : Nat} {b : Byte} (h : m.Isolated (ownedBy live) free)
    (hlive : live pid = true) (hptbr1 : m.ptbr1 = .region1 pid)
    (hok : m.storeByte va b = .ok m') : m'.Isolated (ownedBy live) free ∧ SameTables m m' := by
  unfold Machine.storeByte translate at hok
  split at hok
  case isFalse => cases hok
  case isTrue hva =>
      dsimp only at hok
      split at hok
      case isFalse => cases hok
      case isTrue hvalid =>
          cases hok
          have hpage : addrToPage (va - VMEM_1_BASE) < NUM_PAGES_REG_1 := by
            have h₁ : va < 0x200000 := hva.2
            rw [addrToPage_eq]
            show (va - 0x100000) / 8192 < 128
            omega
          rw [hptbr1] at hvalid ⊢
          have hheld : m.held (ownedBy live) ⟨.region1 pid, addrToPage (va - VMEM_1_BASE)⟩
              = some (m.pte (.region1 pid) (addrToPage (va - VMEM_1_BASE))).pfn :=
            held_eq_some.mpr ⟨ownedBy_region1 hlive _ hpage, hvalid.1, rfl⟩
          refine ⟨h.congr rfl rfl rfl fun f hf => ?_, ⟨rfl, rfl, rfl, rfl⟩⟩
          have hne : f ≠ (m.pte (.region1 pid) (addrToPage (va - VMEM_1_BASE))).pfn :=
            fun e => h.exclusive.notFree hheld (e ▸ hf)
          funext off
          exact setByte_frame_of_ne m _ off b hne

theorem storeByte_sameTables {va : Nat} {b : Byte} (hok : m.storeByte va b = .ok m') :
    SameTables m m' := by
  obtain ⟨_, -, hret⟩ := bind_eq_ok.mp hok
  cases hret
  exact ⟨rfl, rfl, rfl, rfl⟩

theorem storeBytes_sameTables {va : Nat} {bs : List Byte} (hok : m.storeBytes va bs = .ok m') :
    SameTables m m' := by
  induction bs generalizing m va with
  | nil =>
      cases hok
      exact .refl _
  | cons b bs ih =>
      obtain ⟨m₁, hstore, hrest⟩ := bind_eq_ok.mp hok
      exact (storeByte_sameTables hstore).trans (ih hrest)

theorem Isolated.storeBytes {va : Nat} {bs : List Byte} (h : m.Isolated (ownedBy live) free)
    (hlive : live pid = true) (hptbr1 : m.ptbr1 = .region1 pid)
    (hok : m.storeBytes va bs = .ok m') : m'.Isolated (ownedBy live) free ∧ SameTables m m' := by
  induction bs generalizing m va with
  | nil =>
      cases hok
      exact ⟨h, .refl _⟩
  | cons b bs ih =>
      obtain ⟨m₁, hstore, hrest⟩ := bind_eq_ok.mp hok
      obtain ⟨hiso, hsame⟩ := h.storeByte hlive hptbr1 hstore
      obtain ⟨hiso', hsame'⟩ := ih hiso (hsame.ptbr1.trans hptbr1) hrest
      exact ⟨hiso', hsame.trans hsame'⟩

/-- `memset` with zero stores a list of zero bytes. -/
theorem storeZeros_eq (m : Machine) (va n : Nat) :
    m.storeZeros va n = m.storeBytes va (List.replicate n 0) := by
  induction n generalizing m va with
  | zero => rfl
  | succ n ih =>
      simp only [storeZeros, List.replicate_succ, Machine.storeBytes, ih]

/-! ## The kernel heap -/

theorem Isolated.growKernelHeap {own : PteRef → Bool} {p n : Nat} {rc : Int}
    (h : m.Isolated own free) (hok : m.growKernelHeap p n = .ok (rc, m')) :
    ∃ free', m'.Isolated own free' ∧ OnlyTable .region0 m m' := by
  induction n generalizing m free p with
  | zero =>
      cases hok
      exact ⟨free, h, .refl⟩
  | succ n ih =>
      simp only [Machine.growKernelHeap, bind_eq_ok] at hok
      obtain ⟨⟨rc₁, m₁⟩, hmap, hrest⟩ := hok
      obtain ⟨free₁, hiso, honly⟩ := h.mapNewRegion0Page hmap
      dsimp only at hrest
      split at hrest
      · cases hrest
        exact ⟨free₁, hiso, honly⟩
      · obtain ⟨free', hiso', honly'⟩ := ih hiso hrest
        exact ⟨free', hiso', honly.trans honly'⟩

theorem Isolated.shrinkKernelHeap {p n : Nat} (h : m.Isolated (ownedBy live) free)
    (hok : m.shrinkKernelHeap p n = .ok m') :
    ∃ free', m'.Isolated (ownedBy live) free' ∧ OnlyTable .region0 m m' := by
  induction n generalizing m free with
  | zero =>
      cases hok
      exact ⟨free, h, .refl⟩
  | succ n ih =>
      simp only [Machine.shrinkKernelHeap] at hok
      split at hok
      · rename_i hlt
        obtain ⟨m₁, hun, hrest⟩ := bind_eq_ok.mp hok
        obtain ⟨free₁, hiso, honly⟩ := h.unmapUsedRegion0Page (ownedBy_region0 hlt) hun
        obtain ⟨free', hiso', honly'⟩ := ih hiso hrest
        exact ⟨free', hiso', honly.trans honly'⟩
      · exact ih h hok

/-- `SetKernelBrk` moves frames between the free list and the kernel heap. -/
theorem Isolated.setKernelBrk {addr : Nat} {rc : Int} (h : m.Isolated (ownedBy live) free)
    (hok : m.setKernelBrk addr = .ok (rc, m')) :
    ∃ free', m'.Isolated (ownedBy live) free' ∧ m'.ptbr1 = m.ptbr1 ∧
      ∀ {t : PageTable}, t ≠ .region0 → ∀ i, m'.pte t i = m.pte t i := by
  unfold Machine.setKernelBrk at hok
  dsimp only at hok
  split at hok
  · cases hok
    exact ⟨free, h, rfl, fun _ _ => rfl⟩
  split at hok
  case isFalse =>
      cases hok
      exact ⟨free, h.congr rfl rfl rfl fun _ _ => rfl, rfl, fun _ _ => rfl⟩
  split at hok
  · rw [bind_eq_ok] at hok
    obtain ⟨⟨rc₁, m₁⟩, hgrow, hrest⟩ := hok
    obtain ⟨free', hiso, honly⟩ := h.growKernelHeap hgrow
    dsimp only at hrest
    split at hrest <;> cases hrest
    · exact ⟨free', hiso, honly.ptbr1, honly.pte⟩
    · exact ⟨free', hiso.congr rfl rfl rfl fun _ _ => rfl, honly.ptbr1, honly.pte⟩
  split at hok
  · rw [bind_eq_ok] at hok
    obtain ⟨m₁, hshrink, hrest⟩ := hok
    obtain ⟨free', hiso, honly⟩ := h.shrinkKernelHeap hshrink
    cases hrest
    exact ⟨free', hiso.congr rfl rfl rfl fun _ _ => rfl, honly.ptbr1, honly.pte⟩
  · cases hok
    exact ⟨free, h.congr rfl rfl rfl fun _ _ => rfl, rfl, fun _ _ => rfl⟩

/-! ## Kernel stacks -/

theorem ownedBy_kernelStackPages {i : Nat} (h : KERNEL_STACK_BASE_PAGE ≤ i) :
    ownedBy live ⟨.region0, i⟩ = false := by
  have h' : 126 ≤ i := h
  simp only [ownedBy, decide_eq_false_iff_not]
  omega

/-- The entries of the kernel stack in the region 0 table do not count. -/
theorem Isolated.useKernelStackForProc (h : m.Isolated (ownedBy live) free) (pid : Nat) :
    (m.useKernelStackForProc pid).Isolated (ownedBy live) free ∧
      (m.useKernelStackForProc pid).ptbr1 = m.ptbr1 :=
  ⟨(h.setPte_unowned (r := ⟨.region0, 126⟩) (ownedBy_kernelStackPages (by decide)) _).setPte_unowned
    (r := ⟨.region0, 127⟩) (ownedBy_kernelStackPages (by decide)) _, rfl⟩

theorem useKernelStack_onlyTable (m : Machine) (pid : Nat) :
    OnlyTable .region0 m (m.useKernelStackForProc pid) :=
  (OnlyTable.setPte 126 _).trans (.setPte 127 _)

theorem copyPage_sameTables {src dst : Pte} (hok : m.copyPage src dst = .ok m') :
    SameTables m m' := by
  unfold Machine.copyPage at hok
  split at hok
  · cases hok
    exact ⟨rfl, rfl, rfl, rfl⟩
  · cases hok

theorem copyKernelStack_onlyTable {source dest : Nat}
    (hok : m.copyKernelStackPageTableAndData source dest = .ok m') :
    OnlyTable .region0 m m' := by
  obtain ⟨m₁, hcopy, hrest⟩ := bind_eq_ok.mp hok
  obtain ⟨m₂, hcopy₂, hm'⟩ := bind_eq_ok.mp hrest
  cases hm'
  have h₁ := (OnlyTable.setPte (m := m) 126 _).trans (.of_sameTables (copyPage_sameTables hcopy))
  have h₂ := ((OnlyTable.setPte (m := m₁) 126 _).trans (.setPte 127 _)).trans
    (.of_sameTables (copyPage_sameTables hcopy₂))
  exact h₁.trans h₂

/-- Copying a kernel stack writes to the frames of the new kernel stack. -/
theorem Isolated.copyKernelStackPageTableAndData {source dest : Nat}
    (h : m.Isolated (ownedBy live) free) (hlive : live dest = true)
    (hok : m.copyKernelStackPageTableAndData source dest = .ok m') :
    m'.Isolated (ownedBy live) free ∧ m'.ptbr1 = m.ptbr1 := by
  simp only [Machine.copyKernelStackPageTableAndData, bind_eq_ok] at hok
  obtain ⟨m₁, hcopy, hrest⟩ := hok
  have hbase : ownedBy live ⟨.region0, 126⟩ = false := ownedBy_kernelStackPages (by decide)
  have hnext : ownedBy live ⟨.region0, 127⟩ = false := ownedBy_kernelStackPages (by decide)
  obtain ⟨hiso₁, hsame₁⟩ := (h.setPte_unowned hbase (m.pte (.kernelStack dest) 1)).copyPage
    (r := ⟨.kernelStack dest, 1⟩) (ownedBy_kernelStack hlive 1 (by decide)) (by simp [setPte])
    hcopy
  obtain ⟨m₂, hcopy₂, hm'⟩ := bind_eq_ok.mp hrest
  cases hm'
  obtain ⟨hiso₂, hsame₂⟩ := ((hiso₁.setPte_unowned hbase
    (m₁.pte (.kernelStack source) 0)).setPte_unowned hnext _).copyPage
    (r := ⟨.kernelStack dest, 0⟩) (ownedBy_kernelStack hlive 0 (by decide)) (by simp [setPte])
    hcopy₂
  exact ⟨hiso₂, hsame₂.ptbr1.trans hsame₁.ptbr1⟩

/-- Fresh page tables hold nothing, so a process with fresh tables may join. -/
theorem Isolated.callocPageTables (h : m.Isolated (ownedBy live) free) (hpid : live pid = false) :
    ((m.createRegion1PageTable pid).callocPageTable (.kernelStack pid)
      NUM_KERNEL_PAGES).Isolated (ownedBy fun p => live p || decide (p = pid)) free := by
  refine h.mono (h.list.congr rfl rfl fun _ _ => rfl) fun {r f} hr => ?_
  rw [held_eq_some] at hr ⊢
  obtain ⟨hown, hvalid, hpfn⟩ := hr
  obtain ⟨t, i⟩ := r
  cases t with
  | region0 =>
      exact ⟨hown, hvalid, hpfn⟩
  | tempRegion1 => exact ⟨hown, hvalid, hpfn⟩
  | region1 p =>
      by_cases hp : p = pid
      · subst hp
        simp only [ownedBy, Bool.and_eq_true, decide_eq_true_eq] at hown
        simp [createRegion1PageTable, callocPageTable, hown.2] at hvalid
      · have hne : ¬ (PageTable.region1 p = .region1 pid) := by simp [hp]
        simp only [createRegion1PageTable, callocPageTable, hne, false_and, if_false,
          reduceCtorEq] at hvalid hpfn
        simp only [ownedBy, hp, decide_false, Bool.or_false] at hown
        exact ⟨hown, hvalid, hpfn⟩
  | kernelStack p =>
      by_cases hp : p = pid
      · subst hp
        simp only [ownedBy, Bool.and_eq_true, decide_eq_true_eq] at hown
        simp only [callocPageTable, hown.2, and_self, if_true] at hvalid
        cases hvalid
      · have hne : ¬ (PageTable.kernelStack p = .kernelStack pid) := by simp [hp]
        simp only [createRegion1PageTable, callocPageTable, hne, false_and, if_false,
          reduceCtorEq] at hvalid hpfn
        simp only [ownedBy, hp, decide_false, Bool.or_false] at hown
        exact ⟨hown, hvalid, hpfn⟩

theorem releaseKernelStack_succ (i : Nat) :
    m.releaseKernelStack pid (i + 1)
      = (m.releaseKernelStack pid i).freeEntry (.kernelStack pid) i := by
  rw [releaseKernelStack, List.range_succ, List.foldl_append]
  rfl

/-- Rolling back the first `i` entries of a kernel stack table. -/
theorem Isolated.releaseKernelStack {i : Nat} (h : m.Isolated (ownedBy live) free)
    (hlive : live pid = true) (hi : i ≤ NUM_KERNEL_PAGES)
    (hvalid : ∀ j < i, (m.pte (.kernelStack pid) j).valid = true) :
    ∃ free', (m.releaseKernelStack pid i).Isolated (ownedBy live) free' ∧
      OnlyTable (.kernelStack pid) m (m.releaseKernelStack pid i) ∧
      ∀ j, i ≤ j → (m.releaseKernelStack pid i).pte (.kernelStack pid) j
        = m.pte (.kernelStack pid) j := by
  induction i with
  | zero => exact ⟨free, h, .refl, fun _ _ => rfl⟩
  | succ i ih =>
      obtain ⟨free₁, hiso, honly, hrest⟩ := ih (by omega) fun j hj => hvalid j (by omega)
      have hi' : i < 2 := hi
      have hv := hrest i (Nat.le_refl i) ▸ hvalid i (Nat.lt_succ_self i)
      obtain ⟨hiso₁, honly₁, -, hrest₁⟩ := hiso.freeEntry (ownedBy_kernelStack hlive i hi') hv
      rw [releaseKernelStack_succ]
      refine ⟨_, hiso₁, honly.trans honly₁, fun j hj => ?_⟩
      rw [hrest₁ j (by omega), hrest j (by omega)]

/-- Allocating a kernel stack, from entry `i` on. When it fails, what was taken is given
back. -/
theorem Isolated.newKernelStackLoop {i n : Nat} (h : m.Isolated (ownedBy live) free)
    (hlive : live pid = true) (hi : i + n ≤ NUM_KERNEL_PAGES)
    (hvalid : ∀ j < i, (m.pte (.kernelStack pid) j).valid = true) :
    ∃ free', (m.newKernelStackLoop pid i n).2.Isolated (ownedBy live) free' ∧
      OnlyTable (.kernelStack pid) m (m.newKernelStackLoop pid i n).2 := by
  induction n generalizing m free i with
  | zero => exact ⟨free, h, .refl⟩
  | succ n ih =>
      cases free with
      | nil =>
          obtain ⟨free', hiso, honly, -⟩ :=
            h.releaseKernelStack hlive (Nat.le_trans (Nat.le_add_right i _) hi) hvalid
          simp only [Machine.newKernelStackLoop, getUnusedFrame_nil h.list, if_true]
          exact ⟨free', hiso, honly⟩
      | cons f free =>
          have hget := h.getUnusedFrame ⟨.kernelStack pid, i⟩ (PROT_READ ||| PROT_WRITE)
            (m.pte (.kernelStack pid) i)
          rw [setPte_self] at hget
          obtain ⟨m₁, m₂, hget, -, hm₂, hiso, honly, -, hpte⟩ := hget
          have hstep : m.newKernelStackLoop pid i (n + 1) = m₂.newKernelStackLoop pid (i + 1) n := by
            simp only [Machine.newKernelStackLoop, hget, show ¬ SUCCESS = ERROR by decide, if_false,
              hm₂]
          rw [hstep]
          obtain ⟨free', hiso', honly'⟩ := ih (i := i + 1) hiso (by omega) fun j hj => by
            rw [hpte]
            by_cases hji : j = i
            · subst hji
              rw [setPte_pte_self]
            · rw [setPte_pte_of_ne _ _ fun h => hji h.2]
              exact hvalid j (by omega)
          exact ⟨free', hiso', honly.trans honly'⟩

/-- `NewBlankPCBWithPageTables` gives a process that is not live yet its page tables. -/
theorem Isolated.newPageTables (h : m.Isolated (ownedBy live) free) (hpid : live pid = false) :
    ∃ free', (m.newPageTables pid).2.Isolated (ownedBy fun p => live p || decide (p = pid)) free' ∧
      (m.newPageTables pid).2.ptbr1 = m.ptbr1 := by
  have hself : (live pid || decide (pid = pid)) = true := by simp
  obtain ⟨free', hiso, honly⟩ := (h.callocPageTables hpid).newKernelStackLoop (i := 0)
    (n := NUM_KERNEL_PAGES) hself (by decide) fun j hj => by omega
  exact ⟨free', hiso, honly.ptbr1⟩

/-! ## Copying region 1 -/

/-- When the allocation of the copy fails, what was taken is given back. The entry that
found no frame stays valid and names no frame of its own, so the table is of no use. -/
theorem Isolated.allocRegion1Copy_nil {dest i : Nat} (h : m.Isolated (ownedBy live) [])
    (hlive : live dest = true) (hi : i < NUM_PAGES_REG_1) (e : Pte) :
    ∃ free', ((m.setPte (.region1 dest) i e).freePageTable (.region1 dest) 0 i).Isolated
        (ownedBy fun p => live p && decide (p ≠ dest)) free' ∧
      OnlyTable (.region1 dest) m
        ((m.setPte (.region1 dest) i e).freePageTable (.region1 dest) 0 i) := by
  -- Entry `i` does not count while the entries below it are given back.
  let own : PteRef → Bool := fun r => ownedBy live r && decide (r ≠ ⟨.region1 dest, i⟩)
  have hout : own ⟨.region1 dest, i⟩ = false := by simp [own]
  have h' : m.Isolated own [] := by
    refine h.mono h.list fun hr => ?_
    rw [held_eq_some] at hr ⊢
    simp only [own, Bool.and_eq_true] at hr
    exact ⟨hr.1.1, hr.2⟩
  obtain ⟨free', hiso, honly, -⟩ := (h'.setPte_unowned hout e).freePageTable (t := .region1 dest)
    (i := 0) (n := i) fun j _ hj => by
      have hj' : j < NUM_PAGES_REG_1 := by omega
      have hne : j ≠ i := by omega
      simp [own, ownedBy, hlive, hj', hne]
  refine ⟨free', hiso.mono hiso.list fun {r f} hr => ?_, (OnlyTable.setPte i e).trans honly⟩
  have hsub : ∀ p, (live p && decide (p ≠ dest)) = true → live p = true := by simp_all
  have hlive' := held_ownedBy_mono hsub hr
  rw [held_eq_some] at hr hlive' ⊢
  refine ⟨?_, hr.2⟩
  have hne : r ≠ ⟨.region1 dest, i⟩ := by
    rintro rfl
    simp [ownedBy] at hr
  simp only [own, Bool.and_eq_true, decide_eq_true_eq]
  exact ⟨hlive'.1, hne⟩

/-- Allocating the copy of a region 1 table. -/
theorem Isolated.allocRegion1Copy {source dest i n : Nat} (h : m.Isolated (ownedBy live) free)
    (hlive : live dest = true) (hi : i + n ≤ NUM_PAGES_REG_1) :
    ∃ free', OnlyTable (.region1 dest) m (m.allocRegion1Copy source dest i n).2 ∧
      ((m.allocRegion1Copy source dest i n).1 = SUCCESS ∧
          (m.allocRegion1Copy source dest i n).2.Isolated (ownedBy live) free' ∨
        (m.allocRegion1Copy source dest i n).1 = ERROR ∧
          (m.allocRegion1Copy source dest i n).2.Isolated
            (ownedBy fun p => live p && decide (p ≠ dest)) free') := by
  induction n generalizing m free i with
  | zero => exact ⟨free, .refl, .inl ⟨rfl, h⟩⟩
  | succ n ih =>
      have hi' : i < NUM_PAGES_REG_1 := by omega
      simp only [Machine.allocRegion1Copy]
      split
      case isFalse => exact ih h (by omega)
      case isTrue =>
          cases free with
          | nil =>
              have hnil : (m.modifyPte (.region1 dest) i fun e =>
                  { e with valid := true, prot := PROT_WRITE }).FreeList [] := h.list.setPte _ _ _
              obtain ⟨free', hiso, honly⟩ := h.allocRegion1Copy_nil hlive hi'
                { m.pte (.region1 dest) i with valid := true, prot := PROT_WRITE }
              simp only [getUnusedFrame_nil hnil, if_true]
              exact ⟨free', honly, .inr ⟨trivial, hiso⟩⟩
          | cons f free =>
              obtain ⟨m₁, m₂, hget, hself, hm₂, hiso, honly, -⟩ := h.getUnusedFrame
                ⟨.region1 dest, i⟩ PROT_WRITE
                { m.pte (.region1 dest) i with valid := true, prot := PROT_WRITE }
              have hm : m₂ = m₁ := by
                rw [hm₂, modifyPte, hself]
                exact (congrArg (m₁.setPte (.region1 dest) i) hself.symm).trans (setPte_self _ _ _)
              have hget' : (m.modifyPte (.region1 dest) i fun e =>
                  { e with valid := true, prot := PROT_WRITE }).getUnusedFrame ⟨.region1 dest, i⟩
                  = (SUCCESS, m₁) := hget
              simp only [hget', show ¬ SUCCESS = ERROR by decide, if_false]
              obtain ⟨free', honly', hres⟩ := ih (i := i + 1) (hm ▸ hiso) (by omega)
              exact ⟨free', (hm ▸ honly).trans honly', hres⟩

/-- Copying one page through the temporary table writes to a frame of the copy. -/
theorem Isolated.copyThroughTemp {dest i j k : Nat} (h : m.Isolated (ownedBy live) free)
    (hlive : live dest = true) (hi : i < NUM_PAGES_REG_1) (hptbr1 : m.ptbr1 = .tempRegion1)
    (hok : ((m.setPte .tempRegion1 j (m.pte (.region1 dest) i)).flushPage
      j).copyRegion1PageData k j = .ok m') :
    m'.Isolated (ownedBy live) free ∧ m'.ptbr1 = .tempRegion1 := by
  rw [copyRegion1PageData, flushPage_pte, flushPage_ptbr1, setPte_ptbr1, hptbr1,
    setPte_pte_self] at hok
  have hset := ((((h.setPte_unowned (r := ⟨.tempRegion1, j⟩) rfl
    (m.pte (.region1 dest) i)).flushPage j).access k).access j)
  obtain ⟨hiso, hsame⟩ := hset.copyPage (ownedBy_region1 hlive i hi) (by simp [setPte]) hok
  exact ⟨hiso, hsame.ptbr1.trans hptbr1⟩

theorem Isolated.copyRegion1Data {dest i : Nat} (h : m.Isolated (ownedBy live) free)
    (hlive : live dest = true) (hi : i ≤ NUM_PAGES_REG_1) (hptbr1 : m.ptbr1 = .tempRegion1)
    (hok : m.copyRegion1Data dest i = .ok m') : m'.Isolated (ownedBy live) free := by
  induction i generalizing m with
  | zero =>
      cases hok
      exact h
  | succ i ih =>
      simp only [Machine.copyRegion1Data] at hok
      split at hok
      · obtain ⟨m₁, hcopy, hrest⟩ := bind_eq_ok.mp hok
        obtain ⟨hiso, hptbr1'⟩ := h.copyThroughTemp hlive (by omega) hptbr1 hcopy
        exact ih hiso (by omega) hptbr1' hrest
      · exact ih h (by omega) hptbr1 hok

theorem Isolated.copyRegion1Prot {source dest i n : Nat} (h : m.Isolated (ownedBy live) free) :
    (m.copyRegion1Prot source dest i n).Isolated (ownedBy live) free := by
  induction n generalizing m i with
  | zero => exact h
  | succ n ih =>
      simp only [Machine.copyRegion1Prot]
      split
      case isFalse => exact ih h
      case isTrue =>
          -- Only the permissions of the entry change, so its slot holds what it held.
          refine ih (h.mono (h.list.setPte _ _ _) fun {r f} hr => ?_)
          by_cases hrd : r = ⟨.region1 dest, i⟩
          · subst hrd
            rw [held_eq_some] at hr ⊢
            simpa [modifyPte] using hr
          · rwa [modifyPte, held_setPte_of_ne (r := ⟨.region1 dest, i⟩) _ hrd] at hr

theorem Isolated.useTempRegion1 {source : Nat} (h : m.Isolated (ownedBy live) free) :
    (m.useTempRegion1 source).Isolated (ownedBy live) free := by
  refine h.mono (h.list.congr rfl rfl fun _ _ => rfl) fun {r f} hr => ?_
  rw [held_eq_some] at hr ⊢
  have hne : r.table ≠ .tempRegion1 := by
    intro he
    simp [ownedBy, he] at hr
  simpa [Machine.useTempRegion1, hne] using hr

theorem Isolated.copyLastRegion1Page {dest : Nat} (h : m.Isolated (ownedBy live) free)
    (hlive : live dest = true) (hptbr1 : m.ptbr1 = .tempRegion1)
    (hok : m.copyLastRegion1Page dest = .ok m') :
    m'.Isolated (ownedBy live) free ∧ m'.ptbr1 = .tempRegion1 := by
  unfold Machine.copyLastRegion1Page at hok
  split at hok
  · exact h.copyThroughTemp hlive (by decide) hptbr1 hok
  · cases hok
    exact ⟨h, hptbr1⟩

/-- `CopyRegion1PageTableAndData` returns `SUCCESS` or `ERROR`. -/
theorem copyRegion1_result {source dest : Nat} {rc : Int}
    (hok : m.copyRegion1PageTableAndData source dest = .ok (rc, m')) :
    rc = ERROR ∨ rc = SUCCESS := by
  unfold Machine.copyRegion1PageTableAndData at hok
  dsimp only at hok
  split at hok
  · cases hok
    exact .inl rfl
  · obtain ⟨_, -, hok⟩ := bind_eq_ok.mp hok
    obtain ⟨_, -, hret⟩ := bind_eq_ok.mp hok
    cases hret
    exact .inr rfl

/-- `CopyRegion1PageTableAndData` gives the copy frames of its own, or takes none. -/
theorem Isolated.copyRegion1PageTableAndData {source dest : Nat} {rc : Int}
    (h : m.Isolated (ownedBy live) free) (hlive : live dest = true)
    (hptbr1 : m.ptbr1 = .region1 source)
    (hok : m.copyRegion1PageTableAndData source dest = .ok (rc, m')) :
    ∃ free', m'.ptbr1 = .region1 source ∧
      (rc = SUCCESS ∧ m'.Isolated (ownedBy live) free' ∨
        rc = ERROR ∧ m'.Isolated (ownedBy fun p => live p && decide (p ≠ dest)) free') := by
  obtain ⟨free', honly, hres⟩ := h.allocRegion1Copy (i := 0)
    (n := NUM_PAGES_REG_1) hlive (by decide)
  unfold Machine.copyRegion1PageTableAndData at hok
  generalize m.allocRegion1Copy source dest 0 NUM_PAGES_REG_1 = alloc at hok honly hres
  obtain ⟨rc₀, m₀⟩ := alloc
  rcases hres with ⟨rfl, hiso⟩ | ⟨rfl, hiso⟩
  · simp only [show ¬ SUCCESS = ERROR by decide, if_false] at hok
    obtain ⟨m₁, hlast, hrest⟩ := bind_eq_ok.mp hok
    obtain ⟨m₂, hdata, hret⟩ := bind_eq_ok.mp hrest
    obtain ⟨hiso₁, hptbr⟩ := hiso.useTempRegion1.copyLastRegion1Page hlive rfl hlast
    have hiso₂ := ((hiso₁.setPte_unowned (r := ⟨.tempRegion1, 0⟩) rfl _).flushPage
      0).copyRegion1Data hlive (by decide) hptbr hdata
    have hiso₃ : (m₂.copyRegion1Prot source dest 0 NUM_PAGES_REG_1).Isolated (ownedBy live) free' :=
      hiso₂.copyRegion1Prot
    simp only [Lib.pure_eq_ok, Except.ok.injEq, Prod.mk.injEq] at hret
    generalize m₂.copyRegion1Prot source dest 0 NUM_PAGES_REG_1 = m₃ at hret hiso₃
    obtain ⟨rfl, rfl⟩ := hret
    exact ⟨free', rfl, .inl ⟨rfl, hiso₃.congr rfl rfl rfl fun _ _ => rfl⟩⟩
  · cases hok
    exact ⟨free', honly.ptbr1.trans hptbr1, .inr ⟨rfl, hiso⟩⟩

/-! ## Stack growth -/

/-- Growing a stack maps pages of the growing process. -/
theorem Isolated.growStack {addrPage n : Nat} {rc : Int} (h : m.Isolated (ownedBy live) free)
    (hok : m.growStack pid addrPage n = .ok (rc, m')) :
    ∃ free', m'.Isolated (ownedBy live) free' ∧ OnlyTable (.region1 pid) m m' := by
  induction n generalizing m free with
  | zero =>
      unfold Machine.growStack at hok
      split at hok <;> cases hok
      exact ⟨free, h, .refl⟩
  | succ n ih =>
      simp only [Machine.growStack] at hok
      cases free with
      | nil =>
          rw [getUnusedFrame_nil h.list] at hok
          cases hok
          exact ⟨[], h, .refl⟩
      | cons f free =>
          have hget := h.getUnusedFrame ⟨.region1 pid, addrPage + n⟩ (PROT_READ ||| PROT_WRITE)
            (m.pte (.region1 pid) (addrPage + n))
          rw [setPte_self] at hget
          obtain ⟨m₁, m₂, hget, -, hm₂, hiso, honly, -⟩ := hget
          rw [hget] at hok
          simp only [show ¬ SUCCESS = ERROR by decide, if_false] at hok
          obtain ⟨_, -, hrest⟩ := bind_eq_ok.mp hok
          obtain ⟨free', hiso', honly'⟩ := ih (hm₂ ▸ hiso) hrest
          exact ⟨free', hiso', (hm₂ ▸ honly).trans honly'⟩

end

end Machine

end Theynix
