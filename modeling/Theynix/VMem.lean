import Theynix.Lib.Except
import Theynix.PMem

/-!
# `Theynix.VMem`: page tables (`VMem.c`)

The functions that map and unmap pages. Each walks a range of page numbers upwards; the
recursion of its model is on the number of pages left. The C loops run while
`page_num < start_page_num + num_pages` in `unsigned int` arithmetic, so `pagesFrom` counts
the iterations with the sum taken modulo `2 ^ 32`.
-/

set_option autoImplicit false

namespace Theynix

namespace Machine

/-- `calloc(n, sizeof(struct pte))`: entries `0`, ..., `n - 1` of the table are zero. -/
def callocPageTable (m : Machine) (t : PageTable) (n : Nat) : Machine :=
  { m with pte := fun t' i => if t' = t ∧ i < n then {} else m.pte t' i }

/-- `CreateRegion1PageTable`. The loop clears `valid` bits `calloc` has cleared already. -/
def createRegion1PageTable (m : Machine) (pid : Nat) : Machine :=
  m.callocPageTable (.region1 pid) NUM_PAGES_REG_1

/-- Changes one entry. -/
def modifyPte (m : Machine) (t : PageTable) (i : Nat) (f : Pte → Pte) : Machine :=
  m.setPte t i (f (m.pte t i))

/-- How often `for (p = start; p < start + num; p++)` runs. -/
def pagesFrom (start num : Nat) : Nat := (start + num) % 0x100000000 - start

/-- The loop of `UnmapRegion1Pages`, from `pageNum` with `n` pages left. -/
def unmapRegion1PagesLoop (m : Machine) (pid pageNum : Nat) : Nat → Except Stop Machine
  | 0 => .ok m
  | n + 1 => do
    cAssert (pageNum < NUM_PAGES_REG_1)
    cAssert (m.pte (.region1 pid) pageNum).valid
    let pfn := (m.pte (.region1 pid) pageNum).pfn
    let m := m.releaseUsedFrame pfn
    let m := m.modifyPte (.region1 pid) pageNum fun e => { e with valid := false }
    m.unmapRegion1PagesLoop pid (pageNum + 1) n

/-- `UnmapRegion1Pages`. -/
def unmapRegion1Pages (m : Machine) (pid startPageNum numPages : Nat) : Except Stop Machine :=
  m.unmapRegion1PagesLoop pid startPageNum (pagesFrom startPageNum numPages)

/-- The loop of `MapNewRegion1Pages`, from `pageNum` with `n` pages left. -/
def mapNewRegion1PagesLoop (m : Machine) (pid startPageNum prot pageNum : Nat) :
    Nat → Except Stop (Int × Machine)
  | 0 => .ok (SUCCESS, m)
  | n + 1 => do
    cAssert (pageNum < NUM_PAGES_REG_1)
    cAssert (!(m.pte (.region1 pid) pageNum).valid)
    let (rc, m) := m.getUnusedFrame ⟨.region1 pid, pageNum⟩
    if rc = ERROR then
      -- The pages that were mapped before the frames ran out are given back.
      let m ← m.unmapRegion1Pages pid startPageNum (pageNum - startPageNum)
      return (ERROR, m)
    else
      let m := m.modifyPte (.region1 pid) pageNum fun e => { e with prot := prot, valid := true }
      m.mapNewRegion1PagesLoop pid startPageNum prot (pageNum + 1) n

/-- `MapNewRegion1Pages`. -/
def mapNewRegion1Pages (m : Machine) (pid startPageNum numPages prot : Nat) :
    Except Stop (Int × Machine) :=
  m.mapNewRegion1PagesLoop pid startPageNum prot startPageNum (pagesFrom startPageNum numPages)

/-- The loop of `ChangeProtRegion1Pages`, from `pageNum` with `n` pages left. -/
def changeProtRegion1PagesLoop (m : Machine) (pid prot pageNum : Nat) :
    Nat → Except Stop Machine
  | 0 => .ok m
  | n + 1 => do
    cAssert (pageNum < NUM_PAGES_REG_1)
    cAssert (m.pte (.region1 pid) pageNum).valid
    let m := m.modifyPte (.region1 pid) pageNum fun e => { e with prot := prot }
    m.changeProtRegion1PagesLoop pid prot (pageNum + 1) n

/-- `ChangeProtRegion1Pages`. -/
def changeProtRegion1Pages (m : Machine) (pid startPageNum numPages prot : Nat) :
    Except Stop Machine :=
  m.changeProtRegion1PagesLoop pid prot startPageNum (pagesFrom startPageNum numPages)

/-- `MapNewRegion0Page`. -/
def mapNewRegion0Page (m : Machine) (pageNumber : Nat) : Except Stop (Int × Machine) := do
  cAssert (pageNumber < VMEM_0_LIMIT / PAGESIZE)
  cAssert (!(m.pte .region0 pageNumber).valid)
  let (rc, m) := m.getUnusedFrame ⟨.region0, pageNumber⟩
  if rc = ERROR then return (ERROR, m)
  else
    return (SUCCESS, m.modifyPte .region0 pageNumber fun e =>
      { e with valid := true, prot := PROT_READ ||| PROT_WRITE })

/-- `UnmapUsedRegion0Page`. -/
def unmapUsedRegion0Page (m : Machine) (pageNumber : Nat) : Except Stop Machine := do
  cAssert (pageNumber < VMEM_0_LIMIT / PAGESIZE)
  cAssert (m.pte .region0 pageNumber).valid
  let usedFrame := (m.pte .region0 pageNumber).pfn
  let m := m.releaseUsedFrame usedFrame
  return m.modifyPte .region0 pageNumber fun e => { e with valid := false }

/-- Invalidates an entry, then releases its frame. -/
def freeEntry (m : Machine) (t : PageTable) (i : Nat) : Machine :=
  let m := m.modifyPte t i fun e => { e with valid := false }
  m.releaseUsedFrame (m.pte t i).pfn

/-- The loop shared by `FreeRegion1PageTable` and `FreeRegion0StackPages`: frees the valid
entries of table `t` from `i` on, `n` entries. -/
def freePageTable (m : Machine) (t : PageTable) (i : Nat) : Nat → Machine
  | 0 => m
  | n + 1 =>
    let m := if (m.pte t i).valid then m.freeEntry t i else m
    m.freePageTable t (i + 1) n

/-- `FreeRegion1PageTable`. -/
def freeRegion1PageTable (m : Machine) (pid : Nat) : Machine :=
  m.freePageTable (.region1 pid) 0 NUM_PAGES_REG_1

/-- `FreeRegion0StackPages`. -/
def freeRegion0StackPages (m : Machine) (pid : Nat) : Machine :=
  m.freePageTable (.kernelStack pid) 0 NUM_KERNEL_PAGES

end Machine

end Theynix
