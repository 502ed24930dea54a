/-!
# `Theynix.Hardware`: the machine under the kernel

The constants of `include/hardware.h`, the page table entry, and the state the memory
management code works on: physical memory, every page table, the register `REG_PTBR1`, and
the globals of `PMem.c` and `Kernel.c` that describe the free frames and the kernel break.

A page table is a C array reached through a pointer. `PageTable` names the arrays the
kernel allocates, and `Machine.pte t i` is what reading index `i` of the array `t` returns.
An index past the end of an array reads whatever memory follows the array, so `pte` is
total and nothing is assumed about those entries.

The kernel reaches user memory by virtual address. `Machine.translate` is the translation
of a region 1 address through the table in `REG_PTBR1`. A kernel function that changes a
translation and then uses it flushes the TLB in between, so its accesses read the table
itself.

`Machine.tlb` holds, for each page of region 1, the entries that the TLB may have cached: an
access adds the entry that it uses, and a write to `REG_TLB_FLUSH` drops entries. An entry
that the hardware has dropped on its own is still listed. The source does not flush the TLB
where it takes pages from a process (`UnmapRegion1Pages`, and `LoadProgram` when it fails
after it has freed the old program), so the process may go on to use an entry that is in no
table any more. `storeThrough` is a store through a cached entry. No access of the kernel
goes through a stale entry here, and its loads add nothing to the TLB.

Pids and resource ids are `unsigned int` counters in the source. They are natural numbers
here: the model covers the runs in which these counters have not wrapped.
-/

set_option autoImplicit false

namespace Theynix

/-! ## Constants -/

abbrev Byte := UInt8

abbrev PAGESIZE : Nat := 0x2000
abbrev PAGESHIFT : Nat := 13
abbrev VMEM_REGION_SIZE : Nat := 0x100000
abbrev VMEM_0_LIMIT : Nat := 0x100000
abbrev VMEM_1_BASE : Nat := 0x100000
abbrev VMEM_1_SIZE : Nat := 0x100000
abbrev VMEM_1_LIMIT : Nat := 0x200000
abbrev MAX_PT_LEN : Nat := 128
abbrev PMEM_BASE : Nat := 0
abbrev KERNEL_STACK_LIMIT : Nat := 0x100000
abbrev KERNEL_STACK_BASE : Nat := 0xFC000
abbrev NUM_PAGES_REG_1 : Nat := 128
abbrev NUM_KERNEL_PAGES : Nat := 2
abbrev REGION_1_BASE_PAGE : Nat := 128
/-- `ADDR_TO_PAGE(KERNEL_STACK_BASE)`. -/
abbrev KERNEL_STACK_BASE_PAGE : Nat := 126
abbrev INITIAL_STACK_FRAME_SIZE : Nat := 0
abbrev POST_ARGV_NULL_SPACE : Nat := 0x20

abbrev PROT_READ : Nat := 1
abbrev PROT_WRITE : Nat := 2
abbrev PROT_EXEC : Nat := 4

abbrev NUM_TERMINALS : Nat := 4
abbrev TERMINAL_MAX_LINE : Nat := 1024

abbrev SUCCESS : Int := 0
abbrev ERROR : Int := -1
abbrev KILL : Int := -1337

/-- `ADDR_TO_PAGE(addr)`. -/
def addrToPage (addr : Nat) : Nat := addr >>> PAGESHIFT

theorem addrToPage_eq (addr : Nat) : addrToPage addr = addr / 8192 :=
  Nat.shiftRight_eq_div_pow addr PAGESHIFT

/-! ## C integers -/

/-- The `int` with the bit pattern of an `unsigned int`. -/
def asInt (n : Nat) : Int :=
  if n % 0x100000000 < 0x80000000 then (n % 0x100000000 : Nat)
  else (n % 0x100000000 : Nat) - 0x100000000

/-- The `unsigned int` with the bit pattern of an `int`. -/
def asUnsigned (v : Int) : Nat := (v % 0x100000000).toNat

theorem asInt_asUnsigned {v : Int} (h : -0x80000000 ≤ v) (h' : v < 0x80000000) :
    asInt (asUnsigned v) = v := by
  unfold asInt asUnsigned
  split <;> omega

theorem asUnsigned_natCast {n : Nat} (h : n < 0x100000000) : asUnsigned n = n := by
  unfold asUnsigned
  omega

theorem asInt_of_lt {n : Nat} (h : n < 0x80000000) : asInt n = n := by
  unfold asInt
  split <;> omega

/-- The 32-bit word with the given bytes, lowest first. -/
def wordOfBytes (b0 b1 b2 b3 : Byte) : Nat :=
  b0.toNat + 0x100 * b1.toNat + 0x10000 * b2.toNat + 0x1000000 * b3.toNat

/-- The four bytes of a 32-bit word, lowest first. -/
def wordBytes (u : Nat) : List Byte :=
  [UInt8.ofNat u, UInt8.ofNat (u / 0x100), UInt8.ofNat (u / 0x10000),
    UInt8.ofNat (u / 0x1000000)]

theorem wordOfBytes_wordBytes {u : Nat} (h : u < 0x100000000) :
    wordOfBytes (UInt8.ofNat u) (UInt8.ofNat (u / 0x100)) (UInt8.ofNat (u / 0x10000))
      (UInt8.ofNat (u / 0x1000000)) = u := by
  simp only [wordOfBytes, UInt8.toNat_ofNat']
  omega

/-! ## Page tables and physical memory -/

/-- `struct pte`. -/
structure Pte where
  valid : Bool := false
  prot : Nat := 0
  pfn : Nat := 0
deriving DecidableEq, Repr, Inhabited

/-- The page tables the kernel allocates: the region 0 table, the two tables of each
process, and the temporary table of `CopyRegion1PageTableAndData`. -/
inductive PageTable
  | region0
  | region1 (pid : Nat)
  | kernelStack (pid : Nat)
  | tempRegion1
deriving DecidableEq, Repr

/-- A `struct pte *`: an index into a page table. -/
structure PteRef where
  table : PageTable
  index : Nat
deriving DecidableEq, Repr

/-- The machine: physical memory byte by byte, the page tables, `REG_PTBR1`, and the
globals of physical and kernel memory management. -/
structure Machine where
  frame : Nat → Nat → Byte
  pte : PageTable → Nat → Pte
  ptbr1 : PageTable
  freeFramesHead : Int
  freeFramesTail : Int
  kernelBrkPage : Nat
  virtualMemoryEnabled : Bool
  /-- The entries of each region 1 page that the TLB may hold. -/
  tlb : Nat → List Pte := fun _ => []

/-- Why the kernel stops for good. -/
inductive Stop
  /-- `Halt()`. -/
  | halt
  /-- `exit(-1)`. -/
  | exit
  /-- An `assert` that fails. -/
  | assertion
  /-- The kernel touches an address it has no translation for. -/
  | fault
  /-- A kernel loop that never ends. -/
  | hang
deriving DecidableEq, Repr

/-- A C `assert`. -/
def cAssert (b : Bool) : Except Stop Unit := if b then .ok () else .error .assertion

theorem cAssert_eq_ok {b : Bool} {u : Unit} (h : cAssert b = .ok u) : b = true := by
  unfold cAssert at h
  split at h
  · assumption
  · cases h

namespace Machine

def setPte (m : Machine) (t : PageTable) (i : Nat) (e : Pte) : Machine :=
  { m with pte := fun t' i' => if t' = t ∧ i' = i then e else m.pte t' i' }

def setByte (m : Machine) (f off : Nat) (b : Byte) : Machine :=
  { m with frame := fun f' off' => if f' = f ∧ off' = off then b else m.frame f' off' }

/-- The int at byte offset `off` of frame `f`, little-endian. -/
def frameInt (m : Machine) (f off : Nat) : Int :=
  asInt (wordOfBytes (m.frame f off) (m.frame f (off + 1)) (m.frame f (off + 2))
    (m.frame f (off + 3)))

def setFrameInt (m : Machine) (f off : Nat) (v : Int) : Machine :=
  let u := asUnsigned v
  (((m.setByte f off (UInt8.ofNat u)).setByte f (off + 1) (UInt8.ofNat (u / 0x100))).setByte f
    (off + 2) (UInt8.ofNat (u / 0x10000))).setByte f (off + 3) (UInt8.ofNat (u / 0x1000000))

/-! ## The TLB -/

/-- `WriteRegister(REG_TLB_FLUSH, TLB_FLUSH_1)`. -/
def flushRegion1 (m : Machine) : Machine := { m with tlb := fun _ => [] }

/-- `WriteRegister(REG_TLB_FLUSH, VMEM_1_BASE + (page << PAGESHIFT))`. -/
def flushPage (m : Machine) (page : Nat) : Machine :=
  { m with tlb := fun i => if i = page then [] else m.tlb i }

/-- The entry of a page in the current table is used, and may be cached. -/
def access (m : Machine) (page : Nat) : Machine :=
  { m with tlb := fun i => if i = page then m.pte m.ptbr1 page :: m.tlb i else m.tlb i }

/-! ## Access by virtual address -/

/-- The frame and offset of a region 1 address, when the table in `REG_PTBR1` maps its page
with the permissions `prot`. -/
def translate (m : Machine) (prot va : Nat) : Except Stop (Nat × Nat) :=
  if VMEM_1_BASE ≤ va ∧ va < VMEM_1_LIMIT then
    let e := m.pte m.ptbr1 (addrToPage (va - VMEM_1_BASE))
    if e.valid = true ∧ e.prot &&& prot = prot then .ok (e.pfn, va % PAGESIZE)
    else .error .fault
  else .error .fault

def loadByte (m : Machine) (va : Nat) : Except Stop Byte := do
  let (f, off) ← m.translate PROT_READ va
  return m.frame f off

def storeByte (m : Machine) (va : Nat) (b : Byte) : Except Stop Machine := do
  let (f, off) ← m.translate PROT_WRITE va
  return (m.setByte f off b).access (addrToPage (va - VMEM_1_BASE))

/-- The store of a byte through an entry of the TLB. -/
def storeThrough (m : Machine) (e : Pte) (va : Nat) (b : Byte) : Except Stop Machine :=
  if (VMEM_1_BASE ≤ va ∧ va < VMEM_1_LIMIT) ∧ e.valid = true ∧ e.prot &&& PROT_WRITE = PROT_WRITE then
    .ok (m.setByte e.pfn (va % PAGESIZE) b)
  else .error .fault

/-- Reads `n` bytes from `va` upwards. -/
def loadBytes (m : Machine) (va : Nat) : Nat → Except Stop (List Byte)
  | 0 => .ok []
  | n + 1 => do
    let b ← m.loadByte va
    let bs ← m.loadBytes (va + 1) n
    return b :: bs

/-- Writes the bytes from `va` upwards. -/
def storeBytes (m : Machine) (va : Nat) : List Byte → Except Stop Machine
  | [] => .ok m
  | b :: bs => do
    let m ← m.storeByte va b
    m.storeBytes (va + 1) bs

/-- `bzero`/`memset` with zero: `n` zero bytes from `va` upwards. -/
def storeZeros (m : Machine) (va : Nat) : Nat → Except Stop Machine
  | 0 => .ok m
  | n + 1 => do
    let m ← m.storeByte va 0
    m.storeZeros (va + 1) n

/-- Reads the 32-bit word at `va`. -/
def loadWord (m : Machine) (va : Nat) : Except Stop Nat := do
  let b0 ← m.loadByte va
  let b1 ← m.loadByte (va + 1)
  let b2 ← m.loadByte (va + 2)
  let b3 ← m.loadByte (va + 3)
  return wordOfBytes b0 b1 b2 b3

/-- Writes a 32-bit word at `va`. -/
def storeWord (m : Machine) (va u : Nat) : Except Stop Machine := m.storeBytes va (wordBytes u)

/-- A store through the entry that is in the table changes memory as any store does. -/
theorem storeByte_of_storeThrough {m m' : Machine} {va : Nat} {b : Byte}
    (h : m.storeThrough (m.pte m.ptbr1 (addrToPage (va - VMEM_1_BASE))) va b = .ok m') :
    m.storeByte va b = .ok (m'.access (addrToPage (va - VMEM_1_BASE))) := by
  unfold storeThrough at h
  split at h
  · rename_i hentry
    cases h
    unfold storeByte translate
    rw [if_pos hentry.1, if_pos hentry.2]
    rfl
  · cases h

/-- A store through any entry leaves the tables alone. -/
theorem storeThrough_pte {m m' : Machine} {e : Pte} {va : Nat} {b : Byte}
    (h : m.storeThrough e va b = .ok m') : m'.pte = m.pte := by
  unfold storeThrough at h
  split at h
  · cases h
    rfl
  · cases h

/-! ## Frame lemmas -/

section
variable (m : Machine)

@[simp] theorem setPte_frame (t : PageTable) (i : Nat) (e : Pte) :
    (m.setPte t i e).frame = m.frame := rfl
@[simp] theorem setPte_ptbr1 (t : PageTable) (i : Nat) (e : Pte) :
    (m.setPte t i e).ptbr1 = m.ptbr1 := rfl
@[simp] theorem setPte_freeFramesHead (t : PageTable) (i : Nat) (e : Pte) :
    (m.setPte t i e).freeFramesHead = m.freeFramesHead := rfl
@[simp] theorem setPte_freeFramesTail (t : PageTable) (i : Nat) (e : Pte) :
    (m.setPte t i e).freeFramesTail = m.freeFramesTail := rfl

@[simp] theorem setPte_pte_self (t : PageTable) (i : Nat) (e : Pte) :
    (m.setPte t i e).pte t i = e := by
  simp [setPte]

theorem setPte_pte_of_ne {t t' : PageTable} {i i' : Nat} (e : Pte)
    (h : ¬ (t' = t ∧ i' = i)) : (m.setPte t i e).pte t' i' = m.pte t' i' := by
  simp [setPte, h]

/-- Writing the entry that is there changes nothing. -/
@[simp] theorem setPte_self (t : PageTable) (i : Nat) : m.setPte t i (m.pte t i) = m := by
  obtain ⟨frame, pte, ptbr1, head, tail, brk, vm, tlb⟩ := m
  simp only [setPte, mk.injEq, and_true, true_and]
  funext t' i'
  by_cases h : t' = t ∧ i' = i
  · obtain ⟨rfl, rfl⟩ := h
    simp
  · simp [h]

/-- Writing an entry back after a change restores the machine. -/
theorem setPte_restore (t : PageTable) (i : Nat) (e : Pte) :
    (m.setPte t i e).setPte t i (m.pte t i) = m := by
  obtain ⟨frame, pte, ptbr1, head, tail, brk, vm, tlb⟩ := m
  simp only [setPte, mk.injEq, and_true, true_and]
  funext t' i'
  by_cases h : t' = t ∧ i' = i
  · simp [h]
  · simp [h]

@[simp] theorem flushPage_pte (page : Nat) : (m.flushPage page).pte = m.pte := rfl
@[simp] theorem flushPage_ptbr1 (page : Nat) : (m.flushPage page).ptbr1 = m.ptbr1 := rfl
@[simp] theorem flushPage_frame (page : Nat) : (m.flushPage page).frame = m.frame := rfl
@[simp] theorem flushRegion1_pte : m.flushRegion1.pte = m.pte := rfl
@[simp] theorem flushRegion1_ptbr1 : m.flushRegion1.ptbr1 = m.ptbr1 := rfl
@[simp] theorem flushRegion1_frame : m.flushRegion1.frame = m.frame := rfl
@[simp] theorem access_pte (page : Nat) : (m.access page).pte = m.pte := rfl
@[simp] theorem access_ptbr1 (page : Nat) : (m.access page).ptbr1 = m.ptbr1 := rfl
@[simp] theorem access_frame (page : Nat) : (m.access page).frame = m.frame := rfl

@[simp] theorem setByte_pte (f off : Nat) (b : Byte) : (m.setByte f off b).pte = m.pte := rfl

theorem setByte_frame_of_ne {f f' : Nat} (off off' : Nat) (b : Byte) (h : f' ≠ f) :
    (m.setByte f off b).frame f' off' = m.frame f' off' := by
  simp [setByte, h]

@[simp] theorem setFrameInt_pte (f off : Nat) (v : Int) :
    (m.setFrameInt f off v).pte = m.pte := rfl
@[simp] theorem setFrameInt_ptbr1 (f off : Nat) (v : Int) :
    (m.setFrameInt f off v).ptbr1 = m.ptbr1 := rfl
@[simp] theorem setFrameInt_freeFramesHead (f off : Nat) (v : Int) :
    (m.setFrameInt f off v).freeFramesHead = m.freeFramesHead := rfl
@[simp] theorem setFrameInt_freeFramesTail (f off : Nat) (v : Int) :
    (m.setFrameInt f off v).freeFramesTail = m.freeFramesTail := rfl

theorem setFrameInt_frame_of_ne {f f' : Nat} (off : Nat) (v : Int) (h : f' ≠ f) :
    (m.setFrameInt f off v).frame f' = m.frame f' := by
  funext off'
  simp [setFrameInt, setByte, h]

/-- An int written to a frame reads back. -/
theorem frameInt_setFrameInt {f off : Nat} {v : Int} (h : 0 ≤ v) (h' : v < 0x80000000) :
    (m.setFrameInt f off v).frameInt f off = v := by
  have hu : asUnsigned v < 0x100000000 := by unfold asUnsigned; omega
  calc (m.setFrameInt f off v).frameInt f off
      = asInt (wordOfBytes (UInt8.ofNat (asUnsigned v)) (UInt8.ofNat (asUnsigned v / 0x100))
          (UInt8.ofNat (asUnsigned v / 0x10000)) (UInt8.ofNat (asUnsigned v / 0x1000000))) := by
        simp [frameInt, setFrameInt, setByte]
    _ = asInt (asUnsigned v) := by rw [wordOfBytes_wordBytes hu]
    _ = v := asInt_asUnsigned (by omega) h'

end

end Machine

end Theynix
