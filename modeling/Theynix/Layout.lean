import Theynix.Tables
import Theynix.Turns

/-!
# `Theynix.Layout`: heap, gap and stack of a process

`Layout` is what the kernel means by `user_brk_page` and `lowest_user_stack_page`: the heap
ends below the stack, the pages between are unmapped, and those of the stack are mapped.
`LoadProgram` makes it, `KernelBrk` and `TrapMemory` move the two bounds towards each other,
and `KernelFork` copies it.

* `layout_of_load`: a program that has been loaded has the layout.
* `HasLayout.same`, `SameLayout.of_turn`: what keeps the bounds and the valid pages of a
  process keeps its layout.
-/

set_option autoImplicit false

namespace Theynix

open Theynix.Lib (bind_eq_ok ite_eq_ok)
open Machine (ownedBy InPages)

/-! ## The layout -/

/-- The layout of a region 1 table with the given `user_brk_page` and
`lowest_user_stack_page`. -/
structure Layout (table : Nat → Pte) (userBrkPage lowestUserStackPage : Int) : Prop where
  brk : 0 ≤ userBrkPage
  gap : userBrkPage < lowestUserStackPage
  stack : lowestUserStackPage < NUM_PAGES_REG_1
  unmapped : ∀ page : Nat, userBrkPage ≤ page → (page : Int) < lowestUserStackPage →
    (table page).valid = false
  mapped : ∀ page : Nat, lowestUserStackPage ≤ page → page < NUM_PAGES_REG_1 →
    (table page).valid = true

theorem Layout.congr {table table' : Nat → Pte} {brk lowest : Int} (h : Layout table brk lowest)
    (hvalid : ∀ page < NUM_PAGES_REG_1, (table' page).valid = (table page).valid) :
    Layout table' brk lowest := by
  refine ⟨h.brk, h.gap, h.stack, fun page hlow hhigh => ?_, fun page hlow hhigh => ?_⟩
  · have hstack := h.stack
    rw [hvalid page (by omega)]
    exact h.unmapped page hlow hhigh
  · rw [hvalid page hhigh]
    exact h.mapped page hlow hhigh

/-! ## A program that has been loaded -/

/-- What is assumed of the segments of a program that is loaded. That they begin at pages is
documented in `load_info.h`. That they lie inside region 1 and that the text is below the data
is not: it is how the programs of this kernel are linked. -/
structure LoadInfo.Assumed (li : LoadInfo) : Prop where
  textAligned : li.tVaddr % PAGESIZE = 0
  dataAligned : li.idVaddr % PAGESIZE = 0
  base : VMEM_1_BASE ≤ li.tVaddr
  textBelowData : li.tVaddr + li.tNpg * PAGESIZE ≤ li.idVaddr
  limit : li.idVaddr + (li.idNpg + li.udNpg) * PAGESIZE ≤ VMEM_1_LIMIT

namespace LoadInfo

variable {li : LoadInfo}

/-- The page numbers of the segments, without the 32-bit arithmetic. -/
theorem Assumed.pages (h : li.Assumed) :
    li.textPg1 = (li.tVaddr - 0x100000) / 8192 ∧ li.dataPg1 = (li.idVaddr - 0x100000) / 8192 ∧
      li.dataNpg = li.idNpg + li.udNpg ∧ li.textPg1 + li.tNpg ≤ li.dataPg1 ∧
      li.dataPg1 + (li.idNpg + li.udNpg) ≤ 128 := by
  have htext : li.tVaddr % 8192 = 0 := h.textAligned
  have hdata : li.idVaddr % 8192 = 0 := h.dataAligned
  have hbase : 0x100000 ≤ li.tVaddr := h.base
  have hbelow : li.tVaddr + li.tNpg * 8192 ≤ li.idVaddr := h.textBelowData
  have hlimit : li.idVaddr + (li.idNpg + li.udNpg) * 8192 ≤ 0x200000 := h.limit
  have htextPg : li.textPg1 = (li.tVaddr - 0x100000) / 8192 := by
    simp only [textPg1, addrToPage_eq, VMEM_1_BASE]
    omega
  have hdataPg : li.dataPg1 = (li.idVaddr - 0x100000) / 8192 := by
    simp only [dataPg1, addrToPage_eq, VMEM_1_BASE]
    omega
  refine ⟨htextPg, hdataPg, ?_, ?_, ?_⟩
  · unfold dataNpg
    rw [asInt_of_lt (by omega)]
    exact Int.natCast_add _ _
  · omega
  · omega

end LoadInfo

/-- The pages of a range that ends inside the table. -/
theorem inPages_iff {start num j : Nat} (h : start + num ≤ NUM_PAGES_REG_1) :
    InPages start num j ↔ start ≤ j ∧ j < start + num := by
  have h' : start + num ≤ 128 := h
  unfold Machine.InPages Machine.pagesFrom
  rw [Nat.mod_eq_of_lt (by omega), Nat.add_sub_cancel_left]

/-- The first page of the new stack. -/
def stackPg (args : List (List Byte)) : Nat := newStackPointer args / 8192 - 128

section
variable {args : List (List Byte)}

/-- The pages of the new stack are those from the new stack pointer on. -/
theorem stackNpg_eq (hbase : VMEM_1_BASE ≤ argPointers args)
    (hlimit : argPointers args < VMEM_1_LIMIT) :
    stackPg args < 128 ∧ stackNpg args = ((128 - stackPg args : Nat) : Int) ∧
      (addrToPage (newStackPointer args) : Int) - 128 = (stackPg args : Int) := by
  have hbase' : 0x100000 ≤ newStackPointer args := hbase
  have hlimit' : newStackPointer args < 0x200000 := hlimit
  unfold stackNpg stackPg
  -- `omega` must not look into the computation of the pointer.
  generalize newStackPointer args = sp at hbase' hlimit' ⊢
  rw [addrToPage_eq, asInt_of_lt (by omega)]
  simp only [VMEM_1_LIMIT, PAGESIZE]
  refine ⟨by omega, by omega, by omega⟩

/-- The arguments with which `LoadProgram` maps the stack. -/
theorem stackRange_eq (hbase : VMEM_1_BASE ≤ argPointers args)
    (hlimit : argPointers args < VMEM_1_LIMIT) :
    asUnsigned (addrToPage VMEM_1_LIMIT - stackNpg args - addrToPage VMEM_1_BASE) = stackPg args ∧
      asUnsigned (stackNpg args) = 128 - stackPg args := by
  obtain ⟨hlt, hnpg, -⟩ := stackNpg_eq hbase hlimit
  have hfirst : (addrToPage VMEM_1_LIMIT : Int) - stackNpg args - (addrToPage VMEM_1_BASE : Int)
      = (stackPg args : Nat) := by
    have hbasePage : addrToPage VMEM_1_BASE = 128 := addrToPage_eq _
    have hlimitPage : addrToPage VMEM_1_LIMIT = 256 := addrToPage_eq _
    rw [hnpg, hbasePage, hlimitPage]
    omega
  rw [hfirst, hnpg, asUnsigned_natCast (by omega), asUnsigned_natCast (by omega)]
  exact ⟨rfl, rfl⟩

/-- The pages that `LoadProgram` maps for the stack are the last ones. -/
theorem stackPages_iff (hbase : VMEM_1_BASE ≤ argPointers args)
    (hlimit : argPointers args < VMEM_1_LIMIT) (j : Nat) :
    InPages (asUnsigned (addrToPage VMEM_1_LIMIT - stackNpg args - addrToPage VMEM_1_BASE))
        (asUnsigned (stackNpg args)) j ↔ stackPg args ≤ j ∧ j < 128 := by
  obtain ⟨hlt, -⟩ := stackNpg_eq hbase hlimit
  obtain ⟨hfirst, hcount⟩ := stackRange_eq hbase hlimit
  rw [hfirst, hcount, inPages_iff (show stackPg args + (128 - stackPg args) ≤ 128 by omega)]
  omega

end

/-- The bytes that the strings and the pointers of the arguments take on the new stack. -/
def argSpace (args : List (List Byte)) : Nat :=
  stringBytes args + (args.length + 3 + POST_ARGV_NULL_SPACE) * 4

section
variable {args : List (List Byte)}

/-- Where the pointers go when the arguments fit below `VMEM_1_LIMIT`. -/
theorem argPointers_eq (h : argSpace args ≤ VMEM_1_LIMIT) :
    argStrings args = VMEM_1_LIMIT - stringBytes args ∧
      argPointers args = (VMEM_1_LIMIT - argSpace args) / 8 * 8 := by
  unfold argSpace at h ⊢
  unfold argPointers argStrings
  simp only [VMEM_1_LIMIT, POST_ARGV_NULL_SPACE] at h ⊢
  generalize stringBytes args = size at h ⊢
  generalize args.length = n at h ⊢
  omega

/-- The pointers of arguments that do not fit wrap around. -/
theorem argPointers_wraps (h : VMEM_1_LIMIT < argSpace args) (h' : argSpace args < 0x80000000) :
    0x80000000 ≤ argPointers args ∧ argPointers args < 0x100000000 := by
  unfold argSpace at h h'
  unfold argPointers argStrings
  simp only [VMEM_1_LIMIT, POST_ARGV_NULL_SPACE] at h h' ⊢
  generalize stringBytes args = size at h h' ⊢
  generalize args.length = n at h h' ⊢
  omega

/-- The check of `LoadProgram` accepts no arguments that do not fit into region 1. -/
theorem argSpace_of_leavesBlankPage {li : LoadInfo} (hli : li.Assumed)
    (hspace : argSpace args < 0x80000000) (hblank : li.leavesBlankPage args = true) :
    argSpace args ≤ VMEM_1_LIMIT ∧ VMEM_1_BASE ≤ argPointers args ∧
      argPointers args < VMEM_1_LIMIT := by
  obtain ⟨-, -, hdata, -, hlast⟩ := hli.pages
  have hgap : stackNpg args + li.dataPg1 + li.dataNpg < 128 := of_decide_eq_true hblank
  have hnpg : stackNpg args < 128 := by
    rw [hdata] at hgap
    generalize stackNpg args = npg at hgap ⊢
    clear hspace hblank
    omega
  clear hgap hblank hdata hlast
  unfold stackNpg newStackPointer at hnpg
  simp only [VMEM_1_LIMIT, PAGESIZE, INITIAL_STACK_FRAME_SIZE, Nat.sub_zero] at hnpg
  by_cases hfits : argSpace args ≤ VMEM_1_LIMIT
  · obtain ⟨-, hpointers⟩ := argPointers_eq hfits
    have hsome : 140 ≤ argSpace args := by
      unfold argSpace
      simp only [POST_ARGV_NULL_SPACE]
      generalize stringBytes args = size
      generalize args.length = n
      omega
    refine ⟨hfits, ?_⟩
    simp only [VMEM_1_LIMIT, VMEM_1_BASE] at hfits hpointers ⊢
    generalize argSpace args = space at hfits hpointers hsome
    generalize argPointers args = pointers at hnpg hpointers ⊢
    rw [asInt_of_lt (by omega)] at hnpg
    clear hspace
    omega
  · -- The stack would be longer than region 1.
    obtain ⟨hlow, hhigh⟩ := argPointers_wraps (Nat.lt_of_not_le hfits) hspace
    generalize argPointers args = pointers at hnpg hlow hhigh
    have hneg : asInt pointers = (pointers : Int) - 0x100000000 := by
      unfold asInt
      split <;> omega
    rw [hneg] at hnpg
    clear hspace hfits
    omega

end

/-- The blank page is between the data and the stack. -/
theorem LoadInfo.Assumed.gap {li : LoadInfo} {args : List (List Byte)} (hli : li.Assumed)
    (hbase : VMEM_1_BASE ≤ argPointers args) (hlimit : argPointers args < VMEM_1_LIMIT)
    (hblank : li.leavesBlankPage args = true) :
    li.dataPg1 + (li.idNpg + li.udNpg) < stackPg args := by
  obtain ⟨-, -, hdata, -, -⟩ := hli.pages
  obtain ⟨htop, hnpg, -⟩ := stackNpg_eq hbase hlimit
  have hgap : stackNpg args + li.dataPg1 + li.dataNpg < 128 := of_decide_eq_true hblank
  rw [hnpg, hdata] at hgap
  clear hnpg hbase hlimit hblank
  omega

namespace Machine

/-- A range that has been mapped lies inside the table. -/
theorem mapLoop_inTable {m m' : Machine} {pid start p n prot : Nat} {rc : Int}
    (hok : m.mapNewRegion1PagesLoop pid start prot p n = .ok (rc, m')) (hrc : rc ≠ ERROR)
    (hn : 0 < n) : p + n ≤ NUM_PAGES_REG_1 := by
  induction n generalizing m p with
  | zero => exact absurd hn (Nat.lt_irrefl 0)
  | succ n ih =>
      obtain ⟨_, hp, hok⟩ := bind_eq_ok.mp hok
      obtain ⟨_, -, hok⟩ := bind_eq_ok.mp hok
      have hp' : p < NUM_PAGES_REG_1 := of_decide_eq_true (cAssert_eq_ok hp)
      rcases ite_eq_ok hok with ⟨-, hok⟩ | ⟨-, hok⟩
      · obtain ⟨m₁, -, hret⟩ := bind_eq_ok.mp hok
        exact absurd (congrArg Prod.fst (Except.ok.inj hret)).symm hrc
      · cases n with
        | zero => exact hp'
        | succ n =>
            have hlast := ih hok (Nat.succ_pos n)
            omega

end Machine

/-- Whatever `LoadInfo` reports, the break of a program that has been loaded is below its
stack. -/
theorem bounds_of_load {m : Machine} {live : Nat → Bool} {free : List Nat} {pid : Nat}
    {space : Space} {file : Executable} {li : LoadInfo} {args : List (List Byte)} {r : LoadResult}
    (h : m.Isolated (ownedBy live) free) (hlive : live pid = true)
    (hgap : li.leavesBlankPage args = true) (hsp : space.userContext.sp = newStackPointer args)
    (hok : commitProgram m pid space file li args = .ok r) (hrc : r.rc = SUCCESS) :
    0 ≤ r.space.userBrkPage ∧ r.space.userBrkPage < r.space.lowestUserStackPage ∧
      r.space.lowestUserStackPage < NUM_PAGES_REG_1 := by
  obtain ⟨-, hsuccess⟩ := h.commitProgram_valid hlive hok
  obtain ⟨hbase, hlimit, hbrk, hlowest, -⟩ := hsuccess hrc
  obtain ⟨htop, hnpg, hfirst⟩ := stackNpg_eq hbase hlimit
  have hbasePage : (addrToPage VMEM_1_BASE : Int) = 128 := congrArg Nat.cast (addrToPage_eq _)
  rw [hsp, hbasePage, hfirst] at hlowest
  have hgap' : stackNpg args + li.dataPg1 + li.dataNpg < 128 := of_decide_eq_true hgap
  rw [hnpg] at hgap'
  -- A negative number of pages is a huge number for the loop that maps the data.
  have hdata : 0 ≤ (li.dataPg1 : Int) + li.dataNpg := by
    obtain ⟨⟨rc₁, m₁⟩, hmap, hok⟩ := bind_eq_ok.mp hok
    rcases ite_eq_ok hok with ⟨-, hok⟩ | ⟨hrc₁, -⟩
    · cases hok
      exact absurd (show ERROR = SUCCESS from hrc) (by decide)
    obtain ⟨⟨rc₂, m₂⟩, -, hmap⟩ := bind_eq_ok.mp hmap
    rcases ite_eq_ok hmap with ⟨-, hmap⟩ | ⟨-, hmap⟩
    · exact absurd (congrArg Prod.fst (Except.ok.inj hmap)).symm hrc₁
    obtain ⟨⟨rc₃, m₃⟩, hloop, hmap⟩ := bind_eq_ok.mp hmap
    rcases ite_eq_ok hmap with ⟨-, hmap⟩ | ⟨hrc₃, -⟩
    · exact absurd (congrArg Prod.fst (Except.ok.inj hmap)).symm hrc₁
    by_contra hneg
    have hmin : -0x80000000 ≤ li.dataNpg := by
      unfold LoadInfo.dataNpg asInt
      split <;> omega
    have hcount : asUnsigned li.dataNpg = (li.dataNpg + 0x100000000).toNat := by
      unfold asUnsigned
      generalize li.dataNpg = npg at hneg hmin
      omega
    have hpages : Machine.pagesFrom li.dataPg1 (asUnsigned li.dataNpg)
        = (li.dataNpg + 0x100000000).toNat := by
      rw [hcount]
      unfold Machine.pagesFrom
      generalize li.dataNpg = npg at hneg hmin
      omega
    rw [Machine.mapNewRegion1Pages, hpages] at hloop
    generalize li.dataNpg = npg at hneg hmin hloop
    have hlast := Machine.mapLoop_inTable hloop hrc₃ (by omega)
    have hlast' : li.dataPg1 + (npg + 0x100000000).toNat ≤ 128 := hlast
    omega
  rw [hbrk, hlowest]
  clear hbrk hlowest hnpg hfirst hgap hsuccess
  generalize stackPg args = stackPage at htop hgap' ⊢
  exact ⟨hdata, by omega, Int.ofNat_lt.mpr htop⟩

/-- A program that has been loaded has the layout. -/
theorem layout_of_load {m : Machine} {live : Nat → Bool} {free : List Nat} {pid : Nat}
    {space : Space} {file : Executable} {li : LoadInfo} {args : List (List Byte)} {r : LoadResult}
    (h : m.Isolated (ownedBy live) free) (hlive : live pid = true) (hli : li.Assumed)
    (hgap : li.leavesBlankPage args = true) (hsp : space.userContext.sp = newStackPointer args)
    (hok : commitProgram m pid space file li args = .ok r) (hrc : r.rc = SUCCESS) :
    Layout (r.machine.pte (.region1 pid)) r.space.userBrkPage r.space.lowestUserStackPage := by
  obtain ⟨-, hsuccess⟩ := h.commitProgram_valid hlive hok
  obtain ⟨hbase, hlimit, hbrk, hlowest, hvalid⟩ := hsuccess hrc
  obtain ⟨-, -, hdata, htext, hlast⟩ := hli.pages
  obtain ⟨htop, hnpg, hfirst⟩ := stackNpg_eq hbase hlimit
  have hbasePage : (addrToPage VMEM_1_BASE : Int) = 128 := congrArg Nat.cast (addrToPage_eq _)
  rw [hsp, hbasePage, hfirst] at hlowest
  have hgap' := hli.gap hbase hlimit hgap
  rw [hdata] at hbrk
  have hdataNpg : asUnsigned li.dataNpg = li.idNpg + li.udNpg := by
    rw [hdata]
    exact asUnsigned_natCast (by omega)
  have hpages : ∀ j < NUM_PAGES_REG_1, (r.machine.pte (.region1 pid) j).valid = true ↔
      stackPg args ≤ j ∨ li.dataPg1 ≤ j ∧ j < li.dataPg1 + (li.idNpg + li.udNpg) ∨
        li.textPg1 ≤ j ∧ j < li.textPg1 + li.tNpg := by
    intro j hj
    have hj' : j < 128 := hj
    rw [hvalid j hj, stackPages_iff hbase hlimit, hdataNpg, inPages_iff hlast,
      inPages_iff (Nat.le_trans htext (Nat.le_trans (Nat.le_add_right _ _) hlast)),
      and_iff_left hj']
  rw [hbrk, hlowest]
  clear hbrk hlowest hnpg hfirst hgap hvalid hsuccess
  generalize stackPg args = stackPage at htop hgap' hpages ⊢
  refine ⟨by omega, by omega, Int.ofNat_lt.mpr htop, fun page hlow hhigh => ?_,
    fun page hlow hhigh => ?_⟩
  · have hpage : page < NUM_PAGES_REG_1 := Nat.lt_trans (Int.ofNat_lt.mp hhigh) htop
    rw [← Bool.not_eq_true, hpages page hpage]
    omega
  · rw [hpages page hhigh]
    exact .inl (Int.ofNat_le.mp hlow)

/-! ## The layout of a process -/

namespace Kernel

/-- Process `p` has the layout. -/
def HasLayout (k : Kernel) (p : Pid) : Prop :=
  Layout (k.machine.pte (.region1 p)) (k.space p).userBrkPage (k.space p).lowestUserStackPage

/-- The break of process `p` is below its stack, and both are page numbers of region 1. -/
structure HasBounds (k : Kernel) (p : Pid) : Prop where
  brk : 0 ≤ (k.space p).userBrkPage
  gap : (k.space p).userBrkPage < (k.space p).lowestUserStackPage
  stack : (k.space p).lowestUserStackPage < NUM_PAGES_REG_1

/-- Process `q` has the bounds and the valid pages of process `p` in the state before. -/
structure SameLayout (k k' : Kernel) (p q : Pid) : Prop where
  userBrkPage : (k'.space q).userBrkPage = (k.space p).userBrkPage
  lowestUserStackPage : (k'.space q).lowestUserStackPage = (k.space p).lowestUserStackPage
  valid : ∀ page < NUM_PAGES_REG_1, (k'.machine.pte (.region1 q) page).valid
    = (k.machine.pte (.region1 p) page).valid

/-- The running process will exit when it goes on: it has been killed by a trap. -/
def Dying (k : Kernel) (p : Pid) : Prop :=
  (∃ a, k.pcb p = some a ∧ a.life = (true, .fatalTrap)) ∧ (p = k.currentProc → k.mode = .kernel)

section
variable {k k' k₁ : Kernel} {p q : Pid}

theorem HasLayout.same (h : k.HasLayout p) (hsame : SameLayout k k' p q) : k'.HasLayout q := by
  unfold HasLayout at h ⊢
  rw [hsame.userBrkPage, hsame.lowestUserStackPage]
  exact h.congr hsame.valid

theorem HasLayout.hasBounds (h : k.HasLayout p) : k.HasBounds p := ⟨h.brk, h.gap, h.stack⟩

/-- The bounds as natural numbers. -/
theorem HasBounds.bounds (h : k.HasBounds p) : ∃ brk lowest : Nat,
    (k.space p).userBrkPage = brk ∧ (k.space p).lowestUserStackPage = lowest ∧ brk < lowest ∧
      lowest < 128 := by
  obtain ⟨brk, hbrk⟩ := Int.eq_ofNat_of_zero_le h.brk
  obtain ⟨lowest, hlowest⟩ := Int.eq_ofNat_of_zero_le (Int.le_trans h.brk (Int.le_of_lt h.gap))
  refine ⟨brk, lowest, hbrk, hlowest, ?_, ?_⟩
  · have hgap := h.gap
    rw [hbrk, hlowest] at hgap
    exact Int.ofNat_lt.mp hgap
  · have hstack := h.stack
    rw [hlowest] at hstack
    exact Int.ofNat_lt.mp hstack

/-- The bounds are the same. -/
theorem HasBounds.same (h : k.HasBounds p)
    (hbrk : (k'.space q).userBrkPage = (k.space p).userBrkPage)
    (hlowest : (k'.space q).lowestUserStackPage = (k.space p).lowestUserStackPage) :
    k'.HasBounds q := by
  refine ⟨?_, ?_, ?_⟩
  · rw [hbrk]
    exact h.brk
  · rw [hbrk, hlowest]
    exact h.gap
  · rw [hlowest]
    exact h.stack

theorem SameLayout.trans (h : SameLayout k k₁ p p) (h' : SameLayout k₁ k' p p) :
    SameLayout k k' p p where
  userBrkPage := h'.userBrkPage.trans h.userBrkPage
  lowestUserStackPage := h'.lowestUserStackPage.trans h.lowestUserStackPage
  valid page hpage := (h'.valid page hpage).trans (h.valid page hpage)

/-- A process whose table and space are the same. -/
theorem SameLayout.of_eq (hspace : k'.space p = k.space p)
    (hpte : k'.machine.pte (.region1 p) = k.machine.pte (.region1 p)) : SameLayout k k' p p := by
  refine ⟨?_, ?_, fun page _ => ?_⟩
  · rw [hspace]
  · rw [hspace]
  · rw [hpte]

theorem SameLayout.of_turn {suspends : KernelContext → Prop} {returns : Int → Prop}
    (h : Turn suspends returns k k') (p : Pid) : SameLayout k k' p p where
  userBrkPage := (h.bounds p).1
  lowestUserStackPage := (h.bounds p).2
  valid page _ := by rw [h.region1 p]

/-- `KernelBrk` changes the table and the space of the running process only. -/
theorem kernelBrk_others {addr : Nat} {rc : Int} (h : k.Apart)
    (hlive : k.live k.currentProc = true) (hok : k.kernelBrk addr = .ok (rc, k'))
    (hp : p ≠ k.currentProc) : SameLayout k k' p p := by
  obtain ⟨free, hiso⟩ := h.isolated
  have hown := Machine.ownedBy_region1 hlive
  have htable : PageTable.region1 p ≠ .region1 k.currentProc := fun he => hp (by cases he; rfl)
  unfold Kernel.kernelBrk at hok
  rcases ite_eq_ok hok with ⟨-, hok⟩ | ⟨-, hok⟩
  · cases hok
    exact .of_eq rfl rfl
  rcases ite_eq_ok hok with ⟨-, hok⟩ | ⟨-, hok⟩
  · obtain ⟨⟨rc₁, m⟩, hmap, hok⟩ := bind_eq_ok.mp hok
    obtain ⟨-, -, honly, -⟩ := hiso.mapNewRegion1Pages hown hmap
    rcases ite_eq_ok hok with ⟨-, hok⟩ | ⟨-, hok⟩
    · cases hok
      exact .of_eq rfl (funext (honly.pte htable))
    · cases hok
      exact .of_eq (if_neg hp) (funext (honly.pte htable))
  rcases ite_eq_ok hok with ⟨-, hok⟩ | ⟨-, hok⟩
  · obtain ⟨m, hunmap, hok⟩ := bind_eq_ok.mp hok
    obtain ⟨-, -, honly, -⟩ := hiso.unmapLoop hown hunmap
    cases hok
    exact .of_eq (if_neg hp) (funext (honly.pte htable))
  · cases hok
    exact .of_eq (if_neg hp) rfl

end

end Kernel

end Theynix
