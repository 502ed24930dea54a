import Mathlib.Data.Nat.Find
import Theynix.Layout
import Theynix.MapPages

/-!
# `Theynix.HeapBreak`: moving the break of a user heap

`KernelBrk` on a process whose break is below its stack. The new break is computed with
32-bit wrap-around, so that an address far below region 1 gives a page number above every
stack and is refused (`newUserBrkPage_le_iff`). A heap that shrinks may reach pages that were
never mapped: those between text and data, or below the text. Then the `assert` of
`UnmapRegion1Pages` fails. A heap that grows may reach pages that are mapped, those of a text
above the data. Then the `assert` of `MapNewRegion1Pages` fails, unless the frames run out
before.

* `kernelBrk_done`: on a safe address the call returns, and it leaves everything alone
  (`BrkFailed`) or moves the break (`BrkMoved`).
* `kernelBrk_stuck`: otherwise an `assert` fails.
-/

set_option autoImplicit false

namespace Theynix

open Theynix.Lib (bind_eq_ok ite_eq_ok)
open Machine (ownedBy)

/-! ## The frames of a range -/

namespace Machine

section
variable {m m' : Machine} {own : PteRef → Bool} {free : List Nat} {t : PageTable} {pid : Nat}

theorem mem_tableFrames {f p n : Nat} : f ∈ m.tableFrames t p n ↔
    ∃ i, p ≤ i ∧ i < p + n ∧ (m.pte t i).valid = true ∧ (m.pte t i).pfn = f := by
  simp only [tableFrames, List.mem_filterMap, List.mem_range'_1, Option.ite_none_right_eq_some,
    Option.some.injEq]
  constructor
  · rintro ⟨i, hi, hv, hf⟩
    exact ⟨i, hi.1, hi.2, hv, hf⟩
  · rintro ⟨i, hi, hi', hv, hf⟩
    exact ⟨i, ⟨hi, hi'⟩, hv, hf⟩

/-- The frames of a range of owned entries are distinct, and none of them is free. -/
theorem Isolated.tableFrames_nodup {p n : Nat} (h : m.Isolated own free)
    (hown : ∀ i, p ≤ i → i < p + n → own ⟨t, i⟩ = true) :
    (free ++ m.tableFrames t p n).Nodup ∧ ∀ f ∈ m.tableFrames t p n, f < 0x80000000 := by
  have hheld : ∀ {i f : Nat}, p ≤ i → i < p + n → (m.pte t i).valid = true →
      (m.pte t i).pfn = f → m.held own ⟨t, i⟩ = some f :=
    fun hi hi' hv hf => held_eq_some.mpr ⟨hown _ hi hi', hv, hf⟩
  refine ⟨List.nodup_append.mpr ⟨h.list.nodup, ?_, ?_⟩, fun f hf => ?_⟩
  · refine List.pairwise_filterMap.mpr (List.Pairwise.imp_of_mem ?_ List.nodup_range')
    intro i j hi hj hne f hf g hg hfg
    obtain ⟨hi, hi'⟩ := List.mem_range'_1.mp hi
    obtain ⟨hj, hj'⟩ := List.mem_range'_1.mp hj
    rw [Option.ite_none_right_eq_some, Option.some.injEq] at hf hg
    have heq := h.exclusive.inj (hheld hi hi' hf.1 hf.2) (hheld hj hj' hg.1 (hg.2.trans hfg.symm))
    exact hne (congrArg PteRef.index heq)
  · rintro f hf g hg rfl
    obtain ⟨i, hi, hi', hv, hpfn⟩ := mem_tableFrames.mp hg
    exact h.exclusive.notFree (hheld hi hi' hv hpfn) hf
  · obtain ⟨i, hi, hi', hv, hpfn⟩ := mem_tableFrames.mp hf
    exact h.heldSmall (hheld hi hi' hv hpfn)

/-- `UnmapRegion1Pages` stops at an `assert` only. -/
theorem unmapLoop_error {p n : Nat} {stop : Stop}
    (h : m.unmapRegion1PagesLoop pid p n = .error stop) : stop = .assertion := by
  induction n generalizing m p with
  | zero => cases h
  | succ n ih =>
      simp only [unmapRegion1PagesLoop, cAssert] at h
      split at h
      · split at h
        · exact ih h
        · cases h
          rfl
      · cases h
        rfl

end

end Machine

/-! ## The new break -/

/-- `new_user_brk_page` of `KernelBrk`. -/
def newUserBrkPage (addr : Nat) : Nat :=
  (addrToPage ((addr + 0xFFFFFFFF) % 0x100000000) + 1 + 0x100000000 - REGION_1_BASE_PAGE)
    % 0x100000000

/-- The new break against a page number of region 1. -/
theorem newUserBrkPage_le_iff {addr page : Nat} (haddr : addr < 0x100000000) (hpage : page ≤ 128) :
    newUserBrkPage addr ≤ page ↔
      VMEM_1_BASE < addr + PAGESIZE ∧ addr ≤ VMEM_1_BASE + page * PAGESIZE := by
  have hbase : REGION_1_BASE_PAGE = 128 := rfl
  unfold newUserBrkPage
  rw [addrToPage_eq, hbase]
  show _ ↔ 0x100000 < addr + 8192 ∧ addr ≤ 0x100000 + page * 8192
  by_cases hzero : addr = 0
  · subst hzero
    omega
  · omega

/-- The number of pages of region 1 that cover every address below `addr`. -/
theorem newUserBrkPage_covers {addr n : Nat} (haddr : addr < 0x100000000)
    (hlow : newUserBrkPage addr < 128) :
    newUserBrkPage addr ≤ n ↔
      ∀ a, VMEM_1_BASE ≤ a → a < addr → addrToPage (a - VMEM_1_BASE) < n := by
  have htop := (newUserBrkPage_le_iff haddr (Nat.le_refl 128)).mp (Nat.le_of_lt hlow)
  have hbase : 0x100000 < addr + 8192 := htop.1
  have hlimit : addr ≤ 0x100000 + 128 * 8192 := htop.2
  simp only [addrToPage_eq, VMEM_1_BASE]
  by_cases hn : n ≤ 128
  · rw [newUserBrkPage_le_iff haddr hn]
    show 0x100000 < addr + 8192 ∧ addr ≤ 0x100000 + n * 8192 ↔ _
    constructor
    · rintro ⟨-, hle⟩ a ha ha'
      omega
    · intro hall
      refine ⟨hbase, ?_⟩
      by_contra hgt
      -- The first address of page `n` is below `addr`.
      have hfirst := hall (0x100000 + n * 8192) (by omega) (by omega)
      omega
  · refine iff_of_true (by omega) fun a ha ha' => ?_
    omega

/-! ## What a call does -/

namespace Kernel

/-- The call has changed neither the space of the process nor a valid entry nor the free
list. -/
structure BrkFailed (k k' : Kernel) : Prop where
  space : k'.space = k.space
  valid : ∀ t i, (k'.machine.pte t i).valid = (k.machine.pte t i).valid
  entries : ∀ t i, (k.machine.pte t i).valid = true → k'.machine.pte t i = k.machine.pte t i
  frames : ∀ free, k.machine.FreeList free → k'.machine.FreeList free

/-- The call has moved the break to the pages that cover every address below `addr`. The
pages up to a higher break are mapped to free frames, those from a lower one on are unmapped
and their frames are free. -/
structure BrkMoved (k k' : Kernel) (addr : Nat) : Prop where
  nonneg : 0 ≤ (k'.space k.currentProc).userBrkPage
  belowStack : (k'.space k.currentProc).userBrkPage < (k.space k.currentProc).lowestUserStackPage
  covers : ∀ n : Nat, (k'.space k.currentProc).userBrkPage ≤ n ↔
    ∀ a, VMEM_1_BASE ≤ a → a < addr → addrToPage (a - VMEM_1_BASE) < n
  stack : (k'.space k.currentProc).lowestUserStackPage
    = (k.space k.currentProc).lowestUserStackPage
  mapped : ∀ i : Nat, (k.space k.currentProc).userBrkPage ≤ i →
    i < (k'.space k.currentProc).userBrkPage →
    (k'.machine.pte (.region1 k.currentProc) i).valid = true ∧
      (k'.machine.pte (.region1 k.currentProc) i).prot = PROT_READ ||| PROT_WRITE
  unmapped : ∀ i : Nat, (k'.space k.currentProc).userBrkPage ≤ i →
    i < (k.space k.currentProc).userBrkPage →
    (k'.machine.pte (.region1 k.currentProc) i).valid = false
  others : ∀ (t : PageTable) (i : Nat), ¬ (t = .region1 k.currentProc ∧
      ((k.space k.currentProc).userBrkPage ≤ i ∧ i < (k'.space k.currentProc).userBrkPage ∨
        (k'.space k.currentProc).userBrkPage ≤ i ∧ i < (k.space k.currentProc).userBrkPage)) →
    k'.machine.pte t i = k.machine.pte t i
  frames : ∀ free, k.machine.FreeList free → ∃ free', k'.machine.FreeList free' ∧ ∀ f, f ∈ free' ↔
    (f ∈ free ∧ ∀ i : Nat, (k.space k.currentProc).userBrkPage ≤ i →
        i < (k'.space k.currentProc).userBrkPage →
        (k'.machine.pte (.region1 k.currentProc) i).pfn ≠ f) ∨
      ∃ i : Nat, (k'.space k.currentProc).userBrkPage ≤ i ∧
        i < (k.space k.currentProc).userBrkPage ∧
        (k.machine.pte (.region1 k.currentProc) i).pfn = f

/-- The address is refused: it is far below region 1, or it leaves no blank page below the
stack. -/
def BrkRefused (k : Kernel) (addr : Nat) : Prop :=
  addr + PAGESIZE ≤ VMEM_1_BASE ∨
    VMEM_1_BASE + ((k.space k.currentProc).lowestUserStackPage - 1) * PAGESIZE < addr

/-- The address is refused, or every page of the heap from the address on is mapped, and no
page from the break up to the address is mapped that the heap could reach before the frames
run out. -/
def BrkSafe (k : Kernel) (addr : Nat) : Prop :=
  k.BrkRefused addr ∨
    (∀ i : Nat, i < (k.space k.currentProc).userBrkPage → addr ≤ VMEM_1_BASE + i * PAGESIZE →
      (k.table i).valid = true) ∧
    ∀ i : Nat, (k.space k.currentProc).userBrkPage ≤ i → VMEM_1_BASE + i * PAGESIZE < addr →
      (k.table i).valid = true →
      ∀ free, k.machine.FreeList free → (k.space k.currentProc).userBrkPage + free.length < i

/-- The kernel with a new break for the running process, and memory changed. -/
def withBreak (k : Kernel) (page : Nat) (m : Machine) : Kernel :=
  { k.setSpace k.currentProc { k.space k.currentProc with userBrkPage := asInt page } with
    machine := m }

section
variable {k k' : Kernel} {free : List Nat} {addr brk lowest page : Nat} {m : Machine}

theorem withBreak_userBrkPage (hpage : page < 128) :
    ((k.withBreak page m).space k.currentProc).userBrkPage = page := by
  simp only [withBreak, setSpace, if_true]
  exact asInt_of_lt (by omega)

theorem withBreak_lowestUserStackPage :
    ((k.withBreak page m).space k.currentProc).lowestUserStackPage
      = (k.space k.currentProc).lowestUserStackPage := by
  simp only [withBreak, setSpace, if_true]

/-- `KernelBrk` in terms of page numbers. -/
theorem kernelBrk_eq (hbrk : (k.space k.currentProc).userBrkPage = brk)
    (hlowest : (k.space k.currentProc).lowestUserStackPage = lowest) (hgap : brk < lowest)
    (hstack : lowest < 128) :
    k.kernelBrk addr =
      if newUserBrkPage addr ≥ lowest then .ok (ERROR, k)
      else if newUserBrkPage addr > brk then
        k.machine.mapNewRegion1Pages k.currentProc brk (newUserBrkPage addr - brk)
          (PROT_READ ||| PROT_WRITE) >>= fun r =>
            if r.1 = ERROR then .ok (ERROR, { k with machine := r.2 })
            else .ok (SUCCESS, k.withBreak (newUserBrkPage addr) r.2)
      else if newUserBrkPage addr < brk then
        k.machine.unmapRegion1Pages k.currentProc (newUserBrkPage addr)
          (brk - newUserBrkPage addr) >>= fun m =>
            .ok (SUCCESS, k.withBreak (newUserBrkPage addr) m)
      else .ok (SUCCESS, k.withBreak (newUserBrkPage addr) k.machine) := by
  obtain rfl : asUnsigned (k.space k.currentProc).userBrkPage = brk := by
    rw [hbrk, asUnsigned_natCast (by omega)]
  obtain rfl : asUnsigned (k.space k.currentProc).lowestUserStackPage = lowest := by
    rw [hlowest, asUnsigned_natCast (by omega)]
  rfl

/-- A call that leaves everything alone. -/
theorem BrkFailed.refl (k : Kernel) : BrkFailed k k :=
  ⟨rfl, fun _ _ => rfl, fun _ _ _ => rfl, fun _ h => h⟩

/-- A heap that cannot grow for want of frames is as before. -/
theorem brkFailed_of_map {n : Nat} (hlist : k.machine.FreeList free)
    (hun : k.machine.Unmapped k.currentProc brk n)
    (h : Machine.MappedList k.machine m [] free k.currentProc brk brk n
      (PROT_READ ||| PROT_WRITE) ERROR) : BrkFailed k { k with machine := m } := by
  cases h with
  | error few list touches unmapped others =>
      have hpte := Machine.pte_outside touches.toOnlyTable others
      refine ⟨rfl, fun t i => ?_, fun t i hv => ?_, fun free' h' => ?_⟩
      · by_cases hi : t = .region1 k.currentProc ∧ brk ≤ i ∧ i < brk + n
        · obtain ⟨rfl, hi, hi'⟩ := hi
          rw [(hun i hi hi').2]
          exact unmapped i hi hi'
        · exact congrArg Pte.valid (hpte t i hi)
      · refine hpte t i ?_
        rintro ⟨rfl, hi, hi'⟩
        rw [(hun i hi hi').2] at hv
        cases hv
      · rw [← hlist.unique h']
        exact list

/-- A heap that has grown. -/
theorem brkMoved_of_map (haddr : addr < 0x100000000)
    (hbrk : (k.space k.currentProc).userBrkPage = brk)
    (hlowest : (k.space k.currentProc).lowestUserStackPage = lowest)
    (hgrow : brk < newUserBrkPage addr) (hlow : newUserBrkPage addr < lowest) (hstack : lowest < 128)
    (hlist : k.machine.FreeList free)
    (h : Machine.MappedList k.machine m [] free k.currentProc brk brk (newUserBrkPage addr - brk)
      (PROT_READ ||| PROT_WRITE) SUCCESS) :
    BrkMoved k (k.withBreak (newUserBrkPage addr) m) addr := by
  have hnew := withBreak_userBrkPage (k := k) (m := m) (show newUserBrkPage addr < 128 by omega)
  have hrange := h.rangeMapped hlist.nodup
  have hlast : brk + (newUserBrkPage addr - brk) = newUserBrkPage addr := by omega
  refine ⟨?_, ?_, fun n => ?_, withBreak_lowestUserStackPage, fun i hi hi' => ?_,
    fun i hi hi' => ?_, fun t i hi => ?_, fun free₁ h₁ => ?_⟩
  all_goals rw [hnew] at *
  all_goals try rw [hbrk] at *
  · exact Int.natCast_nonneg _
  · rw [hlowest]
    exact Int.ofNat_lt.mpr hlow
  · rw [Int.ofNat_le]
    exact newUserBrkPage_covers haddr (by omega)
  · have hi₁ : brk ≤ i := by omega
    have hi₂ : i < brk + (newUserBrkPage addr - brk) := by omega
    exact ⟨(hrange.valid i).mpr (.inl ⟨hi₁, hi₂⟩), hrange.prot i hi₁ hi₂⟩
  · omega
  · refine hrange.others t i ?_
    rintro ⟨rfl, hi₁, hi₂⟩
    exact hi ⟨rfl, .inl ⟨by omega, by omega⟩⟩
  · obtain ⟨free', h', hmem⟩ := hrange.rest
    rw [← hlist.unique h₁]
    refine ⟨free', h', fun f => (hmem f).trans ?_⟩
    constructor
    · rintro ⟨hf, hne⟩
      exact .inl ⟨hf, fun i hi hi' => hne i (by omega) (by omega)⟩
    · rintro (⟨hf, hne⟩ | ⟨i, hi, hi', -⟩)
      · exact ⟨hf, fun i hi hi' => hne i (by omega) (by omega)⟩
      · omega

/-- A heap that has shrunk. -/
theorem brkMoved_of_unmap (haddr : addr < 0x100000000)
    (hiso : k.machine.Isolated (ownedBy k.live) free) (hlive : k.live k.currentProc = true)
    (hbrk : (k.space k.currentProc).userBrkPage = brk)
    (hlowest : (k.space k.currentProc).lowestUserStackPage = lowest)
    (hshrink : newUserBrkPage addr < brk) (hgap : brk < lowest) (hstack : lowest < 128)
    (hvalid : ∀ i, newUserBrkPage addr ≤ i → i < brk → (k.table i).valid = true) :
    ∃ m, k.machine.unmapRegion1Pages k.currentProc (newUserBrkPage addr)
        (brk - newUserBrkPage addr) = .ok m ∧
      BrkMoved k (k.withBreak (newUserBrkPage addr) m) addr := by
  have hown := Machine.ownedBy_region1 hlive
  have hlast : newUserBrkPage addr + (brk - newUserBrkPage addr) = brk := by omega
  have hcount : Machine.pagesFrom (newUserBrkPage addr) (brk - newUserBrkPage addr)
      = brk - newUserBrkPage addr := by
    unfold Machine.pagesFrom
    omega
  -- The frames of the pages between the two breaks are distinct, and join the free ones.
  obtain ⟨hnodup, hlt⟩ := hiso.tableFrames_nodup (t := .region1 k.currentProc)
    (p := newUserBrkPage addr) (n := brk - newUserBrkPage addr)
    fun i _ hi => hown i (show i < 128 by omega)
  obtain ⟨m, hrun, hlist, htouches, hin, hout⟩ := Machine.unmapLoop_list k.currentProc
    hiso.list (fun i hi hi' => ⟨show i < 128 by omega, hvalid i hi (by omega)⟩) hnodup hlt
  refine ⟨m, ?_, ?_⟩
  · rw [Machine.unmapRegion1Pages, hcount]
    exact hrun
  have hnew := withBreak_userBrkPage (k := k) (m := m) (show newUserBrkPage addr < 128 by omega)
  refine ⟨?_, ?_, fun n => ?_, withBreak_lowestUserStackPage, fun i hi hi' => ?_,
    fun i hi hi' => ?_, fun t i hi => ?_, fun free₁ h₁ => ?_⟩
  all_goals rw [hnew] at *
  all_goals try rw [hbrk] at *
  · exact Int.natCast_nonneg _
  · rw [hlowest]
    exact Int.ofNat_lt.mpr (by omega)
  · rw [Int.ofNat_le]
    exact newUserBrkPage_covers haddr (by omega)
  · omega
  · show (m.pte (.region1 k.currentProc) i).valid = false
    rw [hin i (by omega) (by omega)]
  · refine Machine.pte_outside htouches.toOnlyTable hout t i ?_
    rintro ⟨rfl, hi₁, hi₂⟩
    exact hi ⟨rfl, .inr ⟨by omega, by omega⟩⟩
  · rw [← hiso.list.unique h₁]
    refine ⟨_, hlist, fun f => ?_⟩
    rw [List.mem_append, Machine.mem_tableFrames, hlast]
    constructor
    · rintro (hf | ⟨i, hi, hi', -, hpfn⟩)
      · exact .inl ⟨hf, fun i hi hi' => by omega⟩
      · exact .inr ⟨i, by omega, by omega, hpfn⟩
    · rintro (⟨hf, -⟩ | ⟨i, hi, hi', hpfn⟩)
      · exact .inl hf
      · exact .inr ⟨i, by omega, by omega, hvalid i (by omega) (by omega), hpfn⟩

/-- A break that stays where it is. -/
theorem brkMoved_of_eq (haddr : addr < 0x100000000)
    (hbrk : (k.space k.currentProc).userBrkPage = brk)
    (hlowest : (k.space k.currentProc).lowestUserStackPage = lowest)
    (hsame : newUserBrkPage addr = brk) (hgap : brk < lowest) (hstack : lowest < 128) :
    BrkMoved k (k.withBreak (newUserBrkPage addr) k.machine) addr := by
  have hnew := withBreak_userBrkPage (k := k) (m := k.machine)
    (show newUserBrkPage addr < 128 by omega)
  refine ⟨?_, ?_, fun n => ?_, withBreak_lowestUserStackPage, fun i hi hi' => ?_,
    fun i hi hi' => ?_, fun t i hi => rfl, fun free₁ h₁ => ?_⟩
  all_goals rw [hnew] at *
  all_goals try rw [hbrk] at *
  · exact Int.natCast_nonneg _
  · rw [hlowest]
    exact Int.ofNat_lt.mpr (by omega)
  · rw [Int.ofNat_le]
    exact newUserBrkPage_covers haddr (by omega)
  · omega
  · omega
  · refine ⟨free₁, h₁, fun f => ?_⟩
    constructor
    · exact fun hf => .inl ⟨hf, fun i hi hi' => by omega⟩
    · rintro (⟨hf, -⟩ | ⟨i, hi, hi', -⟩)
      · exact hf
      · omega

/-- The addresses that are refused in terms of the new break. -/
theorem brkRefused_iff (haddr : addr < 0x100000000)
    (hlowest : (k.space k.currentProc).lowestUserStackPage = lowest) (hpos : 0 < lowest)
    (hstack : lowest < 128) : k.BrkRefused addr ↔ lowest ≤ newUserBrkPage addr := by
  have hpage := newUserBrkPage_le_iff haddr (show lowest - 1 ≤ 128 by omega)
  have hnot : lowest ≤ newUserBrkPage addr ↔ ¬ newUserBrkPage addr ≤ lowest - 1 := by omega
  rw [BrkRefused, hnot, hpage, hlowest]
  simp only [VMEM_1_BASE, PAGESIZE]
  omega

/-- The safe addresses in terms of the new break. -/
theorem brkSafe_iff (haddr : addr < 0x100000000)
    (hbrk : (k.space k.currentProc).userBrkPage = brk)
    (hlowest : (k.space k.currentProc).lowestUserStackPage = lowest) (hgap : brk < lowest)
    (hstack : lowest < 128) :
    k.BrkSafe addr ↔ lowest ≤ newUserBrkPage addr ∨
      (∀ i, newUserBrkPage addr ≤ i → i < brk → (k.table i).valid = true) ∧
      ∀ i, brk ≤ i → i < newUserBrkPage addr → (k.table i).valid = true →
        ∀ free, k.machine.FreeList free → brk + free.length < i := by
  rw [BrkSafe, brkRefused_iff haddr hlowest (by omega) hstack]
  refine or_congr_right' fun hlow => ?_
  have hpage : ∀ i ≤ 128, newUserBrkPage addr ≤ i ↔ addr ≤ VMEM_1_BASE + i * PAGESIZE := by
    intro i hi
    have hnear := (newUserBrkPage_le_iff haddr hi).mp
    have hfar := (newUserBrkPage_le_iff haddr (Nat.le_refl 128)).mp (by omega)
    refine ⟨fun hle => (hnear hle).2, fun hle => ?_⟩
    exact (newUserBrkPage_le_iff haddr hi).mpr ⟨hfar.1, hle⟩
  rw [hbrk]
  constructor
  · rintro ⟨hshrink, hgrow⟩
    refine ⟨fun i hi hi' => hshrink i (Int.ofNat_lt.mpr hi') ((hpage i (by omega)).mp hi),
      fun i hi hi' hv free hfree => ?_⟩
    have hbelow := (hpage i (by omega)).not.mp (Nat.not_le.mpr hi')
    have hfew := hgrow i (Int.ofNat_le.mpr hi) (Nat.not_le.mp hbelow) hv free hfree
    omega
  · rintro ⟨hshrink, hgrow⟩
    refine ⟨fun i hi haddr' => ?_, fun i hi haddr' hv free hfree => ?_⟩
    · have hi' : i < brk := Int.ofNat_lt.mp hi
      exact hshrink i ((hpage i (by omega)).mpr haddr') hi'
    · have hi' : i < newUserBrkPage addr := by
        by_contra hge
        by_cases hlast : i ≤ 128
        · exact absurd ((hpage i hlast).mp (Nat.not_lt.mp hge)) (Nat.not_le.mpr haddr')
        · -- Such an address would be refused.
          have hle := (hpage 128 (Nat.le_refl 128)).mp (by omega)
          simp only [VMEM_1_BASE, PAGESIZE] at hle haddr'
          omega
      have hfew := hgrow i (Int.ofNat_le.mp hi) hi' hv free hfree
      omega

/-- The first mapped page of a range. -/
theorem exists_first_valid {i : Nat} {t : Nat → Pte} (hi : brk ≤ i) (hv : (t i).valid = true) :
    ∃ j, brk ≤ j ∧ j ≤ i ∧ (t j).valid = true ∧ ∀ n, brk ≤ n → n < j → (t n).valid = false := by
  have hex : ∃ j, brk ≤ j ∧ (t j).valid = true := ⟨i, hi, hv⟩
  obtain ⟨hj, hvalid⟩ := Nat.find_spec hex
  refine ⟨Nat.find hex, hj, Nat.find_min' hex ⟨hi, hv⟩, hvalid, fun n hn hlt => ?_⟩
  rw [← Bool.not_eq_true]
  exact fun hvn => Nat.find_min hex hlt ⟨hn, hvn⟩

/-- A call on a safe address returns, and moves the break or leaves everything alone. -/
theorem kernelBrk_done (hiso : k.machine.Isolated (ownedBy k.live) free)
    (hlive : k.live k.currentProc = true) (hbounds : k.HasBounds k.currentProc)
    (haddr : addr < 0x100000000) (hsafe : k.BrkSafe addr) :
    ∃ rc k', k.kernelBrk addr = .ok (rc, k') ∧
      (rc = ERROR ∧ BrkFailed k k' ∨ rc = SUCCESS ∧ BrkMoved k k' addr) := by
  obtain ⟨brk, lowest, hbrk, hlowest, hgap, hstack⟩ := hbounds.bounds
  rw [kernelBrk_eq hbrk hlowest hgap hstack]
  by_cases hhigh : newUserBrkPage addr ≥ lowest
  · exact ⟨ERROR, k, if_pos hhigh, .inl ⟨rfl, .refl k⟩⟩
  obtain ⟨hshrinks, hgrows⟩ :=
    ((brkSafe_iff haddr hbrk hlowest hgap hstack).mp hsafe).resolve_left hhigh
  rw [if_neg hhigh]
  by_cases hgrow : newUserBrkPage addr > brk
  · rw [if_pos hgrow]
    by_cases hmapped : ∃ i, brk ≤ i ∧ i < newUserBrkPage addr ∧ (k.table i).valid = true
    · -- A mapped page is in the way, and the frames run out before the heap gets there.
      obtain ⟨i, hi, hi', hv⟩ := hmapped
      obtain ⟨j, hj, hji, hvj, hfirst⟩ := exists_first_valid hi hv
      have hun : k.machine.Unmapped k.currentProc brk (j - brk) :=
        fun n hn hn' => ⟨show n < 128 by omega, hfirst n hn (by omega)⟩
      obtain ⟨-, hfails⟩ := Machine.mapNewRegion1Pages_blocked (newUserBrkPage addr - brk)
        (PROT_READ ||| PROT_WRITE) hiso.list hiso.freeSmall hj (by omega)
        (show brk + (newUserBrkPage addr - brk) ≤ 128 by omega) hvj hun
      obtain ⟨m, hrun, hlist⟩ := hfails (hgrows j hj (by omega) hvj free hiso.list)
      rw [hrun]
      exact ⟨ERROR, _, rfl, .inl ⟨rfl, brkFailed_of_map hiso.list hun hlist⟩⟩
    have hun : k.machine.Unmapped k.currentProc brk (newUserBrkPage addr - brk) := by
      intro i hi hi'
      refine ⟨show i < 128 by omega, ?_⟩
      rw [← Bool.not_eq_true]
      exact fun hv => hmapped ⟨i, hi, by omega, hv⟩
    obtain ⟨rc, m, hrun, hlist⟩ := Machine.mapNewRegion1Pages_list brk
      (newUserBrkPage addr - brk) (PROT_READ ||| PROT_WRITE) hiso.list hiso.freeSmall hun
    rw [hrun]
    rcases hlist.result with rfl | rfl
    · exact ⟨ERROR, _, rfl, .inl ⟨rfl, brkFailed_of_map hiso.list hun hlist⟩⟩
    · exact ⟨SUCCESS, _, rfl, .inr ⟨rfl, brkMoved_of_map haddr hbrk hlowest hgrow (by omega) hstack
        hiso.list hlist⟩⟩
  rw [if_neg hgrow]
  by_cases hshrink : newUserBrkPage addr < brk
  · rw [if_pos hshrink]
    obtain ⟨m, hrun, hmoved⟩ := brkMoved_of_unmap haddr hiso hlive hbrk hlowest hshrink hgap hstack
      hshrinks
    rw [hrun]
    exact ⟨SUCCESS, _, rfl, .inr ⟨rfl, hmoved⟩⟩
  · rw [if_neg hshrink]
    exact ⟨SUCCESS, _, rfl, .inr ⟨rfl, brkMoved_of_eq haddr hbrk hlowest (by omega) hgap hstack⟩⟩

/-- A call that would give back a page that is not mapped, or map one that is, trips an
`assert`. -/
theorem kernelBrk_stuck (hiso : k.machine.Isolated (ownedBy k.live) free)
    (hlive : k.live k.currentProc = true) (hbounds : k.HasBounds k.currentProc)
    (haddr : addr < 0x100000000) (hsafe : ¬ k.BrkSafe addr) :
    k.kernelBrk addr = .error .assertion := by
  obtain ⟨brk, lowest, hbrk, hlowest, hgap, hstack⟩ := hbounds.bounds
  rw [brkSafe_iff haddr hbrk hlowest hgap hstack, not_or] at hsafe
  obtain ⟨hlow, hunsafe⟩ := hsafe
  rw [kernelBrk_eq hbrk hlowest hgap hstack, if_neg hlow]
  by_cases hgrow : newUserBrkPage addr > brk
  · rw [if_pos hgrow]
    have hreached : ¬ ∀ i, brk ≤ i → i < newUserBrkPage addr → (k.table i).valid = true →
        ∀ free, k.machine.FreeList free → brk + free.length < i :=
      fun hall => hunsafe ⟨fun i hi hi' => by omega, hall⟩
    push Not at hreached
    obtain ⟨i, hi, hi', hv, free₁, hfree₁, henough⟩ := hreached
    rw [← hiso.list.unique hfree₁] at henough
    obtain ⟨j, hj, hji, hvj, hfirst⟩ := exists_first_valid hi hv
    obtain ⟨hstops, -⟩ := Machine.mapNewRegion1Pages_blocked (newUserBrkPage addr - brk)
      (PROT_READ ||| PROT_WRITE) hiso.list hiso.freeSmall hj (by omega)
      (show brk + (newUserBrkPage addr - brk) ≤ 128 by omega) hvj
      fun n hn hn' => ⟨show n < 128 by omega, hfirst n hn (by omega)⟩
    rw [hstops (by omega)]
    rfl
  have hhole : ¬ ∀ i, newUserBrkPage addr ≤ i → i < brk → (k.table i).valid = true :=
    fun hall => hunsafe ⟨hall, fun i hi hi' => by omega⟩
  have hshrink : newUserBrkPage addr < brk := by
    by_contra hle
    exact hhole fun i hi hi' => absurd (Nat.lt_of_le_of_lt hi hi') hle
  rw [if_neg hgrow, if_pos hshrink, Machine.unmapRegion1Pages]
  have hcount : Machine.pagesFrom (newUserBrkPage addr) (brk - newUserBrkPage addr)
      = brk - newUserBrkPage addr := by
    unfold Machine.pagesFrom
    omega
  rw [hcount]
  cases hrun : k.machine.unmapRegion1PagesLoop k.currentProc (newUserBrkPage addr)
      (brk - newUserBrkPage addr) with
  | error stop =>
      rw [Machine.unmapLoop_error hrun]
      rfl
  | ok m =>
      -- A loop that returns has found every page mapped.
      obtain ⟨-, -, -, -, hin, -⟩ := hiso.unmapLoop (Machine.ownedBy_region1 hlive) hrun
      exact absurd (fun i hi hi' => (hin i hi (by omega)).2.1) hhole

/-- A call that leaves everything alone keeps the layout. -/
theorem BrkFailed.hasLayout {p : Pid} (h : BrkFailed k k') (hlayout : k.HasLayout p) :
    k'.HasLayout p := by
  refine hlayout.same ⟨?_, ?_, fun page _ => h.valid _ page⟩
  · rw [h.space]
  · rw [h.space]

/-- A break that has moved stays below the gap. -/
theorem BrkMoved.hasLayout (h : BrkMoved k k' addr) (hlayout : k.HasLayout k.currentProc) :
    k'.HasLayout k.currentProc := by
  have hstack := h.stack
  have hgap := hlayout.gap
  have hbelow := h.belowStack
  unfold HasLayout
  rw [hstack]
  refine ⟨h.nonneg, hbelow, hlayout.stack, fun page hlow hhigh => ?_, fun page hlow hhigh => ?_⟩
  · by_cases hold : (k.space k.currentProc).userBrkPage ≤ page
    · -- A page of the old gap.
      rw [h.others _ page fun hpage => by omega]
      exact hlayout.unmapped page hold hhigh
    · exact h.unmapped page hlow (by omega)
  · rw [h.others _ page fun hpage => by omega]
    exact hlayout.mapped page hlow hhigh

/-- Addresses are 32-bit words. -/
theorem kernelBrk_mod (k : Kernel) (addr : Nat) :
    k.kernelBrk (addr % 0x100000000) = k.kernelBrk addr := by
  unfold Kernel.kernelBrk
  rw [Nat.mod_add_mod]

/-- A call that returns has left everything alone, or has moved the break. -/
theorem kernelBrk_result {rc : Int} (hiso : k.machine.Isolated (ownedBy k.live) free)
    (hlive : k.live k.currentProc = true) (hbounds : k.HasBounds k.currentProc)
    (hok : k.kernelBrk addr = .ok (rc, k')) :
    BrkFailed k k' ∨ BrkMoved k k' (addr % 0x100000000) := by
  rw [← kernelBrk_mod] at hok
  have haddr : addr % 0x100000000 < 0x100000000 := Nat.mod_lt _ (by decide)
  generalize addr % 0x100000000 = addr at hok haddr ⊢
  by_cases hsafe : k.BrkSafe addr
  · obtain ⟨rc₁, k₁, hrun, hdone⟩ := kernelBrk_done hiso hlive hbounds haddr hsafe
    rw [hrun] at hok
    cases hok
    rcases hdone with ⟨-, hfailed⟩ | ⟨-, hmoved⟩
    · exact .inl hfailed
    · exact .inr hmoved
  · rw [kernelBrk_stuck hiso hlive hbounds haddr hsafe] at hok
    cases hok

/-- A call that returns keeps the layout of the process that makes it. -/
theorem kernelBrk_layout {rc : Int} (hiso : k.machine.Isolated (ownedBy k.live) free)
    (hlive : k.live k.currentProc = true) (hlayout : k.HasLayout k.currentProc)
    (hok : k.kernelBrk addr = .ok (rc, k')) : k'.HasLayout k.currentProc := by
  rcases kernelBrk_result hiso hlive hlayout.hasBounds hok with hfailed | hmoved
  · exact hfailed.hasLayout hlayout
  · exact hmoved.hasLayout hlayout

/-- A call that returns keeps the break below the stack. -/
theorem kernelBrk_bounds {rc : Int} (hiso : k.machine.Isolated (ownedBy k.live) free)
    (hlive : k.live k.currentProc = true) (hbounds : k.HasBounds k.currentProc)
    (hok : k.kernelBrk addr = .ok (rc, k')) : k'.HasBounds k.currentProc := by
  rcases kernelBrk_result hiso hlive hbounds hok with hfailed | hmoved
  · exact hbounds.same (by rw [hfailed.space]) (by rw [hfailed.space])
  · refine ⟨hmoved.nonneg, ?_, ?_⟩
    · rw [hmoved.stack]
      exact hmoved.belowStack
    · rw [hmoved.stack]
      exact hbounds.stack

end

end Kernel

end Theynix
