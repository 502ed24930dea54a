import Theynix.FrameIsolation

/-!
# `Theynix.KernelHeap`: moving the kernel break

Region 0 is consistent when the pages of the kernel heap, and no others below the kernel
stack, are valid. `SetKernelBrk` keeps it so when it shrinks the heap, and when it finds a
frame for every page by which it grows the heap. When the frames run out on the way, the
pages that have been mapped stay mapped, and `kernel_brk_page` does not say so. The address
0 wraps around to the highest page.

* `kernel_brk_exact_iff`: exactly when a call keeps region 0 consistent and returns what it
  should.
-/

set_option autoImplicit false

namespace Theynix

open Theynix.Lib (bind_eq_ok ite_eq_ok)

namespace Machine

section
variable {m m' m₁ m₂ : Machine} {own : PteRef → Bool} {free : List Nat}

/-! ## Growing -/

/-- The growing loop maps all its pages, or as many as there are frames. -/
theorem Isolated.growHeap {p n : Nat} (h : m.Isolated own free)
    (hn : p + n ≤ KERNEL_STACK_BASE_PAGE)
    (hun : ∀ i, p ≤ i → i < p + n → (m.pte .region0 i).valid = false) :
    ∃ rc m', m.growKernelHeap p n = .ok (rc, m') ∧ OnlyTable .region0 m m' ∧
      (∀ i, ¬ (p ≤ i ∧ i < p + n) → m'.pte .region0 i = m.pte .region0 i) ∧
      (∀ i, p ≤ i → i < p + n → ((m'.pte .region0 i).valid = true ↔ i < p + free.length)) ∧
      (rc = SUCCESS ∧ n ≤ free.length ∨ rc = ERROR ∧ free.length < n) ∧
      (rc = ERROR → free = [] → m' = m) := by
  induction n generalizing m free p with
  | zero =>
      refine ⟨SUCCESS, m, rfl, .refl, fun _ _ => rfl, fun i hi hi' => by omega,
        .inl ⟨rfl, Nat.zero_le _⟩, fun hrc => absurd hrc (by decide)⟩
  | succ n ih =>
      have hn' : p + (n + 1) ≤ 126 := hn
      have hp : p < VMEM_0_LIMIT / PAGESIZE := by
        show p < 128
        omega
      have hv := hun p (Nat.le_refl p) (by omega)
      cases free with
      | nil =>
          refine ⟨ERROR, m, ?_, .refl, fun _ _ => rfl, fun i hi hi' => ?_,
            .inr ⟨rfl, Nat.succ_pos n⟩, fun _ _ => rfl⟩
          -- The first page of the rest finds no frame, and the loop ends there.
          · simp only [Machine.growKernelHeap, Machine.mapNewRegion0Page, cAssert, hp, hv,
              decide_true, if_true, Lib.ok_bind, Bool.not_false, getUnusedFrame_nil h.list]
            rfl
          · rw [hun i hi hi', List.length_nil]
            exact iff_of_false (by decide) (by omega)
      | cons f free =>
          have hget := h.getUnusedFrame ⟨.region0, p⟩ (PROT_READ ||| PROT_WRITE) (m.pte .region0 p)
          rw [setPte_self] at hget
          obtain ⟨m₁, m₂, hget, -, hm₂, hiso, honly, -, hpte⟩ := hget
          -- The first page is mapped, and only its entry has changed.
          have hself : (m₂.pte .region0 p).valid = true := by
            rw [hpte, setPte_pte_self]
          have hrest : ∀ i, i ≠ p → m₂.pte .region0 i = m.pte .region0 i := by
            intro i hne
            rw [hpte, setPte_pte_of_ne _ _ fun he => hne he.2]
          have hmap : m.mapNewRegion0Page p = .ok (SUCCESS, m₂) := by
            simp only [Machine.mapNewRegion0Page, cAssert, hp, hv, decide_true, if_true,
              Lib.ok_bind, Bool.not_false, hget, show ¬ SUCCESS = ERROR by decide, if_false, hm₂]
            rfl
          obtain ⟨rc, m', hrun, honly', hout, hin, hrc, -⟩ := ih (p := p + 1) hiso
            (show p + 1 + n ≤ 126 by omega) fun i hi hi' => by
              rw [hrest i (by omega)]
              exact hun i (by omega) (by omega)
          refine ⟨rc, m', ?_, honly.trans honly', fun i hi => ?_, fun i hi hi' => ?_, ?_,
            fun _ hnil => by cases hnil⟩
          · simp only [Machine.growKernelHeap, hmap, Lib.ok_bind, show ¬ SUCCESS = ERROR by decide,
              if_false]
            exact hrun
          · rw [hout i (by omega), hrest i (by omega)]
          · rw [List.length_cons]
            by_cases hip : i = p
            · subst hip
              rw [hout i (by omega), hself]
              exact iff_of_true rfl (by omega)
            · rw [hin i (by omega) (by omega)]
              omega
          · rw [List.length_cons]
            rcases hrc with ⟨hrc, hlen⟩ | ⟨hrc, hlen⟩
            · exact .inl ⟨hrc, Nat.succ_le_succ hlen⟩
            · exact .inr ⟨hrc, Nat.succ_lt_succ hlen⟩

/-! ## Shrinking -/

/-- The shrinking loop unmaps the pages of its range that are below the kernel stack. -/
theorem Isolated.shrinkHeap {p n : Nat} (h : m.Isolated own free)
    (hown : ∀ i < KERNEL_STACK_BASE_PAGE, own ⟨.region0, i⟩ = true)
    (hvalid : ∀ i, p ≤ i → i < p + n → i < KERNEL_STACK_BASE_PAGE →
      (m.pte .region0 i).valid = true) :
    ∃ m', m.shrinkKernelHeap p n = .ok m' ∧ OnlyTable .region0 m m' ∧
      ∀ i, (m'.pte .region0 i).valid = true ↔ (m.pte .region0 i).valid = true ∧
        ¬ (p ≤ i ∧ i < p + n ∧ i < KERNEL_STACK_BASE_PAGE) := by
  induction n generalizing m free with
  | zero =>
      refine ⟨m, rfl, .refl, fun i => ?_⟩
      rw [and_iff_left]
      omega
  | succ n ih =>
      by_cases hlt : p + n < KERNEL_STACK_BASE_PAGE
      · have hlt' : p + n < 126 := hlt
        have hp : p + n < VMEM_0_LIMIT / PAGESIZE := by
          show p + n < 128
          omega
        have hv := hvalid (p + n) (by omega) (by omega) hlt
        have hheld : m.held own ⟨.region0, p + n⟩ = some (m.pte .region0 (p + n)).pfn :=
          held_eq_some.mpr ⟨hown (p + n) hlt, hv, rfl⟩
        obtain ⟨hsame, -, -⟩ := releaseUsedFrame_spec h.list (h.exclusive.notFree hheld)
          (h.heldSmall hheld)
        have hiso := (h.releaseUsedFrame hheld).1
        generalize hm₁ : (m.releaseUsedFrame (m.pte .region0 (p + n)).pfn).modifyPte .region0 (p + n)
          (fun e => { e with valid := false }) = m₁ at hiso
        have hself : (m₁.pte .region0 (p + n)).valid = false := by
          rw [← hm₁, modifyPte, setPte_pte_self]
        have hrest : ∀ i, i ≠ p + n → m₁.pte .region0 i = m.pte .region0 i := by
          intro i hne
          rw [← hm₁, modifyPte, setPte_pte_of_ne _ _ fun he => hne he.2, hsame.pte]
        have honly : OnlyTable .region0 m m₁ := by
          rw [← hm₁]
          exact (OnlyTable.of_sameTables hsame).trans (.setPte (p + n) _)
        obtain ⟨m', hrun, honly', hin⟩ := ih hiso fun i hi hi' hlt => by
          rw [hrest i (by omega)]
          exact hvalid i hi (by omega) hlt
        refine ⟨m', ?_, honly.trans honly', fun i => ?_⟩
        · have hunmap : m.unmapUsedRegion0Page (p + n) = .ok m₁ := by
            simp only [Machine.unmapUsedRegion0Page, cAssert, hp, hv, decide_true, if_true,
              Lib.ok_bind, hm₁]
            rfl
          simp only [Machine.shrinkKernelHeap, if_pos hlt, hunmap, Lib.ok_bind]
          exact hrun
        · rw [hin]
          by_cases hip : i = p + n
          · rw [hip, hself]
            exact iff_of_false (fun hfalse => by cases hfalse.1) fun hfalse =>
              hfalse.2 ⟨by omega, by omega, hlt⟩
          · rw [hrest i hip]
            exact and_congr_right fun _ => not_congr (by omega)
      · have hstep : m.shrinkKernelHeap p (n + 1) = m.shrinkKernelHeap p n := by
          simp only [Machine.shrinkKernelHeap, if_neg hlt, Lib.ok_bind]
        obtain ⟨m', hrun, honly, hin⟩ := ih h fun i hi hi' => hvalid i hi (by omega)
        refine ⟨m', hstep.trans hrun, honly, fun i => ?_⟩
        have hlt' : ¬ p + n < 126 := hlt
        rw [hin]
        refine and_congr_right fun _ => not_congr ?_
        show _ ∧ _ ∧ i < 126 ↔ _ ∧ _ ∧ i < 126
        omega

/-! ## `SetKernelBrk` -/

/-- `new_kernel_brk_page`. -/
def newKernelBrkPage (addr : Nat) : Nat := addrToPage ((addr + 0xFFFFFFFF) % 0x100000000) + 1

/-- How many pages the heap grows by. -/
def heapGrowth (m : Machine) (addr : Nat) : Nat :=
  min (newKernelBrkPage addr) KERNEL_STACK_BASE_PAGE - m.kernelBrkPage

theorem heapGrowth_eq (m : Machine) (addr : Nat) :
    m.heapGrowth addr = min (newKernelBrkPage addr) 126 - m.kernelBrkPage := rfl

theorem newKernelBrkPage_zero : newKernelBrkPage 0 = 0x80000 := rfl

theorem newKernelBrkPage_eq {addr : Nat} (hpos : 0 < addr) (hlt : addr < 0x100000000) :
    newKernelBrkPage addr = (addr - 1) / 8192 + 1 := by
  rw [newKernelBrkPage, addrToPage_eq]
  omega

/-- The three cases of `SetKernelBrk` with virtual memory enabled. -/
theorem setKernelBrk_eq {addr : Nat} (haddr : ¬ addr > KERNEL_STACK_BASE)
    (hvm : m.virtualMemoryEnabled = true) :
    m.setKernelBrk addr =
      if newKernelBrkPage addr > m.kernelBrkPage then
        m.growKernelHeap m.kernelBrkPage (m.heapGrowth addr) >>= fun r =>
          if r.1 = ERROR then .ok (-1, r.2)
          else .ok (0, { r.2 with kernelBrkPage := newKernelBrkPage addr })
      else if newKernelBrkPage addr < m.kernelBrkPage then
        m.shrinkKernelHeap (newKernelBrkPage addr) (m.kernelBrkPage - newKernelBrkPage addr) >>=
          fun m₁ => .ok (0, { m₁ with kernelBrkPage := newKernelBrkPage addr })
      else .ok (0, { m with kernelBrkPage := newKernelBrkPage addr }) := by
  unfold Machine.setKernelBrk
  rw [if_neg haddr, if_pos hvm]
  rfl

/-- With virtual memory enabled, the pages of region 0 below the kernel stack are valid
exactly below the kernel break. -/
structure Consistent (m : Machine) : Prop where
  enabled : m.virtualMemoryEnabled = true
  valid : ∀ i < KERNEL_STACK_BASE_PAGE,
    (m.pte .region0 i).valid = true ↔ i < m.kernelBrkPage

/-- What `SetKernelBrk` has done when it returns for an address below the kernel stack. -/
inductive BreakMoved (m m' : Machine) (free : List Nat) (addr : Nat) : Int → Prop
  | moved (enough : m.heapGrowth addr ≤ free.length)
      (brk : m'.kernelBrkPage = newKernelBrkPage addr)
      (consistent : m'.Consistent) : BreakMoved m m' free addr 0
  | failed (few : free.length < m.heapGrowth addr) (brk : m'.kernelBrkPage = m.kernelBrkPage)
      (nothing : free = [] → m' = m)
      (mapped : free ≠ [] → (m'.pte .region0 m.kernelBrkPage).valid = true) :
      BreakMoved m m' free addr (-1)

theorem Consistent.growBreak {addr : Nat} (h : m.Consistent) (hiso : m.Isolated own free)
    (haddr : ¬ addr > KERNEL_STACK_BASE) (hgrow : newKernelBrkPage addr > m.kernelBrkPage) :
    ∃ rc m', m.setKernelBrk addr = .ok (rc, m') ∧ BreakMoved m m' free addr rc := by
  have hrun := setKernelBrk_eq haddr h.enabled
  rw [if_pos hgrow] at hrun
  have hrange : ∀ i, m.kernelBrkPage ≤ i →
      (i < m.kernelBrkPage + m.heapGrowth addr ↔ i < newKernelBrkPage addr ∧ i < 126) := by
    intro i hi
    rw [heapGrowth_eq]
    omega
  by_cases hzero : m.heapGrowth addr = 0
  · -- The heap has reached the kernel stack already.
    rw [hzero] at hrun
    refine ⟨0, _, hrun, .moved (by omega) rfl ⟨h.enabled, fun i hi => ?_⟩⟩
    rw [h.valid i hi]
    have hi' : i < 126 := hi
    have hnone := hrange i
    show _ ↔ i < newKernelBrkPage addr
    omega
  have hlast : m.kernelBrkPage + m.heapGrowth addr ≤ 126 := by
    rw [heapGrowth_eq] at hzero ⊢
    omega
  obtain ⟨rc, m₁, hgrown, honly, hout, hin, hrc, hnil⟩ := hiso.growHeap hlast fun i hi hi' => by
    rw [← Bool.not_eq_true, h.valid i (show i < 126 by omega)]
    omega
  rw [hgrown] at hrun
  rcases hrc with ⟨rfl, henough⟩ | ⟨rfl, hfew⟩
  · refine ⟨0, _, hrun, .moved henough rfl ⟨honly.virtualMemoryEnabled.trans h.enabled,
      fun i hi => ?_⟩⟩
    have hi' : i < 126 := hi
    show (m₁.pte .region0 i).valid = true ↔ i < newKernelBrkPage addr
    by_cases hin' : m.kernelBrkPage ≤ i ∧ i < m.kernelBrkPage + m.heapGrowth addr
    · rw [hin i hin'.1 hin'.2]
      have hr := hrange i hin'.1
      omega
    · rw [hout i hin', h.valid i hi]
      have hr := hrange i
      omega
  · refine ⟨-1, m₁, hrun, .failed hfew honly.kernelBrkPage (hnil rfl) fun hne => ?_⟩
    have hpos := List.length_pos_of_ne_nil hne
    rw [hin m.kernelBrkPage (Nat.le_refl _) (by omega)]
    omega

theorem Consistent.shrinkBreak {addr : Nat} (h : m.Consistent) (hiso : m.Isolated own free)
    (hown : ∀ i < KERNEL_STACK_BASE_PAGE, own ⟨.region0, i⟩ = true)
    (haddr : ¬ addr > KERNEL_STACK_BASE) (hgrow : ¬ newKernelBrkPage addr > m.kernelBrkPage) :
    ∃ m', m.setKernelBrk addr = .ok (0, m') ∧ BreakMoved m m' free addr 0 := by
  have hzero : m.heapGrowth addr = 0 := by
    rw [heapGrowth_eq]
    omega
  have hrun := setKernelBrk_eq haddr h.enabled
  rw [if_neg hgrow] at hrun
  by_cases hshrink : newKernelBrkPage addr < m.kernelBrkPage
  · rw [if_pos hshrink] at hrun
    obtain ⟨m₁, hshrunk, honly, hin⟩ := hiso.shrinkHeap (p := newKernelBrkPage addr)
      (n := m.kernelBrkPage - newKernelBrkPage addr) hown fun i hi hi' hlt => by
        rw [h.valid i hlt]
        omega
    rw [hshrunk] at hrun
    refine ⟨_, hrun, .moved (by omega) rfl ⟨honly.virtualMemoryEnabled.trans h.enabled,
      fun i hi => ?_⟩⟩
    show (m₁.pte .region0 i).valid = true ↔ i < newKernelBrkPage addr
    rw [hin, h.valid i hi]
    omega
  · rw [if_neg hshrink] at hrun
    refine ⟨_, hrun, .moved (by omega) rfl ⟨h.enabled, fun i hi => ?_⟩⟩
    show (m.pte .region0 i).valid = true ↔ i < newKernelBrkPage addr
    rw [h.valid i hi]
    omega

/-- `SetKernelBrk` returns, region 0 is consistent after it, a failed call changes nothing,
and a successful one sets the break to the first page boundary at or above the address. -/
def KernelBrkExact (m : Machine) (free : List Nat) (addr : Nat) : Prop :=
  ∃ rc m', m.setKernelBrk addr = .ok (rc, m') ∧ m'.Consistent ∧
    (rc = -1 ∧ m'.kernelBrkPage = m.kernelBrkPage ∧ m'.pte .region0 = m.pte .region0 ∧
        (∃ free', m'.FreeList free' ∧ ∀ f, f ∈ free' ↔ f ∈ free) ∨
      rc = 0 ∧ (∀ n, m'.kernelBrkPage ≤ n ↔ addr ≤ n * PAGESIZE) ∧
        m'.kernelBrkPage ≤ KERNEL_STACK_BASE_PAGE)

/-- The address is refused, or the frames do not run out while the heap grows; there may be
none in the beginning. The address 0 must find no frame for a heap that could grow. -/
def KernelBrkSafe (m : Machine) (free : List Nat) (addr : Nat) : Prop :=
  KERNEL_STACK_BASE < addr ∨
    (addr = 0 → free = [] ∧ m.kernelBrkPage < KERNEL_STACK_BASE_PAGE) ∧
      (free = [] ∨ m.heapGrowth addr ≤ free.length)

/-- A call that moves the break to where it belongs. -/
theorem BreakMoved.exact_iff {addr : Nat} {rc : Int} (h : m.Consistent) (hlist : m.FreeList free)
    (haddr : ¬ addr > KERNEL_STACK_BASE) (hrun : m.setKernelBrk addr = .ok (rc, m'))
    (hmoved : BreakMoved m m' free addr rc) :
    m.KernelBrkExact free addr ↔ m.KernelBrkSafe free addr := by
  have haddr' : addr ≤ 0xFC000 := Nat.not_lt.mp haddr
  have hbase : ¬ KERNEL_STACK_BASE < addr := haddr
  have hexact : m.KernelBrkExact free addr ↔ m'.Consistent ∧
      (rc = -1 ∧ m'.kernelBrkPage = m.kernelBrkPage ∧ m'.pte .region0 = m.pte .region0 ∧
          (∃ free', m'.FreeList free' ∧ ∀ f, f ∈ free' ↔ f ∈ free) ∨
        rc = 0 ∧ (∀ n, m'.kernelBrkPage ≤ n ↔ addr ≤ n * PAGESIZE) ∧
          m'.kernelBrkPage ≤ KERNEL_STACK_BASE_PAGE) := by
    constructor
    · rintro ⟨rc₁, m₁, hrun₁, hrest⟩
      rw [hrun] at hrun₁
      cases hrun₁
      exact hrest
    · exact fun hrest => ⟨rc, m', hrun, hrest⟩
  rw [hexact, KernelBrkSafe, or_iff_right hbase]
  cases hmoved with
  | moved enough brk consistent =>
      by_cases hzero : addr = 0
      · -- The break has wrapped around.
        subst hzero
        rw [newKernelBrkPage_zero] at brk
        refine iff_of_false ?_ ?_
        · rintro ⟨-, ⟨hrc, -⟩ | ⟨-, -, hle⟩⟩
          · exact absurd hrc (by decide)
          · rw [brk] at hle
            exact absurd hle (by decide)
        · rintro ⟨hsafe, -⟩
          obtain ⟨rfl, hlt⟩ := hsafe rfl
          have hlt' : m.kernelBrkPage < 126 := hlt
          rw [heapGrowth_eq, newKernelBrkPage_zero, List.length_nil] at enough
          omega
      · have hpage := newKernelBrkPage_eq (show 0 < addr by omega) (by omega)
        refine iff_of_true ⟨consistent, .inr ⟨rfl, fun n => ?_, ?_⟩⟩
          ⟨fun hz => absurd hz hzero, .inr enough⟩
        · rw [brk, hpage]
          show _ ↔ addr ≤ n * 8192
          omega
        · rw [brk, hpage]
          show _ ≤ 126
          omega
  | failed few brk nothing mapped =>
      by_cases hnil : free = []
      -- With no frame at all the call changes nothing.
      · obtain rfl := nothing hnil
        refine iff_of_true ⟨h, .inl ⟨rfl, rfl, rfl, free, hlist, fun _ => .rfl⟩⟩
          ⟨fun _ => ⟨hnil, ?_⟩, .inl hnil⟩
        show m'.kernelBrkPage < 126
        rw [heapGrowth_eq] at few
        omega
      · -- The page at the break has been mapped, and the break has not moved.
        refine iff_of_false ?_ ?_
        · rintro ⟨hcons, -⟩
          have hlt : m.kernelBrkPage < KERNEL_STACK_BASE_PAGE := by
            show m.kernelBrkPage < 126
            rw [heapGrowth_eq] at few
            omega
          have hin := (hcons.valid m.kernelBrkPage hlt).mp (mapped hnil)
          omega
        · rintro ⟨-, hsafe⟩
          have henough := hsafe.resolve_left hnil
          omega

/-- `SetKernelBrk` keeps region 0 consistent, and returns what it should, in exactly the safe
cases. -/
theorem kernel_brk_exact_iff {addr : Nat} (h : m.Consistent) (hiso : m.Isolated own free)
    (hown : ∀ i < KERNEL_STACK_BASE_PAGE, own ⟨.region0, i⟩ = true) :
    m.KernelBrkExact free addr ↔ m.KernelBrkSafe free addr := by
  by_cases haddr : addr > KERNEL_STACK_BASE
  · have hrun : m.setKernelBrk addr = .ok (-1, m) := by
      unfold Machine.setKernelBrk
      rw [if_pos haddr]
      rfl
    exact iff_of_true ⟨-1, m, hrun, h, .inl ⟨rfl, rfl, rfl, free, hiso.list, fun _ => .rfl⟩⟩
      (.inl haddr)
  by_cases hgrow : newKernelBrkPage addr > m.kernelBrkPage
  · obtain ⟨rc, m', hrun, hmoved⟩ := h.growBreak hiso haddr hgrow
    exact hmoved.exact_iff h hiso.list haddr hrun
  · obtain ⟨m', hrun, hmoved⟩ := h.shrinkBreak hiso hown haddr hgrow
    exact hmoved.exact_iff h hiso.list haddr hrun

end

/-- A machine whose kernel heap ends at page 110, with one free frame. -/
def oneFrameMachine : Machine where
  frame := fun _ _ => 0
  pte := fun t i =>
    if t = .region0 ∧ i < 110 then { valid := true, prot := PROT_READ ||| PROT_WRITE, pfn := i }
    else {}
  ptbr1 := .region1 IDLE_PID
  freeFramesHead := 200
  freeFramesTail := 200
  kernelBrkPage := 110
  virtualMemoryEnabled := true

theorem oneFrameMachine_consistent : oneFrameMachine.Consistent where
  enabled := rfl
  valid i _ := by
    show (if PageTable.region0 = .region0 ∧ i < 110 then _ else _ : Pte).valid = true ↔ i < 110
    by_cases hi : i < 110 <;> simp [hi]

theorem oneFrameMachine_isolated :
    oneFrameMachine.Isolated (ownedBy fun _ => false) [200] := by
  -- A slot that holds a frame is an entry of region 0, and its frame has its number.
  have hheld : ∀ {r : PteRef} {f : Nat}, oneFrameMachine.held (ownedBy fun _ => false) r = some f →
      r.table = .region0 ∧ r.index = f ∧ f < 110 := by
    intro r f hr
    obtain ⟨-, hvalid, rfl⟩ := held_eq_some.mp hr
    by_cases hr : r.table = .region0 ∧ r.index < 110
    · simp [oneFrameMachine, hr]
    · simp [oneFrameMachine, hr] at hvalid
  refine ⟨.last, ⟨List.nodup_singleton 200, fun {r r' f} hr hr' => ?_, fun hr hf => ?_⟩,
    fun f hf => ?_, fun hr => ?_⟩
  · obtain ⟨ht, hi, -⟩ := hheld hr
    obtain ⟨ht', hi', -⟩ := hheld hr'
    cases r
    cases r'
    simp_all
  · obtain ⟨-, -, hlt⟩ := hheld hr
    rw [List.mem_singleton.mp hf] at hlt
    exact absurd hlt (by decide)
  · rw [List.mem_singleton.mp hf]
    decide
  · obtain ⟨-, -, hlt⟩ := hheld hr
    omega

/-- The heap is to grow by two pages, and there is one frame. The call returns `-1`, and page
110 is mapped above the break. -/
theorem kernel_brk_inconsistent :
    oneFrameMachine.Consistent ∧ ¬ oneFrameMachine.KernelBrkExact [200] (112 * PAGESIZE) := by
  refine ⟨oneFrameMachine_consistent, ?_⟩
  rintro ⟨rc, m', hrun, hcons, -⟩
  have hresult : (oneFrameMachine.setKernelBrk (112 * PAGESIZE)).toOption.map
      (fun r => ((r.2.pte .region0 110).valid, r.2.kernelBrkPage)) = some (true, 110) := by
    decide +kernel
  rw [hrun] at hresult
  simp only [Except.toOption, Option.map_some, Option.some.injEq, Prod.mk.injEq] at hresult
  have hvalid := hcons.valid 110 (by decide)
  rw [hresult.1, hresult.2] at hvalid
  exact absurd (hvalid.mp rfl) (by decide)

/-- Growing by the one page that there is a frame for works. -/
theorem kernel_brk_one_page : oneFrameMachine.KernelBrkExact [200] (111 * PAGESIZE) := by
  refine (kernel_brk_exact_iff oneFrameMachine_consistent oneFrameMachine_isolated
    fun _ hi => ownedBy_region0 hi).mpr (.inr ⟨fun hzero => ?_, .inr (by decide +kernel)⟩)
  exact absurd hzero (by decide)

end Machine

end Theynix
