import Theynix.Lib.Ledger
import Theynix.VMem

/-!
# `Theynix.Frames`: who holds which frame

The page table entries are the slots of a ledger and the frames its tokens. A set of slots
`own` is fixed (which entries count), and `Machine.held m own` says which frame each slot
of the set holds. `Machine.Isolated m own free` is the invariant of memory management: the
free list is `free`, and no frame is held twice, or held and free.

Every function of `PMem.c` and `VMem.c` keeps it. The step lemmas are `Isolated.take` (a
slot that held nothing takes the first free frame) and `Isolated.give` (a slot gives its
frame back); the lemmas about the functions that walk a range of pages are inductions on
the number of pages left.
-/

set_option autoImplicit false

namespace Theynix

open Theynix.Lib (Exclusive bind_eq_ok)

namespace Machine

/-- The frame a slot of the set `own` holds: the one its entry names while it is valid. -/
def held (m : Machine) (own : PteRef → Bool) (r : PteRef) : Option Nat :=
  if own r ∧ (m.pte r.table r.index).valid then some (m.pte r.table r.index).pfn else none

theorem held_eq_some {m : Machine} {own : PteRef → Bool} {r : PteRef} {f : Nat} :
    m.held own r = some f ↔
      own r ∧ (m.pte r.table r.index).valid ∧ (m.pte r.table r.index).pfn = f := by
  simp only [held, Option.ite_none_right_eq_some, Option.some.injEq, and_assoc]

/-- The links describe `free`, and no frame is in two places. Frame numbers are `int`s. -/
structure Isolated (m : Machine) (own : PteRef → Bool) (free : List Nat) : Prop where
  list : m.FreeList free
  exclusive : Exclusive (m.held own) free
  freeSmall : ∀ f ∈ free, f < 0x80000000
  heldSmall : ∀ {r : PteRef} {f : Nat}, m.held own r = some f → f < 0x80000000

namespace Isolated

variable {m m' : Machine} {own own' : PteRef → Bool} {free : List Nat}

/-- Memory may change outside the free frames, and slots may be dropped or emptied. -/
theorem mono (h : m.Isolated own free) (hlist : m'.FreeList free)
    (hsub : ∀ {r : PteRef} {f : Nat}, m'.held own' r = some f → m.held own r = some f) :
    m'.Isolated own' free where
  list := hlist
  exclusive := h.exclusive.mono hsub
  freeSmall := h.freeSmall
  heldSmall hr := h.heldSmall (hsub hr)

/-- A machine with the same tables, ends of the list and free frames is as isolated. -/
theorem congr (h : m.Isolated own free) (hpte : m'.pte = m.pte)
    (hhead : m'.freeFramesHead = m.freeFramesHead) (htail : m'.freeFramesTail = m.freeFramesTail)
    (hframe : ∀ f ∈ free, m'.frame f = m.frame f) : m'.Isolated own free := by
  refine h.mono (h.list.congr hhead htail hframe) fun hr => ?_
  rw [held_eq_some] at hr ⊢
  rwa [hpte] at hr

/-- What the TLB holds does not matter to the frames. -/
theorem flushPage (h : m.Isolated own free) (page : Nat) : (m.flushPage page).Isolated own free :=
  h.congr rfl rfl rfl fun _ _ => rfl

theorem flushRegion1 (h : m.Isolated own free) : m.flushRegion1.Isolated own free :=
  h.congr rfl rfl rfl fun _ _ => rfl

theorem access (h : m.Isolated own free) (page : Nat) : (m.access page).Isolated own free :=
  h.congr rfl rfl rfl fun _ _ => rfl

/-- The slot `r` takes the first free frame; what other slots hold does not grow. -/
theorem take {f : Nat} (h : m.Isolated own (f :: free)) (hlist : m'.FreeList free) (r : PteRef)
    (hr : ∀ {f' : Nat}, m'.held own' r = some f' → f' = f)
    (hother : ∀ {r' : PteRef} {f' : Nat}, r' ≠ r → m'.held own' r' = some f' →
      m.held own r' = some f') : m'.Isolated own' free where
  list := hlist
  exclusive := h.exclusive.take hr hother
  freeSmall g hg := h.freeSmall g (List.mem_cons_of_mem f hg)
  heldSmall {r' g} hg := by
    by_cases e : r' = r
    · have hgf : g = f := hr (e ▸ hg)
      exact hgf ▸ h.freeSmall f List.mem_cons_self
    · exact h.heldSmall (hother e hg)

/-- The slot `r` gives its frame `f` back to the end of the list. -/
theorem give {f : Nat} {r : PteRef} (h : m.Isolated own free) (hlist : m'.FreeList (free ++ [f]))
    (hr : m.held own r = some f) (hr' : m'.held own' r = none)
    (hother : ∀ {r' : PteRef} {f' : Nat}, r' ≠ r → m'.held own' r' = some f' →
      m.held own r' = some f') : m'.Isolated own' (free ++ [f]) where
  list := hlist
  exclusive := h.exclusive.give hr hr' hother
  freeSmall g hg := by
    rcases List.mem_append.mp hg with hg | hg
    · exact h.freeSmall g hg
    · exact List.mem_singleton.mp hg ▸ h.heldSmall hr
  heldSmall {r' g} hg := by
    by_cases e : r' = r
    · rw [e, hr'] at hg
      cases hg
    · exact h.heldSmall (hother e hg)

end Isolated

/-! ## What a function may change -/

/-- Only entries of the table `t`, frame contents and the free list may differ. -/
structure OnlyTable (t : PageTable) (m m' : Machine) : Prop where
  pte : ∀ {t' : PageTable}, t' ≠ t → ∀ i, m'.pte t' i = m.pte t' i
  ptbr1 : m'.ptbr1 = m.ptbr1
  kernelBrkPage : m'.kernelBrkPage = m.kernelBrkPage
  virtualMemoryEnabled : m'.virtualMemoryEnabled = m.virtualMemoryEnabled

namespace OnlyTable

variable {t : PageTable} {m m₁ m₂ : Machine}

theorem refl : OnlyTable t m m := ⟨fun _ _ => rfl, rfl, rfl, rfl⟩

theorem trans (h : OnlyTable t m m₁) (h' : OnlyTable t m₁ m₂) : OnlyTable t m m₂ :=
  ⟨fun hne i => (h'.pte hne i).trans (h.pte hne i), h'.ptbr1.trans h.ptbr1,
    h'.kernelBrkPage.trans h.kernelBrkPage,
    h'.virtualMemoryEnabled.trans h.virtualMemoryEnabled⟩

theorem setPte (i : Nat) (e : Pte) : OnlyTable t m (m.setPte t i e) :=
  ⟨fun hne _ => setPte_pte_of_ne m e fun h => hne h.1, rfl, rfl, rfl⟩

theorem of_sameTables (h : SameTables m m₁) : OnlyTable t m m₁ :=
  ⟨fun _ _ => congrFun (congrFun h.pte _) _, h.ptbr1, h.kernelBrkPage, h.virtualMemoryEnabled⟩

end OnlyTable

/-! ## One page -/

section
variable {m : Machine} {own : PteRef → Bool} {free : List Nat}

/-- Changing one entry changes what its slot holds and nothing else. -/
theorem held_setPte_of_ne {r r' : PteRef} (e : Pte) (h : r' ≠ r) :
    (m.setPte r.table r.index e).held own r' = m.held own r' := by
  have hne : ¬ (r'.table = r.table ∧ r'.index = r.index) := by
    rintro ⟨ht, hi⟩
    exact h (by cases r; cases r'; simp_all)
  simp only [held, setPte_pte_of_ne m e hne]

/-- The free list does not depend on the page tables. -/
theorem FreeList.setPte (h : m.FreeList free) (t : PageTable) (i : Nat) (e : Pte) :
    (m.setPte t i e).FreeList free := h.congr rfl rfl fun _ _ => rfl

/-- Filling an entry: the entry that `getUnusedFrame` gave a frame to, with its other
fields set, holds that frame. No memory is written. -/
theorem Isolated.getUnusedFrame {f : Nat} (h : m.Isolated own (f :: free)) (r : PteRef)
    (prot : Nat) (e : Pte) :
    ∃ m₁ m₂, (m.setPte r.table r.index e).getUnusedFrame r = (SUCCESS, m₁) ∧
      m₁.pte r.table r.index = { e with pfn := f } ∧
      m₂ = (m₁.modifyPte r.table r.index fun e => { e with prot := prot, valid := true }) ∧
      m₂.Isolated own free ∧ OnlyTable r.table m m₂ ∧ m₂.frame = m.frame ∧
      m₂.pte = (m.setPte r.table r.index { valid := true, prot := prot, pfn := f }).pte := by
  obtain ⟨head, tail, tlb, m₁, hget, hm₁, hlist⟩ :=
    getUnusedFrame_cons (h.list.setPte r.table r.index e) r
  have hpte : (m₁.modifyPte r.table r.index fun e => { e with prot := prot, valid := true }).pte
      = (m.setPte r.table r.index { valid := true, prot := prot, pfn := f }).pte := by
    subst hm₁
    funext t i
    by_cases hti : t = r.table ∧ i = r.index
    · obtain ⟨rfl, rfl⟩ := hti
      simp [modifyPte, Machine.setPte]
    · simp [modifyPte, Machine.setPte, hti]
  have honly : OnlyTable r.table m
      (m₁.modifyPte r.table r.index fun e => { e with prot := prot, valid := true }) := by
    refine ⟨fun hne i => ?_, ?_, ?_, ?_⟩
    · rw [hpte]
      exact setPte_pte_of_ne m _ fun h => hne h.1
    all_goals (subst hm₁; rfl)
  refine ⟨m₁, _, hget, by subst hm₁; simp [Machine.setPte], rfl, ?_, honly,
    by subst hm₁; rfl, hpte⟩
  refine h.take (hlist.setPte _ _ _) r ?_ ?_
  · intro f' hf'
    rw [held_eq_some, hpte] at hf'
    simpa using hf'.2.2.symm
  · intro r' f' hne hf'
    rw [← held_setPte_of_ne (m := m) { valid := true, prot := prot, pfn := f } hne]
    rw [held_eq_some, hpte] at hf'
    exact held_eq_some.mpr hf'

/-- Emptying an entry and releasing its frame, in either order. -/
theorem Isolated.releaseUsedFrame {f : Nat} (h : m.Isolated own free) {r : PteRef}
    (hr : m.held own r = some f) :
    ((m.releaseUsedFrame f).modifyPte r.table r.index fun e => { e with valid := false }).Isolated
        own (free ++ [f]) ∧
      ((m.modifyPte r.table r.index fun e => { e with valid := false }).releaseUsedFrame
        f).Isolated own (free ++ [f]) := by
  have hf : f ∉ free := h.exclusive.notFree hr
  have hlt : f < 0x80000000 := h.heldSmall hr
  obtain ⟨hsame, hlist, -⟩ := releaseUsedFrame_spec h.list hf hlt
  obtain ⟨hsame', hlist', -⟩ := releaseUsedFrame_spec
    (h.list.setPte r.table r.index { m.pte r.table r.index with valid := false }) hf hlt
  constructor
  · refine h.give (hlist.setPte _ _ _) hr ?_ ?_
    · simp [held, modifyPte]
    · intro r' f' hne hf'
      rw [modifyPte, held_setPte_of_ne _ hne, held_eq_some, hsame.pte] at hf'
      exact held_eq_some.mpr hf'
  · refine h.give hlist' hr ?_ ?_
    · simp [held, modifyPte, hsame'.pte]
    · intro r' f' hne hf'
      rw [held_eq_some, modifyPte, hsame'.pte, ← held_eq_some, held_setPte_of_ne _ hne] at hf'
      exact hf'

end

/-! ## Ranges of pages -/

section
variable {m m' : Machine} {own : PteRef → Bool} {free : List Nat} {pid : Nat}

/-- When `unmapRegion1Pages` returns, its pages were valid, and they are invalid. Their
frames are free. -/
theorem Isolated.unmapLoop {p n : Nat} (h : m.Isolated own free)
    (hown : ∀ i < NUM_PAGES_REG_1, own ⟨.region1 pid, i⟩)
    (hok : m.unmapRegion1PagesLoop pid p n = .ok m') :
    ∃ free', m'.Isolated own free' ∧ OnlyTable (.region1 pid) m m' ∧
      free'.length = free.length + n ∧
      (∀ i, p ≤ i → i < p + n → i < NUM_PAGES_REG_1 ∧ (m.pte (.region1 pid) i).valid ∧
        (m'.pte (.region1 pid) i).valid = false) ∧
      ∀ i, ¬ (p ≤ i ∧ i < p + n) → m'.pte (.region1 pid) i = m.pte (.region1 pid) i := by
  induction n generalizing m free p with
  | zero =>
      cases hok
      exact ⟨free, h, .refl, rfl, fun i _ _ => by omega, fun _ _ => rfl⟩
  | succ n ih =>
      simp only [unmapRegion1PagesLoop, cAssert] at hok
      by_cases hp : p < NUM_PAGES_REG_1
      case neg => simp [hp] at hok
      by_cases hv : (m.pte (.region1 pid) p).valid = true
      case neg => simp [hp, hv] at hok
      simp only [hp, hv, decide_true, if_true, Lib.ok_bind] at hok
      -- The frame goes from the slot of the page to the end of the free frames.
      have hheld : m.held own ⟨.region1 pid, p⟩ = some (m.pte (.region1 pid) p).pfn :=
        held_eq_some.mpr ⟨hown p hp, hv, rfl⟩
      obtain ⟨hiso, -⟩ := h.releaseUsedFrame hheld
      obtain ⟨hsame, -, -⟩ := releaseUsedFrame_spec h.list (h.exclusive.notFree hheld)
        (h.heldSmall hheld)
      obtain ⟨free', hiso', honly, hlen, hin, hout⟩ := ih hiso hok
      have hstep : OnlyTable (.region1 pid) m
          ((m.releaseUsedFrame (m.pte (.region1 pid) p).pfn).modifyPte (.region1 pid) p
            fun e => { e with valid := false }) :=
        (OnlyTable.of_sameTables hsame).trans (.setPte _ _)
      have hrest : ∀ i, i ≠ p →
          ((m.releaseUsedFrame (m.pte (.region1 pid) p).pfn).modifyPte (.region1 pid) p
            fun e => { e with valid := false }).pte (.region1 pid) i = m.pte (.region1 pid) i := by
        intro i hne
        rw [modifyPte, setPte_pte_of_ne _ _ fun h => hne h.2, hsame.pte]
      refine ⟨free', hiso', hstep.trans honly, ?_, ?_, ?_⟩
      · rw [hlen, List.length_append, List.length_singleton]
        omega
      · intro i hi hi'
        by_cases hip : i = p
        · subst hip
          refine ⟨hp, hv, ?_⟩
          rw [hout i (by omega)]
          simp [modifyPte]
        · obtain ⟨h₁, h₂, h₃⟩ := hin i (by omega) (by omega)
          rw [hrest i hip] at h₂
          exact ⟨h₁, h₂, h₃⟩
      · intro i hi
        rw [hout i (by omega), hrest i (by omega)]

/-- `unmapRegion1Pages` returns when all its pages are valid. -/
theorem Isolated.unmapLoop_total {p n : Nat} (h : m.Isolated own free)
    (hown : ∀ i < NUM_PAGES_REG_1, own ⟨.region1 pid, i⟩)
    (hvalid : ∀ i, p ≤ i → i < p + n → i < NUM_PAGES_REG_1 ∧ (m.pte (.region1 pid) i).valid) :
    ∃ m', m.unmapRegion1PagesLoop pid p n = .ok m' := by
  induction n generalizing m free p with
  | zero => exact ⟨m, rfl⟩
  | succ n ih =>
      obtain ⟨hp, hv⟩ := hvalid p (Nat.le_refl p) (by omega)
      have hheld : m.held own ⟨.region1 pid, p⟩ = some (m.pte (.region1 pid) p).pfn :=
        held_eq_some.mpr ⟨hown p hp, hv, rfl⟩
      obtain ⟨hiso, -⟩ := h.releaseUsedFrame hheld
      obtain ⟨hsame, -, -⟩ := releaseUsedFrame_spec h.list (h.exclusive.notFree hheld)
        (h.heldSmall hheld)
      simp only [unmapRegion1PagesLoop, cAssert, hp, hv, decide_true, if_true, Lib.ok_bind]
      refine ih hiso fun i hi hi' => ?_
      obtain ⟨h₁, h₂⟩ := hvalid i (by omega) (by omega)
      refine ⟨h₁, ?_⟩
      rw [modifyPte, setPte_pte_of_ne _ _ fun h => absurd h.2 (by omega), hsame.pte]
      exact h₂

/-- The pages of a range are inside the table and unmapped. -/
def Unmapped (m : Machine) (pid p n : Nat) : Prop :=
  ∀ i, p ≤ i → i < p + n → i < NUM_PAGES_REG_1 ∧ (m.pte (.region1 pid) i).valid = false

/-- What `mapNewRegion1Pages` did: it mapped every page of the range, in order, to the first
free frames, or it ran out of frames and unmapped again what it had mapped. -/
inductive Mapped (m m' : Machine) (free free' : List Nat) (pid start p n prot : Nat) :
    Int → Prop
  | success : m.Unmapped pid p n → n ≤ free.length → free' = free.drop n →
      m'.frame = m.frame →
      (∀ i, p ≤ i → i < p + n → (m'.pte (.region1 pid) i).valid ∧
        (m'.pte (.region1 pid) i).prot = prot) →
      (∀ i, ¬ (p ≤ i ∧ i < p + n) → m'.pte (.region1 pid) i = m.pte (.region1 pid) i) →
      Mapped m m' free free' pid start p n prot SUCCESS
  | error : free.length < n → free'.length = free.length + (p - start) →
      (∀ i, ¬ (start ≤ i ∧ i < p + n) → m'.pte (.region1 pid) i = m.pte (.region1 pid) i) →
      Mapped m m' free free' pid start p n prot ERROR

/-- The step of the loop of `mapNewRegion1Pages`: one page is mapped to the first free
frame. -/
theorem Isolated.mapStep {f : Nat} (h : m.Isolated own (f :: free)) (p prot : Nat) :
    ∃ m₁ m₂, m.getUnusedFrame ⟨.region1 pid, p⟩ = (SUCCESS, m₁) ∧
      m₂ = (m₁.modifyPte (.region1 pid) p fun e => { e with prot := prot, valid := true }) ∧
      m₂.Isolated own free ∧ OnlyTable (.region1 pid) m m₂ ∧ m₂.frame = m.frame ∧
      m₂.pte = (m.setPte (.region1 pid) p { valid := true, prot := prot, pfn := f }).pte := by
  obtain ⟨m₁, m₂, hget, -, h₂⟩ :=
    h.getUnusedFrame ⟨.region1 pid, p⟩ prot (m.pte (.region1 pid) p)
  rw [setPte_self] at hget
  exact ⟨m₁, m₂, hget, h₂⟩

/-- What `mapNewRegion1Pages` does from page `p` on. -/
theorem Isolated.mapLoop {start p n prot : Nat} {rc : Int} (h : m.Isolated own free)
    (hown : ∀ i < NUM_PAGES_REG_1, own ⟨.region1 pid, i⟩) (hstart : start ≤ p)
    (hfilled : ∀ i, start ≤ i → i < p → i < NUM_PAGES_REG_1 ∧ (m.pte (.region1 pid) i).valid)
    (hok : m.mapNewRegion1PagesLoop pid start prot p n = .ok (rc, m')) :
    ∃ free', m'.Isolated own free' ∧ OnlyTable (.region1 pid) m m' ∧
      Mapped m m' free free' pid start p n prot rc := by
  induction n generalizing m free p with
  | zero =>
      cases hok
      exact ⟨free, h, .refl, .success (fun i _ _ => by omega) (Nat.zero_le _) rfl rfl
        (fun i _ _ => by omega) fun _ _ => rfl⟩
  | succ n ih =>
      simp only [mapNewRegion1PagesLoop, cAssert] at hok
      by_cases hp : p < NUM_PAGES_REG_1
      case neg => simp [hp] at hok
      by_cases hv : (m.pte (.region1 pid) p).valid = true
      case pos => simp [hp, hv] at hok
      rw [Bool.not_eq_true] at hv
      simp only [hp, hv, decide_true, if_true, Lib.ok_bind, Bool.not_false] at hok
      have hp' : p < 128 := hp
      cases free with
      | nil =>
          -- No frame is left: the pages mapped so far are unmapped again.
          rw [getUnusedFrame_nil h.list] at hok
          simp only [if_true, bind_eq_ok, Lib.pure_eq_ok, Except.ok.injEq, Prod.mk.injEq,
            unmapRegion1Pages] at hok
          obtain ⟨m₁, hun, hrc, rfl⟩ := hok
          have hcount : pagesFrom start (p - start) = p - start := by
            unfold pagesFrom
            omega
          rw [hcount] at hun
          obtain ⟨free', hiso, honly, hlen, -, hout⟩ := h.unmapLoop hown hun
          subst hrc
          refine ⟨free', hiso, honly, .error (Nat.succ_pos n) hlen fun i hi => hout i ?_⟩
          omega
      | cons f free =>
          obtain ⟨m₁, m₂, hget, hm₂, hiso, honly, hframe, hpte⟩ := h.mapStep p prot
          rw [hget] at hok
          simp only [show ¬ SUCCESS = ERROR by decide, if_false, ← hm₂] at hok
          have hself : m₂.pte (.region1 pid) p = { valid := true, prot := prot, pfn := f } := by
            rw [hpte, setPte_pte_self]
          have hrest : ∀ i, i ≠ p → m₂.pte (.region1 pid) i = m.pte (.region1 pid) i := by
            intro i hne
            rw [hpte, setPte_pte_of_ne _ _ fun h => hne h.2]
          obtain ⟨free', hiso', honly', hmapped⟩ := ih hiso (by omega) (fun i hi hi' => by
            by_cases hip : i = p
            · rw [hip, hself]
              exact ⟨hp, rfl⟩
            · rw [hrest i hip]
              exact hfilled i hi (by omega)) hok
          refine ⟨free', hiso', honly.trans honly', ?_⟩
          cases hmapped with
          | success hun hlen hdrop hframe' hin hout =>
              refine .success ?_ (by simpa using hlen) (by simpa using hdrop)
                (hframe'.trans hframe) ?_ fun i hi => by rw [hout i (by omega), hrest i (by omega)]
              · intro i hi hi'
                by_cases hip : i = p
                · rw [hip]
                  exact ⟨hp, hv⟩
                · have := hun i (by omega) (by omega)
                  rwa [hrest i hip] at this
              · intro i hi hi'
                by_cases hip : i = p
                · rw [hip, hout p (by omega), hself]
                  exact ⟨rfl, rfl⟩
                · exact hin i (by omega) (by omega)
          | error hlt hlen hout =>
              refine .error (by simpa using hlt) ?_ fun i hi => ?_
              · rw [hlen, List.length_cons]
                omega
              · rw [hout i (by omega), hrest i (by omega)]

/-- `mapNewRegion1Pages` returns when its pages are inside the table and unmapped. -/
theorem Isolated.mapLoop_total {start p n prot : Nat} (h : m.Isolated own free)
    (hown : ∀ i < NUM_PAGES_REG_1, own ⟨.region1 pid, i⟩) (hstart : start ≤ p)
    (hfilled : ∀ i, start ≤ i → i < p → i < NUM_PAGES_REG_1 ∧ (m.pte (.region1 pid) i).valid)
    (hun : m.Unmapped pid p n) :
    ∃ r, m.mapNewRegion1PagesLoop pid start prot p n = .ok r := by
  induction n generalizing m free p with
  | zero => exact ⟨_, rfl⟩
  | succ n ih =>
      obtain ⟨hp, hv⟩ := hun p (Nat.le_refl p) (by omega)
      have hp' : p < 128 := hp
      simp only [mapNewRegion1PagesLoop, cAssert, hp, hv, decide_true, if_true, Lib.ok_bind,
        Bool.not_false]
      cases free with
      | nil =>
          rw [getUnusedFrame_nil h.list]
          have hcount : pagesFrom start (p - start) = p - start := by
            unfold pagesFrom
            omega
          obtain ⟨m', hm'⟩ := h.unmapLoop_total (p := start) (n := p - start) hown
            fun i hi hi' => hfilled i hi (by omega)
          simp only [if_true, unmapRegion1Pages, hcount, hm', Lib.ok_bind]
          exact ⟨_, rfl⟩
      | cons f free =>
          obtain ⟨m₁, m₂, hget, hm₂, hiso, -, -, hpte⟩ := h.mapStep p prot
          rw [hget]
          simp only [show ¬ SUCCESS = ERROR by decide, if_false, ← hm₂]
          have hrest : ∀ i, i ≠ p → m₂.pte (.region1 pid) i = m.pte (.region1 pid) i := by
            intro i hne
            rw [hpte, setPte_pte_of_ne _ _ fun h => hne h.2]
          refine ih hiso (by omega) (fun i hi hi' => ?_) fun i hi hi' => ?_
          · by_cases hip : i = p
            · rw [hip, hpte, setPte_pte_self]
              exact ⟨hp, rfl⟩
            · rw [hrest i hip]
              exact hfilled i hi (by omega)
          · rw [hrest i (by omega)]
            exact hun i (by omega) (by omega)

/-- What `mapNewRegion1Pages` does, for a range that does not wrap around. -/
theorem Isolated.mapNewRegion1Pages {p n prot : Nat} {rc : Int} (h : m.Isolated own free)
    (hown : ∀ i < NUM_PAGES_REG_1, own ⟨.region1 pid, i⟩)
    (hok : m.mapNewRegion1Pages pid p n prot = .ok (rc, m')) :
    ∃ free', m'.Isolated own free' ∧ OnlyTable (.region1 pid) m m' ∧
      Mapped m m' free free' pid p p (pagesFrom p n) prot rc :=
  h.mapLoop hown (Nat.le_refl p) (fun i hi hi' => by omega) hok

/-- Freeing a valid entry: the entry is cleared and its frame joins the free list. -/
theorem Isolated.freeEntry {t : PageTable} {i : Nat} (h : m.Isolated own free)
    (hown : own ⟨t, i⟩) (hv : (m.pte t i).valid = true) :
    (m.freeEntry t i).Isolated own (free ++ [(m.pte t i).pfn]) ∧
      OnlyTable t m (m.freeEntry t i) ∧ ((m.freeEntry t i).pte t i).valid = false ∧
      ∀ j, j ≠ i → (m.freeEntry t i).pte t j = m.pte t j := by
  have hheld : m.held own ⟨t, i⟩ = some (m.pte t i).pfn := held_eq_some.mpr ⟨hown, hv, rfl⟩
  obtain ⟨-, hiso⟩ := h.releaseUsedFrame hheld
  obtain ⟨hsame, -, -⟩ := releaseUsedFrame_spec
    (h.list.setPte t i { m.pte t i with valid := false }) (h.exclusive.notFree hheld)
    (h.heldSmall hheld)
  have hstep : m.freeEntry t i
      = (m.setPte t i { m.pte t i with valid := false }).releaseUsedFrame (m.pte t i).pfn := by
    simp only [Machine.freeEntry, modifyPte, setPte_pte_self]
  rw [hstep]
  refine ⟨hiso, (OnlyTable.setPte i _).trans (.of_sameTables hsame), ?_, fun j hne => ?_⟩
  · rw [hsame.pte, setPte_pte_self]
  · rw [hsame.pte, setPte_pte_of_ne _ _ fun h => hne h.2]

/-- How many of the entries `i`, ..., `i + n - 1` of a table are valid. -/
def validCount (m : Machine) (t : PageTable) (i n : Nat) : Nat :=
  (List.range' i n).countP fun j => (m.pte t j).valid

theorem validCount_succ (t : PageTable) (i n : Nat) :
    m.validCount t i (n + 1)
      = m.validCount t (i + 1) n + if (m.pte t i).valid then 1 else 0 := by
  rw [validCount, List.range'_succ, List.countP_cons]
  rfl

theorem validCount_congr {t : PageTable} {i n : Nat}
    (h : ∀ j, i ≤ j → j < i + n → m'.pte t j = m.pte t j) :
    m'.validCount t i n = m.validCount t i n := by
  refine List.countP_congr fun j hj => ?_
  obtain ⟨h₁, h₂⟩ := List.mem_range'_1.mp hj
  rw [h j h₁ h₂]

/-- A page table whose entries `i`, ..., `i + n - 1` have been freed. Each valid entry of
the range gave one frame to the free list. -/
theorem Isolated.freePageTable {t : PageTable} {i n : Nat} (h : m.Isolated own free)
    (hown : ∀ j, i ≤ j → j < i + n → own ⟨t, j⟩) :
    ∃ free', (m.freePageTable t i n).Isolated own free' ∧
      OnlyTable t m (m.freePageTable t i n) ∧
      free'.length = free.length + m.validCount t i n ∧
      (∀ j, i ≤ j → j < i + n → ((m.freePageTable t i n).pte t j).valid = false) ∧
      ∀ j, ¬ (i ≤ j ∧ j < i + n) → (m.freePageTable t i n).pte t j = m.pte t j := by
  induction n generalizing m free i with
  | zero => exact ⟨free, h, .refl, rfl, fun j _ _ => by omega, fun _ _ => rfl⟩
  | succ n ih =>
      have hown' : ∀ j, i + 1 ≤ j → j < i + 1 + n → own ⟨t, j⟩ := fun j hj hj' =>
        hown j (by omega) (by omega)
      by_cases hv : (m.pte t i).valid = true
      · obtain ⟨hiso, honly, hself, hrest⟩ := h.freeEntry (hown i (Nat.le_refl i) (by omega)) hv
        have hstep : m.freePageTable t i (n + 1)
            = (m.freeEntry t i).freePageTable t (i + 1) n := by
          simp only [Machine.freePageTable, hv, if_true]
        obtain ⟨free', hiso', honly', hlen, hin, hout⟩ := ih hiso hown'
        rw [hstep]
        refine ⟨free', hiso', honly.trans honly', ?_, fun j hj hj' => ?_, fun j hj => ?_⟩
        · rw [hlen, validCount_congr fun j hj _ => hrest j (by omega), validCount_succ, if_pos hv,
            List.length_append, List.length_singleton]
          omega
        · by_cases hji : j = i
          · rw [hji, hout i (by omega), hself]
          · exact hin j (by omega) (by omega)
        · rw [hout j (by omega), hrest j (by omega)]
      · have hstep : m.freePageTable t i (n + 1) = m.freePageTable t (i + 1) n := by
          simp only [Machine.freePageTable, hv]
          rfl
        obtain ⟨free', hiso', honly, hlen, hin, hout⟩ := ih h hown'
        rw [hstep]
        refine ⟨free', hiso', honly, ?_, fun j hj hj' => ?_, fun j hj => hout j (by omega)⟩
        · rw [hlen, validCount_succ, if_neg hv]
          rfl
        · by_cases hji : j = i
          · rw [hji, hout i (by omega)]
            simpa using hv
          · exact hin j (by omega) (by omega)

/-- `changeProtRegion1Pages` changes the permissions of valid entries only. -/
theorem Isolated.changeProtLoop {p n prot : Nat} (h : m.Isolated own free)
    (hok : m.changeProtRegion1PagesLoop pid prot p n = .ok m') :
    m'.Isolated own free ∧ OnlyTable (.region1 pid) m m' ∧ m'.frame = m.frame ∧
      (∀ i, p ≤ i → i < p + n → m'.pte (.region1 pid) i
        = { m.pte (.region1 pid) i with prot := prot }) ∧
      ∀ i, ¬ (p ≤ i ∧ i < p + n) → m'.pte (.region1 pid) i = m.pte (.region1 pid) i := by
  induction n generalizing m p with
  | zero =>
      cases hok
      exact ⟨h, .refl, rfl, fun i _ _ => by omega, fun _ _ => rfl⟩
  | succ n ih =>
      simp only [changeProtRegion1PagesLoop, cAssert] at hok
      by_cases hp : p < NUM_PAGES_REG_1
      case neg => simp [hp] at hok
      by_cases hv : (m.pte (.region1 pid) p).valid = true
      case neg => simp [hp, hv] at hok
      simp only [hp, hv, decide_true, if_true, Lib.ok_bind] at hok
      have hstep : (m.modifyPte (.region1 pid) p fun e => { e with prot := prot }).Isolated
          own free := by
        refine h.mono (h.list.setPte _ _ _) fun {r f} hr => ?_
        by_cases hrp : r = ⟨.region1 pid, p⟩
        · subst hrp
          rw [held_eq_some] at hr ⊢
          simpa [modifyPte] using hr
        · rwa [modifyPte, held_setPte_of_ne (r := ⟨.region1 pid, p⟩) _ hrp] at hr
      obtain ⟨hiso, honly, hframe, hin, hout⟩ := ih hstep hok
      refine ⟨hiso, (OnlyTable.setPte p _).trans honly, hframe, fun i hi hi' => ?_,
        fun i hi => ?_⟩
      · by_cases hip : i = p
        · rw [hip, hout p (by omega)]
          simp [modifyPte]
        · rw [hin i (by omega) (by omega), modifyPte, setPte_pte_of_ne _ _ fun h => hip h.2]
      · rw [hout i (by omega), modifyPte, setPte_pte_of_ne _ _ fun h => absurd h.2 (by omega)]

/-- `changeProtRegion1Pages` returns when all its pages are valid. -/
theorem changeProtLoop_total {p n prot : Nat}
    (hvalid : ∀ i, p ≤ i → i < p + n → i < NUM_PAGES_REG_1 ∧ (m.pte (.region1 pid) i).valid) :
    ∃ m', m.changeProtRegion1PagesLoop pid prot p n = .ok m' := by
  induction n generalizing m p with
  | zero => exact ⟨m, rfl⟩
  | succ n ih =>
      obtain ⟨hp, hv⟩ := hvalid p (Nat.le_refl p) (by omega)
      simp only [changeProtRegion1PagesLoop, cAssert, hp, hv, decide_true, if_true, Lib.ok_bind]
      refine ih fun i hi hi' => ?_
      rw [modifyPte, setPte_pte_of_ne _ _ fun h => absurd h.2 (by omega)]
      exact hvalid i (by omega) (by omega)

end

/-! ## Region 0 pages -/

section
variable {m m' : Machine} {own : PteRef → Bool} {free : List Nat}

/-- `mapNewRegion0Page` fills an entry of the kernel heap. -/
theorem Isolated.mapNewRegion0Page {i : Nat} {rc : Int} (h : m.Isolated own free)
    (hok : m.mapNewRegion0Page i = .ok (rc, m')) :
    ∃ free', m'.Isolated own free' ∧ OnlyTable .region0 m m' := by
  simp only [Machine.mapNewRegion0Page, cAssert] at hok
  by_cases hp : i < VMEM_0_LIMIT / PAGESIZE
  case neg => simp [hp] at hok
  by_cases hv : (m.pte .region0 i).valid = true
  case pos => simp [hp, hv] at hok
  rw [Bool.not_eq_true] at hv
  simp only [hp, hv, decide_true, if_true, Lib.ok_bind, Bool.not_false] at hok
  cases free with
  | nil =>
      rw [getUnusedFrame_nil h.list] at hok
      cases hok
      exact ⟨[], h, .refl⟩
  | cons f free =>
      have hget := h.getUnusedFrame ⟨.region0, i⟩ (PROT_READ ||| PROT_WRITE) (m.pte .region0 i)
      rw [setPte_self] at hget
      obtain ⟨m₁, m₂, hget, -, hm₂, hiso, honly, -, -⟩ := hget
      rw [hget] at hok
      simp only [show ¬ SUCCESS = ERROR by decide, if_false, Lib.pure_eq_ok, Except.ok.injEq,
        Prod.mk.injEq] at hok
      rw [← hok.2]
      exact ⟨free, hm₂ ▸ hiso, hm₂ ▸ honly⟩

/-- `unmapUsedRegion0Page` empties an entry of the kernel heap. -/
theorem Isolated.unmapUsedRegion0Page {i : Nat} (h : m.Isolated own free)
    (hown : own ⟨.region0, i⟩) (hok : m.unmapUsedRegion0Page i = .ok m') :
    ∃ free', m'.Isolated own free' ∧ OnlyTable .region0 m m' := by
  simp only [Machine.unmapUsedRegion0Page, cAssert] at hok
  by_cases hp : i < VMEM_0_LIMIT / PAGESIZE
  case neg => simp [hp] at hok
  by_cases hv : (m.pte .region0 i).valid = true
  case neg => simp [hp, hv] at hok
  simp only [hp, hv, decide_true, if_true, Lib.ok_bind, Lib.pure_eq_ok, Except.ok.injEq] at hok
  subst hok
  have hheld : m.held own ⟨.region0, i⟩ = some (m.pte .region0 i).pfn :=
    held_eq_some.mpr ⟨hown, hv, rfl⟩
  obtain ⟨hsame, -, -⟩ := releaseUsedFrame_spec h.list (h.exclusive.notFree hheld)
    (h.heldSmall hheld)
  exact ⟨_, (h.releaseUsedFrame hheld).1, (OnlyTable.of_sameTables hsame).trans (.setPte i _)⟩

end

end Machine

end Theynix
