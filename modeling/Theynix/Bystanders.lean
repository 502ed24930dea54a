import Theynix.ExitStatus
import Theynix.LoadedProcess
import Theynix.TableCopy

/-!
# `Theynix.Bystanders`: a step leaves the processes alone that do not run

A function of the kernel that works on one page table writes to frames of the free list and
to frames that this table holds. `Machine.Spares own t` says that another table `t` and what
its frames hold are as before. It follows function by function from `Machine.Isolated`,
which keeps the frames of two tables apart.

* `Step.undisturbed`: a step leaves the address space, the kernel stack and the saved
  registers of every live process as they are, but for the process that runs. No step ends
  the life of another process.
* `bystander_undisturbed`: so a process finds, when it runs again, what it had left.

This holds as long as no store goes through a stale entry of the TLB. `Kernel.Fresh` is that
condition, and `stale_store_rewrites_free_list` shows that it is needed.
-/

set_option autoImplicit false

namespace Theynix

open Theynix.Lib (bind_eq_ok ite_eq_ok)

namespace Machine

/-- The table `t` and the frames that its slots hold are as before. -/
structure Spares (own : PteRef → Bool) (t : PageTable) (m m' : Machine) : Prop where
  pte : m'.pte t = m.pte t
  frame : ∀ {i f : Nat}, m.held own ⟨t, i⟩ = some f → m'.frame f = m.frame f

namespace Spares

variable {m m₁ m₂ : Machine} {own : PteRef → Bool} {t t' : PageTable}

theorem refl : Spares own t m m := ⟨rfl, fun _ => rfl⟩

theorem trans (h : Spares own t m m₁) (h' : Spares own t m₁ m₂) : Spares own t m m₂ := by
  refine ⟨h'.pte.trans h.pte, fun {i f} hf => ?_⟩
  have hf₁ : m₁.held own ⟨t, i⟩ = some f := by
    rw [held_eq_some] at hf ⊢
    rwa [h.pte]
  exact (h'.frame hf₁).trans (h.frame hf)

instance : Trans (Spares own t) (Spares own t) (Spares own t) := ⟨trans⟩

/-- A function that writes to no frame. -/
theorem of_frame (h : OnlyTable t' m m₁) (ht : t ≠ t') (hframe : m₁.frame = m.frame) :
    Spares own t m m₁ :=
  ⟨funext (h.pte ht), fun _ => congrFun hframe _⟩

end Spares

section
variable {m m' : Machine} {own : PteRef → Bool} {free frames : List Nat} {t t' : PageTable}

/-- A function that writes to free frames, and to frames that the slots of `t'` hold. -/
theorem Isolated.spares (h : m.Isolated own free) (ht : t ≠ t') (hpte : m'.pte t = m.pte t)
    (hframe : ∀ f, f ∉ free → (∀ i, m.held own ⟨t', i⟩ ≠ some f) → m'.frame f = m.frame f) :
    Spares own t m m' := by
  refine ⟨hpte, fun {i f} hf => hframe f (h.exclusive.notFree hf) fun j hj => ht ?_⟩
  exact congrArg PteRef.table (h.exclusive.inj hf hj)

theorem Isolated.spares_of_touches (h : m.Isolated own free) (ht : t ≠ t')
    (htouches : Touches t' frames m m')
    (hframes : ∀ f ∈ frames, f ∈ free ∨ ∃ i, m.held own ⟨t', i⟩ = some f) :
    Spares own t m m' := by
  refine h.spares ht (funext (htouches.pte ht)) fun f hf hheld => ?_
  apply htouches.frame
  intro hmem
  rcases hframes f hmem with hfree | ⟨i, hi⟩
  · exact hf hfree
  · exact hheld i hi

/-- The frames of a range of slots that count. -/
theorem held_of_mem_tableFrames {f p n : Nat} (hown : ∀ i, p ≤ i → i < p + n → own ⟨t, i⟩ = true)
    (hf : f ∈ m.tableFrames t p n) : ∃ i, m.held own ⟨t, i⟩ = some f := by
  obtain ⟨i, hi, hi', hv, hpfn⟩ := mem_tableFrames.mp hf
  exact ⟨i, held_eq_some.mpr ⟨hown i hi hi', hv, hpfn⟩⟩

/-! ## Freeing and mapping pages -/

theorem Isolated.freePageTable_spares {p n : Nat} (h : m.Isolated own free) (ht : t ≠ t')
    (hown : ∀ i, p ≤ i → i < p + n → own ⟨t', i⟩ = true) :
    Spares own t m (m.freePageTable t' p n) := by
  obtain ⟨hnodup, hlt⟩ := h.tableFrames_nodup hown
  have htouches := (freePageTable_list h.list hnodup hlt).2
  refine h.spares_of_touches ht htouches fun f hf => ?_
  exact (List.mem_append.mp hf).imp_right (held_of_mem_tableFrames hown)

end

section
variable {m m' : Machine} {own : PteRef → Bool} {free : List Nat} {t : PageTable} {pid : Pid}
  {rc : Int}

theorem Isolated.unmapLoop_spares {p n : Nat} (h : m.Isolated own free) (ht : t ≠ .region1 pid)
    (hown : ∀ i < NUM_PAGES_REG_1, own ⟨.region1 pid, i⟩)
    (hok : m.unmapRegion1PagesLoop pid p n = .ok m') : Spares own t m m' := by
  obtain ⟨-, -, -, -, hvalid, -⟩ := h.unmapLoop hown hok
  have hown' : ∀ i, p ≤ i → i < p + n → own ⟨.region1 pid, i⟩ = true := fun i hi hi' =>
    hown i (hvalid i hi hi').1
  obtain ⟨hnodup, hlt⟩ := h.tableFrames_nodup hown'
  obtain ⟨m₁, hrun, -, htouches, -⟩ := unmapLoop_list pid h.list
    (fun i hi hi' => ⟨(hvalid i hi hi').1, (hvalid i hi hi').2.1⟩) hnodup hlt
  rw [hok] at hrun
  cases hrun
  refine h.spares_of_touches ht htouches fun f hf => ?_
  exact (List.mem_append.mp hf).imp_right (held_of_mem_tableFrames hown')

/-- The pages that are mapped take free frames, and give them back if there are too few. -/
theorem Isolated.mapLoop_spares {start p n prot : Nat} (h : m.Isolated own free)
    (ht : t ≠ .region1 pid) (hown : ∀ i < NUM_PAGES_REG_1, own ⟨.region1 pid, i⟩)
    (hok : m.mapNewRegion1PagesLoop pid start prot p n = .ok (rc, m')) : Spares own t m m' := by
  induction n generalizing m free p with
  | zero =>
      cases hok
      exact .refl
  | succ n ih =>
      obtain ⟨_, -, hok⟩ := bind_eq_ok.mp hok
      obtain ⟨_, -, hok⟩ := bind_eq_ok.mp hok
      cases free with
      | nil =>
          rw [getUnusedFrame_nil h.list] at hok
          obtain ⟨m₁, hunmap, hret⟩ := bind_eq_ok.mp hok
          cases hret
          exact h.unmapLoop_spares ht hown hunmap
      | cons f free =>
          obtain ⟨m₁, m₂, hget, hm₂, hiso, honly, hframe, -⟩ := h.mapStep p prot
          rw [hget] at hok
          simp only [show ¬ SUCCESS = ERROR by decide, if_false, ← hm₂] at hok
          exact (Spares.of_frame honly ht hframe).trans (ih hiso hok)

/-- The pages of a growing stack take free frames. -/
theorem Isolated.growStack_spares {addrPage n : Nat} (h : m.Isolated own free)
    (ht : t ≠ .region1 pid) (hok : m.growStack pid addrPage n = .ok (rc, m')) :
    Spares own t m m' := by
  induction n generalizing m free with
  | zero =>
      unfold Machine.growStack at hok
      split at hok
      · cases hok
      · cases hok
        exact .refl
  | succ n ih =>
      simp only [Machine.growStack] at hok
      cases free with
      | nil =>
          rw [getUnusedFrame_nil h.list] at hok
          cases hok
          exact .refl
      | cons f free =>
          have hget := h.getUnusedFrame ⟨.region1 pid, addrPage + n⟩ (PROT_READ ||| PROT_WRITE)
            (m.pte (.region1 pid) (addrPage + n))
          rw [setPte_self] at hget
          obtain ⟨m₁, m₂, hget, -, hm₂, hiso, honly, hframe, -⟩ := hget
          rw [hget] at hok
          simp only [show ¬ SUCCESS = ERROR by decide, if_false] at hok
          obtain ⟨_, -, hrest⟩ := bind_eq_ok.mp hok
          have hfirst : Spares own t m m₂ := .of_frame honly ht hframe
          rw [hm₂] at hiso hfirst
          exact hfirst.trans (ih hiso hrest)

/-! ## The kernel heap -/

theorem Isolated.mapNewRegion0Page_spares {p : Nat} (h : m.Isolated own free) (ht : t ≠ .region0)
    (hok : m.mapNewRegion0Page p = .ok (rc, m')) : Spares own t m m' := by
  obtain ⟨_, -, hok⟩ := bind_eq_ok.mp hok
  obtain ⟨_, -, hok⟩ := bind_eq_ok.mp hok
  cases free with
  | nil =>
      rw [getUnusedFrame_nil h.list] at hok
      cases hok
      exact .refl
  | cons f free =>
      have hget := h.getUnusedFrame ⟨.region0, p⟩ (PROT_READ ||| PROT_WRITE) (m.pte .region0 p)
      rw [setPte_self] at hget
      obtain ⟨m₁, m₂, hget, -, hm₂, -, honly, hframe, -⟩ := hget
      rw [hget] at hok
      simp only [show ¬ SUCCESS = ERROR by decide, if_false, Lib.pure_eq_ok, Except.ok.injEq,
        Prod.mk.injEq] at hok
      rw [← hok.2]
      rw [hm₂] at honly hframe
      exact .of_frame honly ht hframe

theorem Isolated.unmapUsedRegion0Page_spares {p : Nat} (h : m.Isolated own free)
    (ht : t ≠ .region0) (hown : own ⟨.region0, p⟩ = true)
    (hok : m.unmapUsedRegion0Page p = .ok m') : Spares own t m m' := by
  obtain ⟨_, -, hok⟩ := bind_eq_ok.mp hok
  obtain ⟨_, hv, hok⟩ := bind_eq_ok.mp hok
  cases hok
  have hheld : m.held own ⟨.region0, p⟩ = some (m.pte .region0 p).pfn :=
    held_eq_some.mpr ⟨hown, cAssert_eq_ok hv, rfl⟩
  obtain ⟨hsame, -, hframe⟩ := releaseUsedFrame_spec h.list (h.exclusive.notFree hheld)
    (h.heldSmall hheld)
  refine h.spares ht ?_ fun f hf hne => ?_
  · funext i
    rw [modifyPte, setPte_pte_of_ne _ _ fun he => ht he.1, hsame.pte]
  · refine hframe f hf ?_
    rintro rfl
    exact hne p hheld

theorem Isolated.growKernelHeap_spares {p n : Nat} (h : m.Isolated own free) (ht : t ≠ .region0)
    (hok : m.growKernelHeap p n = .ok (rc, m')) : Spares own t m m' := by
  induction n generalizing m free p with
  | zero =>
      cases hok
      exact .refl
  | succ n ih =>
      obtain ⟨⟨rc₁, m₁⟩, hmap, hrest⟩ := bind_eq_ok.mp hok
      have hfirst := h.mapNewRegion0Page_spares ht hmap
      obtain ⟨free₁, hiso, -⟩ := h.mapNewRegion0Page hmap
      rcases ite_eq_ok hrest with ⟨-, hrest⟩ | ⟨-, hrest⟩
      · cases hrest
        exact hfirst
      · exact hfirst.trans (ih hiso hrest)

end

section
variable {m m' : Machine} {live : Nat → Bool} {free : List Nat} {t : PageTable} {pid : Pid}
  {rc : Int}

theorem Isolated.shrinkKernelHeap_spares {p n : Nat} (h : m.Isolated (ownedBy live) free)
    (ht : t ≠ .region0) (hok : m.shrinkKernelHeap p n = .ok m') :
    Spares (ownedBy live) t m m' := by
  induction n generalizing m free with
  | zero =>
      cases hok
      exact .refl
  | succ n ih =>
      simp only [Machine.shrinkKernelHeap] at hok
      split at hok
      · rename_i hlt
        obtain ⟨m₁, hunmap, hrest⟩ := bind_eq_ok.mp hok
        obtain ⟨free₁, hiso, -⟩ := h.unmapUsedRegion0Page (ownedBy_region0 hlt) hunmap
        exact (h.unmapUsedRegion0Page_spares ht (ownedBy_region0 hlt) hunmap).trans (ih hiso hrest)
      · exact ih h hok

/-- `SetKernelBrk` touches no process. -/
theorem Isolated.setKernelBrk_spares {addr : Nat} (h : m.Isolated (ownedBy live) free)
    (ht : t ≠ .region0) (hok : m.setKernelBrk addr = .ok (rc, m')) :
    Spares (ownedBy live) t m m' := by
  have hbrk : ∀ {m₁ : Machine} {brk : Nat}, Spares (ownedBy live) t m m₁ →
      Spares (ownedBy live) t m { m₁ with kernelBrkPage := brk } := fun hs => ⟨hs.pte, hs.frame⟩
  unfold Machine.setKernelBrk at hok
  rcases ite_eq_ok hok with ⟨-, hok⟩ | ⟨-, hok⟩
  · cases hok
    exact .refl
  rcases ite_eq_ok hok with ⟨-, hok⟩ | ⟨-, hok⟩
  · rcases ite_eq_ok hok with ⟨-, hok⟩ | ⟨-, hok⟩
    · obtain ⟨⟨rc₁, m₁⟩, hgrow, hrest⟩ := bind_eq_ok.mp hok
      have hgrown := h.growKernelHeap_spares ht hgrow
      rcases ite_eq_ok hrest with ⟨-, hrest⟩ | ⟨-, hrest⟩
      · cases hrest
        exact hgrown
      · cases hrest
        exact hbrk hgrown
    · rcases ite_eq_ok hok with ⟨-, hok⟩ | ⟨-, hok⟩
      · obtain ⟨m₁, hshrink, hrest⟩ := bind_eq_ok.mp hok
        cases hrest
        exact hbrk (h.shrinkKernelHeap_spares ht hshrink)
      · cases hok
        exact hbrk .refl
  · cases hok
    exact hbrk .refl

/-! ## Stores -/

/-- A store of the running process goes to a frame of its own. -/
theorem Isolated.storeByte_spares {va : Nat} {b : Byte} (h : m.Isolated (ownedBy live) free)
    (hlive : live pid = true) (hptbr1 : m.ptbr1 = .region1 pid) (ht : t ≠ .region1 pid)
    (hok : m.storeByte va b = .ok m') : Spares (ownedBy live) t m m' := by
  obtain ⟨⟨f, off⟩, htranslate, hret⟩ := bind_eq_ok.mp hok
  have hheld : ∃ i, m.held (ownedBy live) ⟨.region1 pid, i⟩ = some f := by
    unfold translate at htranslate
    rcases ite_eq_ok htranslate with ⟨hva, htranslate⟩ | ⟨-, htranslate⟩
    · rcases ite_eq_ok htranslate with ⟨hv, htranslate⟩ | ⟨-, htranslate⟩
      · cases htranslate
        have hlimit : va < 0x200000 := hva.2
        have hpage : addrToPage (va - VMEM_1_BASE) < NUM_PAGES_REG_1 := by
          rw [addrToPage_eq]
          show (va - 0x100000) / 8192 < 128
          omega
        rw [hptbr1] at hv ⊢
        exact ⟨_, held_eq_some.mpr ⟨ownedBy_region1 hlive _ hpage, hv.1, rfl⟩⟩
      · cases htranslate
    · cases htranslate
  cases hret
  obtain ⟨i, hheld⟩ := hheld
  refine h.spares ht rfl fun g _ hne => funext fun off' => ?_
  exact setByte_frame_of_ne m off off' b fun he => hne i (he ▸ hheld)

theorem Isolated.storeBytes_spares {va : Nat} {bs : List Byte} (h : m.Isolated (ownedBy live) free)
    (hlive : live pid = true) (hptbr1 : m.ptbr1 = .region1 pid) (ht : t ≠ .region1 pid)
    (hok : m.storeBytes va bs = .ok m') : Spares (ownedBy live) t m m' := by
  induction bs generalizing m va with
  | nil =>
      cases hok
      exact .refl
  | cons b bs ih =>
      obtain ⟨m₁, hstore, hrest⟩ := bind_eq_ok.mp hok
      obtain ⟨hiso, hsame⟩ := h.storeByte hlive hptbr1 hstore
      exact (h.storeByte_spares hlive hptbr1 ht hstore).trans
        (ih hiso (hsame.ptbr1.trans hptbr1) hrest)

/-! ## Loading a program -/

section
variable (h : m.Isolated (ownedBy live) free) (hlive : live pid = true)
  (hptbr1 : m.ptbr1 = .region1 pid) (ht : t ≠ .region1 pid)
include h hlive ht

include hptbr1 in
theorem Isolated.readFile_spares {bytes : Option (List Byte)} {addr size : Nat}
    (hok : m.readFile bytes addr size = .ok (rc, m')) : Spares (ownedBy live) t m m' := by
  cases bytes with
  | none =>
      cases hok
      exact .refl
  | some bytes =>
      obtain ⟨m₁, hstore, hret⟩ := bind_eq_ok.mp hok
      cases hret
      exact h.storeBytes_spares hlive hptbr1 ht hstore

include hptbr1 in
theorem Isolated.storeArgs_spares {cpp cp cpp' : Nat} {args : List (List Byte)}
    (hok : m.storeArgs cpp cp args = .ok (cpp', m')) : Spares (ownedBy live) t m m' := by
  induction args generalizing m cpp cp with
  | nil =>
      cases hok
      exact .refl
  | cons arg args ih =>
      obtain ⟨m₁, hword, hrest⟩ := bind_eq_ok.mp hok
      obtain ⟨m₂, hbytes, hrest⟩ := bind_eq_ok.mp hrest
      obtain ⟨hiso₁, hsame₁⟩ := h.storeBytes hlive hptbr1 hword
      obtain ⟨hiso₂, hsame₂⟩ := hiso₁.storeBytes hlive (hsame₁.ptbr1.trans hptbr1) hbytes
      have hfirst := (h.storeBytes_spares hlive hptbr1 ht hword).trans
        (hiso₁.storeBytes_spares hlive (hsame₁.ptbr1.trans hptbr1) ht hbytes)
      exact hfirst.trans (ih hiso₂ ((hsame₁.trans hsame₂).ptbr1.trans hptbr1) hrest)

include hptbr1 in
theorem Isolated.buildArgs_spares {args : List (List Byte)} (hok : m.buildArgs args = .ok m') :
    Spares (ownedBy live) t m m' := by
  obtain ⟨m₁, hzero, hrest⟩ := bind_eq_ok.mp hok
  obtain ⟨m₂, hargc, hrest⟩ := bind_eq_ok.mp hrest
  obtain ⟨⟨cpp, m₃⟩, hargs, hrest⟩ := bind_eq_ok.mp hrest
  obtain ⟨m₄, hnull, hnull'⟩ := bind_eq_ok.mp hrest
  rw [storeZeros_eq] at hzero
  obtain ⟨hiso₁, hsame₁⟩ := h.storeBytes hlive hptbr1 hzero
  have hptbr₁ := hsame₁.ptbr1.trans hptbr1
  obtain ⟨hiso₂, hsame₂⟩ := hiso₁.storeBytes hlive hptbr₁ hargc
  have hptbr₂ := hsame₂.ptbr1.trans hptbr₁
  obtain ⟨hiso₃, hsame₃⟩ := hiso₂.storeArgs hlive hptbr₂ hargs
  have hptbr₃ := hsame₃.ptbr1.trans hptbr₂
  obtain ⟨hiso₄, hsame₄⟩ := hiso₃.storeBytes hlive hptbr₃ hnull
  have hptbr₄ := hsame₄.ptbr1.trans hptbr₃
  calc Spares (ownedBy live) t m m₁ := h.storeBytes_spares hlive hptbr1 ht hzero
    Spares (ownedBy live) t m₁ m₂ := hiso₁.storeBytes_spares hlive hptbr₁ ht hargc
    Spares (ownedBy live) t m₂ m₃ := hiso₂.storeArgs_spares hlive hptbr₂ ht hargs
    Spares (ownedBy live) t m₃ m₄ := hiso₃.storeBytes_spares hlive hptbr₃ ht hnull
    Spares (ownedBy live) t m₄ m' := hiso₄.storeBytes_spares hlive hptbr₄ ht hnull'

theorem Isolated.mapProgram_spares {li : LoadInfo} {args : List (List Byte)}
    (hok : m.mapProgram pid li args = .ok (rc, m')) : Spares (ownedBy live) t m m' := by
  have hown := ownedBy_region1 hlive
  obtain ⟨⟨rc₁, m₁⟩, htext, hrest⟩ := bind_eq_ok.mp hok
  obtain ⟨free₁, hiso₁, -⟩ := h.mapNewRegion1Pages hown htext
  have hs₁ := h.mapLoop_spares ht hown htext
  rcases ite_eq_ok hrest with ⟨-, hrest⟩ | ⟨-, hrest⟩
  · cases hrest
    exact hs₁
  obtain ⟨⟨rc₂, m₂⟩, hdata, hrest⟩ := bind_eq_ok.mp hrest
  obtain ⟨free₂, hiso₂, -⟩ := hiso₁.mapNewRegion1Pages hown hdata
  have hs₂ := hs₁.trans (hiso₁.mapLoop_spares ht hown hdata)
  rcases ite_eq_ok hrest with ⟨-, hrest⟩ | ⟨-, hrest⟩
  · cases hrest
    exact hs₂
  · exact hs₂.trans (hiso₂.mapLoop_spares ht hown hrest)

include hptbr1 in
theorem Isolated.fillProgram_spares {file : Executable} {li : LoadInfo} {args : List (List Byte)}
    (hok : m.fillProgram pid file li args = .ok (rc, m')) : Spares (ownedBy live) t m m' := by
  obtain ⟨⟨got₁, m₁⟩, htext, hrest⟩ := bind_eq_ok.mp hok
  obtain ⟨hiso₁, hsame₁⟩ := h.readFile hlive hptbr1 htext
  have hptbr₁ := hsame₁.ptbr1.trans hptbr1
  have hs₁ := h.readFile_spares hlive hptbr1 ht htext
  rcases ite_eq_ok hrest with ⟨-, hrest⟩ | ⟨-, hrest⟩
  · cases hrest
    exact hs₁
  obtain ⟨⟨got₂, m₂⟩, hdata, hrest⟩ := bind_eq_ok.mp hrest
  obtain ⟨hiso₂, hsame₂⟩ := hiso₁.readFile hlive hptbr₁ hdata
  have hptbr₂ := hsame₂.ptbr1.trans hptbr₁
  have hs₂ := hs₁.trans (hiso₁.readFile_spares hlive hptbr₁ ht hdata)
  rcases ite_eq_ok hrest with ⟨-, hrest⟩ | ⟨-, hrest⟩
  · cases hrest
    exact hs₂
  obtain ⟨m₃, hprot, hrest⟩ := bind_eq_ok.mp hrest
  obtain ⟨hiso₃, honly₃, hframe₃, -⟩ := hiso₂.changeProtLoop hprot
  have hptbr₃ := honly₃.ptbr1.trans hptbr₂
  have hs₃ := hs₂.trans (.of_frame honly₃ ht hframe₃)
  obtain ⟨m₄, hzero, hrest⟩ := bind_eq_ok.mp hrest
  rw [storeZeros_eq] at hzero
  obtain ⟨hiso₄, hsame₄⟩ := hiso₃.flushRegion1.storeBytes hlive hptbr₃ hzero
  have hzeros := hiso₃.flushRegion1.storeBytes_spares hlive hptbr₃ ht hzero
  obtain ⟨m₅, hbuild, hret⟩ := bind_eq_ok.mp hrest
  have hargs := hiso₄.buildArgs_spares hlive (hsame₄.ptbr1.trans hptbr₃) ht hbuild
  cases hret
  exact (hs₃.trans ⟨hzeros.pte, hzeros.frame⟩).trans hargs

include hptbr1 in
/-- `LoadProgram` works on the table of its process. -/
theorem Isolated.loadProgram_spares {space : Space} {file : Option Executable}
    {args : Option (List (List Byte))} {argbufOk : Bool} {r : LoadResult}
    (hok : Theynix.loadProgram m pid space file args argbufOk = .ok r) :
    Spares (ownedBy live) t m r.machine := by
  unfold Theynix.loadProgram at hok
  dsimp only at hok
  split at hok
  · cases hok
    exact .refl
  rename_i file li hadmitted
  rcases ite_eq_ok hok with ⟨-, hok⟩ | ⟨-, hok⟩
  · cases hok
    exact .refl
  obtain ⟨free₀, hiso₀, honly₀, -⟩ := h.freeRegion1PageTable hlive
  have hs₀ : Spares (ownedBy live) t m (m.freeRegion1PageTable pid) := by
    unfold Machine.freeRegion1PageTable
    exact h.freePageTable_spares ht fun i _ hi => ownedBy_region1 hlive i (by omega)
  obtain ⟨⟨rc₁, m₁⟩, hmap, hrest⟩ := bind_eq_ok.mp hok
  obtain ⟨free₁, hiso₁, honly₁⟩ := hiso₀.mapProgram hlive hmap
  have hs₁ := hs₀.trans (hiso₀.mapProgram_spares hlive ht hmap)
  rcases ite_eq_ok hrest with ⟨-, hrest⟩ | ⟨-, hrest⟩
  · cases hrest
    exact hs₁
  obtain ⟨⟨rc₂, m₂⟩, hfill, hrest⟩ := bind_eq_ok.mp hrest
  have hptbr₁ : m₁.ptbr1 = .region1 pid := honly₁.ptbr1.trans (honly₀.ptbr1.trans hptbr1)
  have hfilled := hiso₁.flushRegion1.fillProgram_spares hlive hptbr₁ ht hfill
  have hs₂ : Spares (ownedBy live) t m m₂ := hs₁.trans ⟨hfilled.pte, hfilled.frame⟩
  rcases ite_eq_ok hrest with ⟨-, hrest⟩ | ⟨-, hrest⟩
  · cases hrest
    exact hs₂
  · cases hrest
    exact hs₂

end

/-! ## Kernel stacks and forks -/

/-- A page is copied to a page that some slot holds. -/
theorem Isolated.copyPage_spares {own : PteRef → Bool} {src dst : Pte} {r : PteRef}
    (h : m.Isolated own free) (hown : own r = true) (hdst : dst = m.pte r.table r.index)
    (ht : t ≠ r.table) (hok : m.copyPage src dst = .ok m') : Spares own t m m' := by
  unfold Machine.copyPage at hok
  rcases ite_eq_ok hok with ⟨hc, hok⟩ | ⟨-, hok⟩
  · cases hok
    have hheld : m.held own ⟨r.table, r.index⟩ = some dst.pfn := by
      rw [held_eq_some, ← hdst]
      exact ⟨hown, hc.2.2.1, rfl⟩
    refine h.spares ht rfl fun f _ hne => funext fun off => if_neg fun he => ?_
    exact hne r.index (he.1 ▸ hheld)
  · cases hok

theorem Spares.setPte {own : PteRef → Bool} {t' : PageTable} (ht : t ≠ t') (i : Nat) (e : Pte) :
    Spares own t m (m.setPte t' i e) := .of_frame (.setPte i e) ht rfl

/-- The first copy of a kernel stack writes to the frames of the new stack. -/
theorem Isolated.copyKernelStack_spares {source dest : Pid} (h : m.Isolated (ownedBy live) free)
    (hlive : live dest = true) (ht : t ≠ .kernelStack dest) (ht' : t ≠ .region0)
    (hok : m.copyKernelStackPageTableAndData source dest = .ok m') :
    Spares (ownedBy live) t m m' := by
  have hbase : ownedBy live ⟨.region0, 126⟩ = false := ownedBy_kernelStackPages (by decide)
  have hnext : ownedBy live ⟨.region0, 127⟩ = false := ownedBy_kernelStackPages (by decide)
  obtain ⟨m₁, hcopy, hrest⟩ := bind_eq_ok.mp hok
  have hiso := h.setPte_unowned hbase (m.pte (.kernelStack dest) 1)
  have hs₁ := hiso.copyPage_spares (r := ⟨.kernelStack dest, 1⟩)
    (ownedBy_kernelStack hlive 1 (by decide)) (by simp [Machine.setPte]) ht hcopy
  obtain ⟨hiso₁, -⟩ := hiso.copyPage (r := ⟨.kernelStack dest, 1⟩)
    (ownedBy_kernelStack hlive 1 (by decide)) (by simp [Machine.setPte]) hcopy
  obtain ⟨m₂, hcopy₂, hm'⟩ := bind_eq_ok.mp hrest
  cases hm'
  have hs₂ := ((hiso₁.setPte_unowned hbase (m₁.pte (.kernelStack source) 0)).setPte_unowned
    hnext _).copyPage_spares (r := ⟨.kernelStack dest, 0⟩)
    (ownedBy_kernelStack hlive 0 (by decide)) (by simp [Machine.setPte]) ht hcopy₂
  calc Spares (ownedBy live) t m _ := .setPte ht' 126 _
    Spares (ownedBy live) t _ m₁ := hs₁
    Spares (ownedBy live) t m₁ _ := .setPte ht' 126 _
    Spares (ownedBy live) t _ _ := .setPte ht' 127 _
    Spares (ownedBy live) t _ m' := hs₂

/-- The blank tables of a new process. -/
theorem Spares.withBlankTables {own : PteRef → Bool} (ht : t ≠ .region1 pid)
    (ht' : t ≠ .kernelStack pid) : Spares own t m (m.withBlankTables pid) :=
  ⟨funext (withBlankTables_pte ht ht'), fun _ => rfl⟩

/-- A stage of a fork takes free frames, and gives them back if there are too few. -/
theorem Isolated.stage_spares {own : PteRef → Bool} {t' : PageTable} {n : Nat}
    (h : m.Isolated own free) (ht : t ≠ t') (hstage : Stage t' m m' [] free n rc) :
    Spares own t m m' := by
  cases hstage with
  | success _ _ _ touches => exact h.spares_of_touches ht touches fun f hf => by cases hf
  | error _ _ _ touches => exact h.spares_of_touches ht touches fun f hf => .inl hf

/-- `NewBlankPCBWithPageTables` touches no process. -/
theorem Isolated.newPageTables_spares (h : m.Isolated (ownedBy live) free)
    (hpid : live pid = false) (ht : t ≠ .region1 pid) (ht' : t ≠ .kernelStack pid) :
    Spares (ownedBy live) t m (m.newPageTables pid).2 := by
  have hblank : (m.withBlankTables pid).Isolated (ownedBy live) free :=
    (h.callocPageTables hpid).forget fun p hp => by simp [hp]
  exact (Spares.withBlankTables ht ht').trans
    (hblank.stage_spares ht' (newPageTables_list h.list h.freeSmall pid))

/-- The new region 1 table has no pages. -/
theorem Isolated.newPageTables_blank {own : PteRef → Bool} (h : m.Isolated own free) (pid : Pid) :
    ∀ i < NUM_PAGES_REG_1, ((m.newPageTables pid).2.pte (.region1 pid) i).valid = false := by
  intro i hi
  have hstack : PageTable.region1 pid ≠ .kernelStack pid := by simp
  have hsame : (m.newPageTables pid).2.pte (.region1 pid) i
      = (m.withBlankTables pid).pte (.region1 pid) i := by
    cases newPageTables_list h.list h.freeSmall pid with
    | success _ _ _ touches => exact touches.pte hstack i
    | error _ _ _ touches => exact touches.pte hstack i
  rw [hsame]
  simp [withBlankTables, createRegion1PageTable, callocPageTable, hi]

/-- Slots that no longer count are spared as well. -/
theorem Spares.forget {live' : Nat → Bool} (h : Spares (ownedBy live') t m m')
    (hsub : ∀ p, live p = true → live' p = true) : Spares (ownedBy live) t m m' :=
  ⟨h.pte, fun hf => h.frame (held_ownedBy_mono hsub hf)⟩

/-- The copy of region 1 touches the new table and its frames. -/
theorem Isolated.copyRegion1_spares {own : PteRef → Bool} {source dest : Pid}
    (h : m.Isolated own free) (hne : source ≠ dest)
    (hown : ∀ i < NUM_PAGES_REG_1, own ⟨.region1 source, i⟩ = true)
    (hblank : ∀ i < NUM_PAGES_REG_1, (m.pte (.region1 dest) i).valid = false)
    (ht : t ≠ .region1 dest) (ht' : t ≠ .tempRegion1)
    (hok : m.copyRegion1PageTableAndData source dest = .ok (rc, m')) : Spares own t m m' := by
  have hnone : ∀ i < NUM_PAGES_REG_1, (m.pte (.region1 source) i).valid = true →
      (m.pte (.region1 source) i).pfn ∉ free := fun i hi hv =>
    h.exclusive.notFree (held_eq_some.mpr ⟨hown i hi, hv, rfl⟩)
  rcases copyRegion1_result hok with rfl | rfl
  · have halloc := (copyRegion1PageTableAndData_error hok).mp rfl
    rw [copyRegion1PageTableAndData_of_error halloc] at hok
    cases hok
    refine h.stage_spares ht (allocRegion1Copy_list hne h.list (fun j _ hj => ?_) rfl
      h.exclusive.nodup h.freeSmall)
    exact hblank j (by omega)
  · have hcopy := copyRegion1PageTableAndData_faithful hne h.list hnone hblank hok
    exact h.spares ht (hcopy.tables t ht ht') fun f hf _ => hcopy.memory_of_not_free hf

/-! ## What a process finds -/

/-- The kernel stack of process `pid`, byte by byte, where it has pages. -/
def kernelStackOf (m : Machine) (pid : Pid) (i off : Nat) : Option Byte :=
  if i < NUM_KERNEL_PAGES ∧ (m.pte (.kernelStack pid) i).valid = true then
    some (m.frame (m.pte (.kernelStack pid) i).pfn off)
  else none

theorem Spares.memoryOf (h : Spares (ownedBy live) (.region1 pid) m m') (hlive : live pid = true) :
    m'.memoryOf pid = m.memoryOf pid := by
  refine memoryOf_congr (fun i _ => ?_) (fun i _ _ => ?_) fun i hi hv off _ => ?_
  · rw [h.pte]
  · rw [h.pte]
  · rw [h.pte, h.frame (held_eq_some.mpr ⟨ownedBy_region1 hlive i hi, hv, rfl⟩)]

theorem Spares.kernelStackOf (h : Spares (ownedBy live) (.kernelStack pid) m m')
    (hlive : live pid = true) : m'.kernelStackOf pid = m.kernelStackOf pid := by
  funext i off
  unfold Machine.kernelStackOf
  rw [h.pte]
  by_cases hi : i < NUM_KERNEL_PAGES ∧ (m.pte (.kernelStack pid) i).valid = true
  · rw [if_pos hi, if_pos hi,
      h.frame (held_eq_some.mpr ⟨ownedBy_kernelStack hlive i hi.1, hi.2, rfl⟩)]
  · rw [if_neg hi, if_neg hi]

end

end Machine

open Machine (ownedBy Spares)

namespace Kernel

section
variable {k k' : Kernel} {s : Sched} {p : Pid} {c : KernelContext} {live : Nat → Bool}
  {free : List Nat} {t : PageTable}

/-! ## Switches -/

/-- A table of process `p`: the one of region 1, or the one of its kernel stack. -/
def TableOf (p : Pid) (t : PageTable) : Prop := t = .region1 p ∨ t = .kernelStack p

theorem TableOf.ne_region0 (h : TableOf p t) : t ≠ .region0 := by
  rcases h with rfl | rfl
  · simp
  · simp

theorem TableOf.ne_temp (h : TableOf p t) : t ≠ .tempRegion1 := by
  rcases h with rfl | rfl
  · simp
  · simp

theorem TableOf.ne_region1 {q : Pid} (h : TableOf p t) (hpq : p ≠ q) : t ≠ .region1 q := by
  rcases h with rfl | rfl
  · exact fun he => hpq (by cases he; rfl)
  · simp

theorem TableOf.ne_kernelStack {q : Pid} (h : TableOf p t) (hpq : p ≠ q) :
    t ≠ .kernelStack q := by
  rcases h with rfl | rfl
  · simp
  · exact fun he => hpq (by cases he; rfl)

/-- The process has run before: its kernel stack has been made. -/
def Started (k : Kernel) (p : Pid) : Prop :=
  ∀ a, k.pcb p = some a → a.kernelContextInitialized = true

theorem TableOf.started {q : Pid} (h : TableOf p t) (hstarted : k.Started p)
    (hq : t = .kernelStack q) : k.Started q := by
  rcases h with rfl | rfl
  · cases hq
  · cases hq
    exact hstarted

/-- A switch writes at most to the kernel stack of a process that starts. -/
theorem switchToProc_spares {next : Pid} (hiso : k.machine.Isolated (ownedBy live) free)
    (hnext : live next = true) (ht : t ≠ .region0) (hstarted : t = .kernelStack next → k.Started next)
    (hok : k.switchToProc next c = .ok k') : Spares (ownedBy live) t k.machine k'.machine := by
  have hiso₁ : ({ k.machine with ptbr1 := .region1 next } : Machine).flushRegion1.Isolated
      (ownedBy live) free := hiso.congr rfl rfl rfl fun _ _ => rfl
  have hstack : ∀ m : Machine,
      Spares (ownedBy live) t m (m.useKernelStackForProc next).flushRegion1 := fun m =>
    (Spares.of_frame (m.useKernelStack_onlyTable next) ht rfl).trans
      ⟨rfl, fun _ => rfl⟩
  unfold Kernel.switchToProc at hok
  split at hok
  · cases hok
  rename_i nextPcb hpcb
  rcases ite_eq_ok hok with ⟨-, hok⟩ | ⟨hinit, hok⟩
  · obtain ⟨m, hm, hret⟩ := bind_eq_ok.mp hok
    cases hm
    cases hret
    have hfirst : Spares (ownedBy live) t k.machine
        ({ k.machine with ptbr1 := .region1 next } : Machine).flushRegion1 := ⟨rfl, fun _ => rfl⟩
    exact hfirst.trans (hstack _)
  · obtain ⟨m, hcopy, hret⟩ := bind_eq_ok.mp hok
    cases hret
    have hne : t ≠ .kernelStack next := fun he => hinit (hstarted he nextPcb hpcb)
    have hcopied := hiso₁.copyKernelStack_spares hnext hne ht hcopy
    exact Spares.trans ⟨hcopied.pte, hcopied.frame⟩ (hstack m)

theorem switchToNextProc_spares (hiso : k.machine.Isolated (ownedBy live) free)
    (hcur : live k'.currentProc = true) (ht : TableOf p t) (hstarted : k.Started p)
    (hok : k.switchToNextProc c = .ok k') : Spares (ownedBy live) t k.machine k'.machine := by
  unfold Kernel.switchToNextProc at hok
  split at hok
  · rename_i next rest hq
    rw [switchToProc_sched hok, Sched.switchToProc_currentProc] at hcur
    exact switchToProc_spares (k := k.withSched { k.toSched with readyQueue := rest }) hiso hcur
      ht.ne_region0 (ht.started hstarted) hok
  · rw [switchToProc_sched hok, Sched.switchToProc_currentProc] at hcur
    exact switchToProc_spares hiso hcur ht.ne_region0 (ht.started hstarted) hok

end

end Kernel

open Kernel (TableOf Started)

section
variable {k k' : Kernel} {p : Pid} {free : List Nat} {t : PageTable}

/-! ## What the running process does -/

/-- A turn of one process. -/
theorem Turn.spares {suspends : KernelContext → Prop} {returns : Int → Prop}
    (h : Turn suspends returns k k') (hiso : k.machine.Isolated (ownedBy k.live) free)
    (hptbr1 : k.machine.ptbr1 = .region1 k.currentProc) (hlive : k.live k.currentProc = true)
    (hcur : k.live k'.currentProc = true) (ht : TableOf p t) (hp : p ≠ k.currentProc)
    (hstarted : k.Started p) : Spares (ownedBy k.live) t k.machine k'.machine := by
  cases h with
  | ret result contexts store buffers =>
      exact hiso.storeBytes_spares hlive hptbr1 (ht.ne_region1 hp) store
  | back outside contexts mode buffers => exact .refl
  | @switch s h c _ context run contexts buffers =>
      refine Kernel.switchToNextProc_spares (k := (k.withHeap h).withSched s) hiso hcur ht
        (fun a' ha' => ?_) run
      obtain ⟨a, ha, hlife⟩ := contexts.pcb p a' ha'
      exact (congrArg Prod.fst hlife).symm.trans (hstarted a ha)

theorem Turn.space_of_ne {suspends : KernelContext → Prop} {returns : Int → Prop}
    (h : Turn suspends returns k k') (hp : p ≠ k.currentProc) : k'.space p = k.space p := by
  cases h with
  | ret result contexts store buffers => rfl
  | back outside contexts mode buffers => rfl
  | @switch s _ c _ context run contexts buffers =>
      rw [(Kernel.switchToNextProc_switched run).space]
      have hcur : p ≠ s.currentProc := by rwa [contexts.currentProc]
      exact if_neg hcur

theorem Kernel.kernelBrk_spares {addr : Nat} {rc : Int}
    (hiso : k.machine.Isolated (ownedBy k.live) free) (hlive : k.live k.currentProc = true)
    (ht : TableOf p t) (hp : p ≠ k.currentProc) (hok : k.kernelBrk addr = .ok (rc, k')) :
    Spares (ownedBy k.live) t k.machine k'.machine ∧ k'.space p = k.space p := by
  have hown := Machine.ownedBy_region1 hlive
  have htable := ht.ne_region1 hp
  unfold Kernel.kernelBrk at hok
  rcases ite_eq_ok hok with ⟨-, hok⟩ | ⟨-, hok⟩
  · cases hok
    exact ⟨.refl, rfl⟩
  rcases ite_eq_ok hok with ⟨-, hok⟩ | ⟨-, hok⟩
  · obtain ⟨⟨rc₁, m⟩, hmap, hok⟩ := bind_eq_ok.mp hok
    have hspares := hiso.mapLoop_spares htable hown hmap
    rcases ite_eq_ok hok with ⟨-, hok⟩ | ⟨-, hok⟩
    · cases hok
      exact ⟨hspares, rfl⟩
    · cases hok
      exact ⟨hspares, if_neg hp⟩
  rcases ite_eq_ok hok with ⟨-, hok⟩ | ⟨-, hok⟩
  · obtain ⟨m, hunmap, hok⟩ := bind_eq_ok.mp hok
    cases hok
    exact ⟨hiso.unmapLoop_spares htable hown hunmap, if_neg hp⟩
  · cases hok
    exact ⟨.refl, if_neg hp⟩

theorem Kernel.kernelExec_spares {filename argvec : Nat} {env : Env} {rc : Int}
    (hiso : k.machine.Isolated (ownedBy k.live) free)
    (hptbr1 : k.machine.ptbr1 = .region1 k.currentProc) (hlive : k.live k.currentProc = true)
    (ht : TableOf p t) (hp : p ≠ k.currentProc)
    (hok : k.kernelExec filename argvec env = .ok (rc, k')) :
    Spares (ownedBy k.live) t k.machine k'.machine ∧ k'.space p = k.space p := by
  obtain ⟨prepared, -, hok⟩ := bind_eq_ok.mp hok
  cases prepared with
  | none =>
      cases hok
      exact ⟨.refl, rfl⟩
  | some prepared =>
      obtain ⟨r, hload, hok⟩ := bind_eq_ok.mp hok
      have hspares := hiso.loadProgram_spares hlive hptbr1 (ht.ne_region1 hp) hload
      rcases ite_eq_ok hok with ⟨-, hok⟩ | ⟨-, hok⟩
      · cases hok
        exact ⟨hspares, if_neg hp⟩
      · cases hok
        exact ⟨hspares, if_neg hp⟩

theorem Kernel.kernelExit_spares {status : Int}
    (hiso : k.machine.Isolated (ownedBy k.live) free) (hrun : k.toSched.Running)
    (hidle : k.currentProc ≠ IDLE_PID) (hcur : k.live k'.currentProc = true) (ht : TableOf p t)
    (hp : p ≠ k.currentProc) (hstarted : k.Started p) (hok : k.kernelExit status = .ok k') :
    Spares (ownedBy k.live) t k.machine k'.machine ∧ k'.space p = k.space p := by
  have hlive := hrun.current.resolve_left id
  obtain ⟨k₁, hswitch, hcurs, -, hlife, hm, hspace⟩ := Kernel.kernelExit_cases hrun hidle hok
  obtain ⟨free₁, hiso₁, -⟩ := hiso.freeRegion1PageTable hlive
  obtain ⟨free₂, hiso₂, -⟩ := hiso₁.freeRegion0StackPages hlive
  have hs₁ : Spares (ownedBy k.live) t k.machine
      (k.machine.freeRegion1PageTable k.currentProc) := by
    unfold Machine.freeRegion1PageTable
    exact hiso.freePageTable_spares (ht.ne_region1 hp) fun i _ hi =>
      Machine.ownedBy_region1 hlive i (by omega)
  have hs₂ : Spares (ownedBy k.live) t (k.machine.freeRegion1PageTable k.currentProc)
      ((k.machine.freeRegion1PageTable k.currentProc).freeRegion0StackPages k.currentProc) := by
    unfold Machine.freeRegion0StackPages
    exact hiso₁.freePageTable_spares (ht.ne_kernelStack hp) fun i _ hi =>
      Machine.ownedBy_kernelStack hlive i (by omega)
  rw [← hm] at hiso₂ hs₂
  have hs₃ := Kernel.switchToNextProc_spares hiso₂ hcur ht
    (fun a' ha' => by
      obtain ⟨a, ha, hsame⟩ := hlife p a' ha'
      exact (congrArg Prod.fst hsame).symm.trans (hstarted a ha)) hswitch
  refine ⟨(hs₁.trans hs₂).trans hs₃, ?_⟩
  rw [(Kernel.switchToNextProc_switched hswitch).space, ← hspace]
  have hcur' : p ≠ k₁.currentProc := by rwa [hcurs]
  exact if_neg hcur'

/-- The two stages of a fork touch the tables of the child only. -/
theorem Machine.Isolated.fork_spares {m m' : Machine} {live : Nat → Bool} {parent child : Pid}
    {rc : Int} (hiso : m.Isolated (ownedBy live) free) (hchild : live child = false)
    (hparent : live parent = true) (hptbr1 : m.ptbr1 = .region1 parent) (ht : TableOf p t)
    (hp : p ≠ child)
    (hok : (m.newPageTables child).2.copyRegion1PageTableAndData parent child = .ok (rc, m')) :
    Spares (ownedBy live) t m m' ∧ (rc = SUCCESS → ∃ free',
      m'.Isolated (ownedBy fun q => live q || decide (q = child)) free') := by
  have hne : parent ≠ child := by
    rintro rfl
    rw [hparent] at hchild
    cases hchild
  obtain ⟨free₁, hiso₁, hptbr₁⟩ := hiso.newPageTables hchild
  have hself : (live child || decide (child = child)) = true := by simp
  have hsource : (live parent || decide (parent = child)) = true := by simp [hparent]
  have hcopy := hiso₁.copyRegion1_spares hne (Machine.ownedBy_region1 hsource)
    (hiso.newPageTables_blank child) (ht.ne_region1 hp) ht.ne_temp hok
  obtain ⟨free₂, -, hres⟩ := hiso₁.copyRegion1PageTableAndData hself (hptbr₁.trans hptbr1) hok
  refine ⟨(hiso.newPageTables_spares hchild (ht.ne_region1 hp) (ht.ne_kernelStack hp)).trans
    (hcopy.forget fun q hq => by simp [hq]), fun hrc => ?_⟩
  rcases hres with ⟨-, hiso₂⟩ | ⟨herror, -⟩
  · exact ⟨free₂, hiso₂⟩
  · exact absurd (hrc.symm.trans herror) (by decide)

theorem Kernel.kernelFork_spares (hiso : k.machine.Isolated (ownedBy k.live) free)
    (hptbr1 : k.machine.ptbr1 = .region1 k.currentProc) (hrun : k.toSched.Running)
    (ht : TableOf p t) (hlive : k.live p = true) (hp : p ≠ k.currentProc)
    (hstarted : k.Started p) (hok : k.kernelFork = .ok k') :
    Spares (ownedBy k.live) t k.machine k'.machine ∧ k'.space p = k.space p := by
  have hfresh : k.live k.nextPid = false := by
    rw [Bool.eq_false_iff]
    exact fun hq => Nat.lt_irrefl _ (hrun.pcbLt _ (Bool.and_eq_true _ _ ▸ hq).1)
  have hchild : p ≠ k.nextPid := by
    rintro rfl
    rw [hfresh] at hlive
    cases hlive
  rw [Kernel.kernelFork_eq] at hok
  rcases ite_eq_ok hok with ⟨-, hok⟩ | ⟨-, hok⟩
  · cases hok
    exact ⟨hiso.newPageTables_spares hfresh (ht.ne_region1 hchild) (ht.ne_kernelStack hchild),
      if_neg hp⟩
  obtain ⟨⟨rc, m⟩, hcopy, hok⟩ := bind_eq_ok.mp hok
  obtain ⟨hspares, hiso'⟩ := hiso.fork_spares hfresh (hrun.current.resolve_left id) hptbr1 ht
    hchild hcopy
  rcases ite_eq_ok hok with ⟨-, hok⟩ | ⟨hrc, hok⟩
  · cases hok
    exact ⟨hspares, if_neg hp⟩
  · obtain rfl := (Machine.copyRegion1_result hcopy).resolve_left hrc
    obtain ⟨free', hiso'⟩ := hiso' rfl
    have hswitch := Kernel.switchToProc_spares (k := k.forked m) hiso' (by simp) ht.ne_region0
      (fun he => absurd he (ht.ne_kernelStack hchild)) hok
    refine ⟨hspares.trans (hswitch.forget fun q hq => by simp [hq]), ?_⟩
    rw [(Kernel.switchToProc_switched hok).space]
    refine (if_neg hp).trans ?_
    simp only [Kernel.forked, Kernel.withSched, Kernel.setSpace, Kernel.saveUserContext,
      Nat.add_sub_cancel]
    rw [if_neg hchild, if_neg hp]

/-! ## Steps -/

/-- A process that is there after a switch was there before, when only known PCBs were. -/
theorem Kernel.lt_nextPid_of_switch {k₁ : Kernel} {c : KernelContext} {q : Pid}
    (hrun : k.toSched.Running)
    (hpcb : ∀ a', k₁.pcb q = some a' → ∃ a, k.pcb q = some a ∧ a.life = a'.life)
    (run : k₁.switchToNextProc c = .ok k') (hlive : k'.live q = true) : q < k.nextPid := by
  obtain ⟨a', ha'⟩ := Option.isSome_iff_exists.mp (Bool.and_eq_true _ _ ▸ hlive).1
  rw [Kernel.switchToNextProc_sched run, Sched.switchToNextProc_pcb] at ha'
  obtain ⟨b, hb, -⟩ := Option.map_eq_some_iff.mp ha'
  obtain ⟨a, ha, -⟩ := hpcb b hb
  exact hrun.pcbLt q (by rw [ha]; rfl)

/-- The process that runs after a turn was there before. -/
theorem Turn.current_lt {suspends : KernelContext → Prop} {returns : Int → Prop}
    (h : Turn suspends returns k k') (hrun : k.toSched.Running)
    (hcur : k'.live k'.currentProc = true) : k'.currentProc < k.nextPid := by
  have hold : k.currentProc < k.nextPid :=
    hrun.pcbLt _ (Bool.and_eq_true _ _ ▸ hrun.current.resolve_left id).1
  cases h with
  | ret result contexts store buffers => exact contexts.currentProc ▸ hold
  | back outside contexts mode buffers => exact contexts.currentProc ▸ hold
  | @switch s h c _ context run contexts buffers =>
      have hswitch : ((k.withHeap h).withSched s).switchToNextProc c = .ok k' := run
      exact Kernel.lt_nextPid_of_switch hrun (contexts.pcb _) hswitch hcur

/-- A step touches the tables of the running process and of a new child only. -/
theorem Step.spares {e : Event} (hobj : k.toSched.Objects) (hrun : k.toSched.Running)
    (hfam : k.toSched.FamilyInv) (hapart : k.Apart) (hfresh : k.Fresh e) (hstep : Step k e k')
    (ht : TableOf p t) (hlive : k.live p = true) (hp : p ≠ k.currentProc) (hstarted : k.Started p) :
    Spares (ownedBy k.live) t k.machine k'.machine ∧ k'.space p = k.space p := by
  obtain ⟨free, hiso⟩ := hapart.isolated
  have hptbr1 := hapart.ptbr1
  have hself := hrun.current.resolve_left id
  have hcur' := (hstep.sched.running hrun hobj).current.resolve_left id
  have hcur : k'.currentProc < k.nextPid → k.live k'.currentProc = true := fun hlt =>
    (((Sched.SchedStep.kin hstep.sched).live hfam hrun).2 hcur').resolve_right (Nat.ne_of_lt hlt)
  -- A system call that ends, or suspends the process, gives up no page of another one.
  have hturn : ∀ {suspends : KernelContext → Prop} {returns : Int → Prop} {k₀ : Kernel},
      Turn suspends returns k₀ k' → k₀.toSched = k.toSched → k₀.machine = k.machine →
      k₀.space = k.space → Spares (ownedBy k.live) t k.machine k'.machine ∧
        k'.space p = k.space p := by
    intro suspends returns k₀ turn hsched hmachine hspace
    have hlt := turn.current_lt (by rwa [hsched]) hcur'
    rw [hsched] at hlt
    have hspares := turn.spares (p := p) (t := t) (by rwa [hmachine, hsched])
      (by rwa [hmachine, hsched]) (by rwa [hsched]) (by rw [hsched]; exact hcur hlt) ht
      (by rwa [hsched]) (by unfold Kernel.Started; rwa [hsched])
    rw [hmachine, hsched] at hspares
    exact ⟨hspares, (turn.space_of_ne (by rwa [hsched])).trans (congrFun hspace p)⟩
  have hexit : ∀ {k₀ : Kernel} {status : Int}, k₀.kernelExit status = .ok k' →
      k₀.toSched = k.toSched → k₀.machine = k.machine → k₀.space = k.space →
      k.currentProc ≠ IDLE_PID → Spares (ownedBy k.live) t k.machine k'.machine ∧
        k'.space p = k.space p := by
    intro k₀ status hok hsched hmachine hspace hidle
    obtain ⟨k₁, hswitch, -, -, hlife, -, -⟩ := Kernel.kernelExit_cases (by rwa [hsched])
      (by rwa [hsched]) hok
    have hlt := Kernel.lt_nextPid_of_switch hrun (fun a' ha' => hsched ▸ hlife _ a' ha') hswitch
      hcur'
    have hspares := Kernel.kernelExit_spares (p := p) (t := t)
      (by rwa [hmachine, hsched]) (by rwa [hsched]) (by rwa [hsched])
      (by rw [hsched]; exact hcur hlt) ht (by rwa [hsched])
      (by unfold Kernel.Started; rwa [hsched]) hok
    rwa [hmachine, hsched, hspace] at hspares
  cases hstep with
  | @trap _ uc env mode idle run =>
      have hidle : ¬ IsDeviceTrap uc.vector → k.currentProc ≠ IDLE_PID :=
        fun hdev hcur => hdev (idle hcur)
      cases Kernel.trap_effect (k := { k with userContext := uc }) hrun mode run with
      | turn turn => exact hturn turn rfl rfl rfl
      | fork call run =>
          exact Kernel.kernelFork_spares (k := { k with userContext := uc }) hiso hptbr1 hrun ht
            hlive hp hstarted run
      | @exec rc k₁ call run ret =>
          rw [ret]
          have hspares := Kernel.kernelExec_spares (k := { k with userContext := uc }) hiso hptbr1
            hself ht hp run
          exact hspares
      | @brk rc k₁ call run ret =>
          rw [ret]
          have hspares := Kernel.kernelBrk_spares (k := { k with userContext := uc }) hiso hself
            ht hp run
          exact hspares
      | @grow m vector grows run back =>
          rw [back]
          exact ⟨hiso.growStack_spares (ht.ne_region1 hp) run, if_neg hp⟩
      -- The pages that were added before the frames ran out are those of the current process.
      | @outOfFrames m msg vector grows run fatal =>
          have hgrown := hiso.growStack_spares (ht.ne_region1 hp) run
          obtain ⟨free₁, hiso₁, honly⟩ := hiso.growStack run
          have hturn := Kernel.fatal_turn fatal
          have hlt := hturn.current_lt hrun hcur'
          have hspares := hturn.spares (p := p) (t := t) hiso₁ (honly.ptbr1.trans hptbr1) hself
            (hcur hlt) ht hp hstarted
          exact ⟨hgrown.trans hspares, hturn.space_of_ne hp⟩
      | exit vector run => exact hexit run rfl rfl rfl (hidle vector)
  | resume mode run =>
      rcases Kernel.resume_effect mode run with turn | ⟨hc, hexit'⟩
      · exact hturn turn rfl rfl rfl
      · exact hexit hexit' rfl rfl rfl (hrun.ne_idle ⟨mode, hc⟩ (by simp))
  | userLoad mode run => exact ⟨⟨rfl, fun _ => rfl⟩, rfl⟩
  | userStore mode run => exact ⟨hiso.storeByte_spares hself hptbr1 (ht.ne_region1 hp) run, rfl⟩
  | @cachedStore m entry va b mode cached run =>
      rw [show entry = _ from hfresh] at run
      have hspares := hiso.storeByte_spares hself hptbr1 (ht.ne_region1 hp)
        (Machine.storeByte_of_storeThrough run)
      exact ⟨⟨hspares.pte, hspares.frame⟩, rfl⟩
  | setKernelBrk run => exact ⟨hiso.setKernelBrk_spares ht.ne_region0 run, rfl⟩

/-- What belongs to process `p` is in `k'` as it was in `k`: its memory, its kernel stack, the
registers and bounds in its PCB, and where it goes on in the kernel. -/
structure Undisturbed (k k' : Kernel) (p : Pid) : Prop where
  live : k'.live p = true
  space : k'.space p = k.space p
  memory : k'.machine.memoryOf p = k.machine.memoryOf p
  kernelStack : k'.machine.kernelStackOf p = k.machine.kernelStackOf p
  life : ∀ a, k.pcb p = some a → ∃ a', k'.pcb p = some a' ∧ a'.life = a.life

theorem Undisturbed.trans {k₁ : Kernel} (h : Undisturbed k k₁ p) (h' : Undisturbed k₁ k' p) :
    Undisturbed k k' p where
  live := h'.live
  space := h'.space.trans h.space
  memory := h'.memory.trans h.memory
  kernelStack := h'.kernelStack.trans h.kernelStack
  life a ha := by
    obtain ⟨a₁, ha₁, hlife₁⟩ := h.life a ha
    obtain ⟨a', ha', hlife'⟩ := h'.life a₁ ha₁
    exact ⟨a', ha', hlife'.trans hlife₁⟩

/-- A process that has started goes on having started. -/
theorem Undisturbed.started (h : Undisturbed k k' p) (hlive : k.live p = true)
    (hstarted : k.Started p) : k'.Started p := by
  intro a' ha'
  obtain ⟨a, ha⟩ := Option.isSome_iff_exists.mp (Bool.and_eq_true _ _ ▸ hlive).1
  obtain ⟨b, hb, hlife⟩ := h.life a ha
  rw [ha'] at hb
  cases hb
  exact (congrArg Prod.fst hlife).trans (hstarted a ha)

/-- Process `p` has no part in the step: another process runs, or the kernel's `malloc` moves
the kernel break. -/
def Elsewhere (p : Pid) (k : Kernel) (e : Event) : Prop :=
  k.currentProc ≠ p ∨ ∃ addr, e = .setKernelBrk addr

/-- A step in which a live process has no part leaves it undisturbed. -/
theorem Step.undisturbed {b : BootImage} {e : Event} (h : Reachable b k) (hstep : Step k e k')
    (hfresh : k.Fresh e) (helse : Elsewhere p k e) (hlive : k.live p = true) (hstarted : k.Started p) :
    Undisturbed k k' p := by
  obtain ⟨⟨hobj, hrun⟩, hfam⟩ := reachable_familyInv h
  have hapart := reachable_apart h
  have hspared : (∀ t, TableOf p t → Spares (ownedBy k.live) t k.machine k'.machine ∧
      k'.space p = k.space p) ∧ k'.live p = true ∧
      ∀ a, k.pcb p = some a → ∃ a', k'.pcb p = some a' ∧ a'.life = a.life := by
    rcases helse with hp | ⟨addr, rfl⟩
    · have hp' : p ≠ k.currentProc := fun he => hp he.symm
      have hlive' := ((Sched.SchedStep.kin hstep.sched).live hfam hrun).1 hlive hp'
      refine ⟨fun t ht => hstep.spares hobj hrun hfam hapart hfresh ht hlive hp' hstarted, hlive',
        fun a ha => ?_⟩
      obtain ⟨a', ha'⟩ := Option.isSome_iff_exists.mp (Bool.and_eq_true _ _ ▸ hlive').1
      exact ⟨a', ha', hstep.life hrun hp' ha (hstarted a ha) ha'⟩
    · cases hstep with
      | setKernelBrk run =>
          obtain ⟨free, hiso⟩ := hapart.isolated
          exact ⟨fun t ht => ⟨hiso.setKernelBrk_spares ht.ne_region0 run, rfl⟩, hlive,
            fun a ha => ⟨a, ha, rfl⟩⟩
  obtain ⟨htables, hlive', hlife⟩ := hspared
  exact ⟨hlive', (htables _ (.inl rfl)).2, (htables _ (.inl rfl)).1.memoryOf hlive,
    (htables _ (.inr rfl)).1.kernelStackOf hlive, hlife⟩

/-! ## Runs -/

/-- A live process is left undisturbed by any number of steps in which it has no part. -/
theorem undisturbed_of_run {b : BootImage} (h : Reachable b k) (hlive : k.live p = true)
    (hstarted : k.Started p)
    (hrun : Relation.ReflTransGen (StepWhen (Elsewhere p)) k k') :
    Reachable b k' ∧ Undisturbed k k' p := by
  induction hrun with
  | refl => exact ⟨h, hlive, rfl, rfl, rfl, fun a ha => ⟨a, ha, rfl⟩⟩
  | tail _ hstep ih =>
      obtain ⟨hreach, hsame⟩ := ih
      obtain ⟨e, helse, hfresh, hstep⟩ := hstep
      exact ⟨hreach.step hstep hfresh, hsame.trans
        (hstep.undisturbed hreach hfresh helse hsame.live (hsame.started hlive hstarted))⟩

/-- No step of other processes disturbs a live process: it is not ended, and its memory, its
kernel stack and its saved registers stay as they are. -/
theorem bystander_undisturbed {b : BootImage} (h : Reachable b k) (hlive : k.live p = true)
    (hstarted : k.Started p)
    (hrun : Relation.ReflTransGen (StepWhen (Elsewhere p)) k k') : Undisturbed k k' p :=
  (undisturbed_of_run h hlive hstarted hrun).2

/-- Runs a list of events while process `p` does not run. -/
def Kernel.runElsewhere (p : Pid) (k : Kernel) (events : List Event) : Option Kernel :=
  events.foldlM (fun k e => if k.currentProc = p ∨ ¬ k.Fresh e then none else k.next e) k

theorem Kernel.steps_of_runElsewhere {events : List Event} (h : k.runElsewhere p events = some k') :
    Relation.ReflTransGen (StepWhen (Elsewhere p)) k k' := by
  unfold Kernel.runElsewhere at h
  induction events generalizing k with
  | nil =>
      cases h
      exact .refl
  | cons e events ih =>
      rw [List.foldlM_cons] at h
      obtain ⟨k₁, hnext, hrest⟩ := Option.bind_eq_some_iff.mp h
      split at hnext
      · cases hnext
      · rename_i hcond
        obtain ⟨hp, hfresh⟩ := not_or.mp hcond
        exact .head ⟨e, .inl hp, not_not.mp hfresh, Step.of_next hnext⟩ (ih hrest)

/-- Init has forked, and its child runs in user mode. -/
def childRuns : List Event := initRuns ++ [systemCall YALNIX_FORK 0 0 0, .resume]

/-- The child of init writes to its stack, which it has from init, and exits. Init is left
undisturbed. -/
theorem bystander_undisturbed_init : ∃ k k', Kernel.run smallImage childRuns = some k ∧
    k.runElsewhere INIT_PID [.userStore stackBuffer 7, systemCall YALNIX_EXIT 3 0 0] = some k' ∧
    Undisturbed k k' INIT_PID := by
  have hsome : ((Kernel.run smallImage childRuns).bind fun k =>
      (k.runElsewhere INIT_PID [.userStore stackBuffer 7, systemCall YALNIX_EXIT 3 0 0]).map
        fun _ => (k.live INIT_PID, (k.pcb INIT_PID).map PCB.kernelContextInitialized))
      = some (true, some true) := by
    decide +kernel
  obtain ⟨k, hk, hsome⟩ := Option.bind_eq_some_iff.mp hsome
  obtain ⟨k', hk', hstate⟩ := Option.map_eq_some_iff.mp hsome
  obtain ⟨hlive, hinit⟩ := Prod.mk.inj hstate
  have hstarted : k.Started INIT_PID := by
    intro a ha
    rw [ha] at hinit
    exact Option.some.inj hinit
  exact ⟨k, k', hk, hk', bystander_undisturbed (.of_run hk) hlive hstarted
    (Kernel.steps_of_runElsewhere hk')⟩

/-- Init gives back four pages of heap, and stores to the second of them. The TLB still has its
entry, and the store rewrites a link of the free list: frame 116 is lost. -/
theorem stale_store_rewrites_free_list : ∃ entry k k',
    Kernel.run smallImage (initRuns ++ [systemCall YALNIX_BRK 0x108000 0 0, .userStore 0x102000 1,
      systemCall YALNIX_BRK 0x100000 0 0]) = some k ∧
    Step k (.cachedStore entry 0x102000 117) k' ∧ ¬ k.Fresh (.cachedStore entry 0x102000 117) ∧
    k.machine.FreeList ([118, 119, 120, 121, 122, 123, 124, 125] ++
      [129, 130, 131, 132, 133, 134, 135] ++ [114, 115, 116, 117]) ∧
    k'.machine.FreeList ([118, 119, 120, 121, 122, 123, 124, 125] ++
      [129, 130, 131, 132, 133, 134, 135] ++ [114, 115, 117]) := by
  have hsome : ((Kernel.run smallImage (initRuns ++ [systemCall YALNIX_BRK 0x108000 0 0,
      .userStore 0x102000 1, systemCall YALNIX_BRK 0x100000 0 0])).bind fun k =>
      (k.machine.tlb 1).head?.bind fun entry =>
      (k.next (.cachedStore entry 0x102000 117)).map fun k' =>
        (decide (k.Fresh (.cachedStore entry 0x102000 117)), k.machine.freeFrames 19,
          k'.machine.freeFrames 18))
      = some (false, some ([118, 119, 120, 121, 122, 123, 124, 125] ++
        [129, 130, 131, 132, 133, 134, 135] ++ [114, 115, 116, 117]),
        some ([118, 119, 120, 121, 122, 123, 124, 125] ++
        [129, 130, 131, 132, 133, 134, 135] ++ [114, 115, 117])) := by
    decide +kernel
  obtain ⟨k, hk, hsome⟩ := Option.bind_eq_some_iff.mp hsome
  obtain ⟨entry, -, hsome⟩ := Option.bind_eq_some_iff.mp hsome
  obtain ⟨k', hk', hvalues⟩ := Option.map_eq_some_iff.mp hsome
  simp only [Prod.mk.injEq] at hvalues
  obtain ⟨hstale, hfree, hfree'⟩ := hvalues
  exact ⟨entry, k, k', hk, Step.of_next hk', of_decide_eq_false hstale,
    Machine.freeList_of_freeFrames hfree, Machine.freeList_of_freeFrames hfree'⟩

/-! ## Preemption -/

end

end Theynix
