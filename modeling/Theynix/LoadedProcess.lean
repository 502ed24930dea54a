import Theynix.AddressSpace

/-!
# `Theynix.LoadedProcess`: processes that run a loaded program

`Loaded` says that the address space of a process goes back to a `LoadProgram` that returned
`SUCCESS` on a well-formed file: in its own `KernelExec`, at the start of the kernel, or in
an ancestor that forked it. What happens in between is any run of the whole kernel.

The principal results:

* `layout_of_loaded`: a loaded process has the layout unless it is being killed, a fork gives
  it to the child, and no function that maps pages for the process finds one of them mapped.
* `user_brk_exact_iff`: in every state of every run `KernelBrk` does what it is for exactly on
  the safe addresses, with any program that `LoadProgram` accepts.
-/

set_option autoImplicit false

namespace Theynix

open Theynix.Lib (bind_eq_ok ite_eq_ok)
open Machine (ownedBy)
open Kernel

/-! ## Mapping a program -/

namespace Machine

section
variable {m : Machine} {free : List Nat} {pid : Nat} {li : LoadInfo} {args : List (List Byte)}

/-- A range that comes after a mapped one is still unmapped. -/
theorem MappedList.unmapped {m' : Machine} {taken : List Nat} {start n prot p' n' : Nat}
    (h : MappedList m m' taken free pid start start n prot SUCCESS)
    (hun : m.Unmapped pid p' n') (hafter : start + n ≤ p' ∨ p' + n' ≤ start) :
    m'.Unmapped pid p' n' := by
  cases h with
  | success enough list touches mapped others =>
      intro i hi hi'
      rw [others i (by omega)]
      exact hun i hi hi'

theorem MappedList.list {m' : Machine} {taken : List Nat} {start n prot : Nat}
    (h : MappedList m m' taken free pid start start n prot SUCCESS) :
    m'.FreeList (free.drop n) := by
  cases h with
  | success enough list touches mapped others => exact list

/-- `LoadProgram` maps text, data and stack of an accepted program to different pages: no
`assert` fails. -/
theorem mapProgram_total (hlist : m.FreeList free) (hlt : ∀ f ∈ free, f < 0x80000000)
    (hempty : ∀ page < NUM_PAGES_REG_1, (m.pte (.region1 pid) page).valid = false)
    (hli : li.Assumed) (hspace : argSpace args < 0x80000000)
    (hblank : li.leavesBlankPage args = true) : ∃ r, m.mapProgram pid li args = .ok r := by
  obtain ⟨-, hbase, hlimit⟩ := argSpace_of_leavesBlankPage hli hspace hblank
  obtain ⟨-, -, hdata, htext, hlast⟩ := hli.pages
  have hgap := hli.gap hbase hlimit hblank
  obtain ⟨hfirst, hcount⟩ := stackRange_eq hbase hlimit
  obtain ⟨htop, -⟩ := stackNpg_eq hbase hlimit
  have hdataNpg : asUnsigned li.dataNpg = li.idNpg + li.udNpg := by
    rw [hdata]
    exact asUnsigned_natCast (by omega)
  unfold Machine.mapProgram
  rw [hfirst, hcount, hdataNpg]
  -- `omega` must not look into the computation of the pointers.
  clear hfirst hcount hdataNpg hdata hbase hlimit hspace hblank
  generalize stackPg args = stackPage at hgap htop ⊢
  generalize li.textPg1 = textPage at htext ⊢
  generalize li.dataPg1 = dataPage at htext hlast hgap ⊢
  generalize li.idNpg + li.udNpg = dataNpg at hlast hgap ⊢
  have hun : ∀ p n, p + n ≤ 128 → m.Unmapped pid p n := by
    intro p n hpn i _ hi
    have hi' : i < 128 := by omega
    exact ⟨hi', hempty i hi'⟩
  obtain ⟨rc₁, m₁, hrun₁, hmapped₁⟩ := mapNewRegion1Pages_list textPage li.tNpg
    (PROT_READ ||| PROT_WRITE) hlist hlt (hun textPage li.tNpg (by omega))
  rw [hrun₁]
  rcases hmapped₁.result with rfl | rfl
  · exact ⟨_, rfl⟩
  have hne : ¬ SUCCESS = ERROR := by decide
  have hlt₁ : ∀ f ∈ free.drop li.tNpg, f < 0x80000000 :=
    fun f hf => hlt f (List.mem_of_mem_drop hf)
  obtain ⟨rc₂, m₂, hrun₂, hmapped₂⟩ := mapNewRegion1Pages_list dataPage dataNpg
    (PROT_READ ||| PROT_WRITE) hmapped₁.list hlt₁ (hmapped₁.unmapped
      (hun dataPage dataNpg (by omega)) (.inl htext))
  rw [Lib.ok_bind]
  dsimp only
  rw [if_neg hne, hrun₂]
  rcases hmapped₂.result with rfl | rfl
  · exact ⟨_, rfl⟩
  have hstack : m₁.Unmapped pid stackPage (128 - stackPage) :=
    hmapped₁.unmapped (hun _ _ (by omega)) (.inl (by omega))
  obtain ⟨rc₃, m₃, hrun₃, -⟩ := mapNewRegion1Pages_list stackPage (128 - stackPage)
    (PROT_READ ||| PROT_WRITE) hmapped₂.list (fun f hf => hlt₁ f (List.mem_of_mem_drop hf))
    (hmapped₂.unmapped hstack (.inl (by omega)))
  rw [Lib.ok_bind]
  dsimp only
  rw [if_neg hne]
  exact ⟨_, hrun₃⟩

end

end Machine

/-! ## The start of the kernel -/

/-- The files of idle and init are well-formed. -/
def BootImage.WellFormed (b : BootImage) : Prop :=
  Kernel.WellFormed (b.env.files (message "idle")) ∧
    Kernel.WellFormed (b.env.files (Kernel.initProgramName b))

/-- Idle and init start with the layout. -/
theorem kernelStart_layout {b : BootImage} {k : Kernel} {p : Pid}
    (h : Kernel.kernelStart b = .ok k) (hwell : b.WellFormed) (hlive : k.live p = true) :
    k.HasLayout p := by
  have hp : p = IDLE_PID ∨ p = INIT_PID := by
    rw [kernelStart_sched h, bootSched_live] at hlive
    simpa using hlive
  obtain ⟨hiso₀, hptbr₀⟩ := bootMachine_isolated b
  obtain ⟨idle, hidle, h⟩ := bind_eq_ok.mp h
  obtain ⟨free₁, hiso₁, hptbr₁⟩ := hiso₀.loadProgram (by simp) hptbr₀ hidle
  obtain ⟨-, -, hidleLayout⟩ := loadProgram_layout hiso₀ (by simp) hidle
  rcases ite_eq_ok h with ⟨-, h⟩ | ⟨hidleRc, h⟩
  · cases h
  have hidleLayout := hidleLayout hwell.1 (not_not.mp hidleRc)
  have hinitNew : decide (INIT_PID = IDLE_PID) = false := by decide
  obtain ⟨free₂, hiso₂, -⟩ := hiso₁.newPageTables hinitNew
  rcases ite_eq_ok h with ⟨-, h⟩ | ⟨-, h⟩
  · cases h
  have hiso₃ : ({ (idle.machine.newPageTables INIT_PID).2 with
      ptbr1 := .region1 INIT_PID } : Machine).flushRegion1.Isolated
        (ownedBy fun p => decide (p = IDLE_PID) || decide (p = INIT_PID)) free₂ :=
    hiso₂.congr rfl rfl rfl fun _ _ => rfl
  obtain ⟨init, hinit, h⟩ := bind_eq_ok.mp h
  obtain ⟨honly, -, hinitLayout⟩ := loadProgram_layout hiso₃ (by simp) hinit
  rcases ite_eq_ok h with ⟨-, h⟩ | ⟨hinitRc, h⟩
  · cases h
  have hinitLayout := hinitLayout hwell.2 (not_not.mp hinitRc)
  -- The table of idle is not touched while init is made.
  have hidleTable : ∀ page, init.machine.pte (.region1 IDLE_PID) page
      = idle.machine.pte (.region1 IDLE_PID) page := by
    intro page
    have hregion : PageTable.region1 IDLE_PID ≠ .region1 INIT_PID := by decide
    have hstack : PageTable.region1 IDLE_PID ≠ .kernelStack INIT_PID := fun h => by cases h
    refine (honly.pte hregion page).trans ?_
    have hblank := Machine.withBlankTables_pte (m := idle.machine) hregion hstack page
    cases Machine.newPageTables_list hiso₁.list hiso₁.freeSmall INIT_PID with
    | success _ _ _ touches => exact (touches.pte hstack page).trans hblank
    | error _ _ _ touches => exact (touches.pte hstack page).trans hblank
  cases h
  rcases hp with rfl | rfl
  · refine hidleLayout.congr fun page _ => ?_
    exact congrArg Pte.valid (hidleTable page)
  · exact hinitLayout

/-! ## Loaded processes -/

/-- The address space of process `p` goes back to a `LoadProgram` that returned `SUCCESS` on
a well-formed file. Between then and now there may be any steps that use no stale entry of
the TLB, but for a `KernelExec` of the process that threw its address space away, and a
growing stack that found no frames. -/
inductive Loaded (b : BootImage) : Kernel → Pid → Prop
  | start {k : Kernel} {p : Pid} (run : Kernel.kernelStart b = .ok k) (well : b.WellFormed)
      (live : k.live p = true) : Loaded b k p
  | exec {k k' : Kernel} {uc : UserContext} {env : Env} {file : Option Executable}
      {r : LoadResult} (reachable : Reachable b k) (step : Step k (.trap uc env) k')
      (call : uc.Calls YALNIX_EXEC)
      (load : ({ k with userContext := uc } : Kernel).Execs env file r) (rc : r.rc = SUCCESS)
      (well : Kernel.WellFormed file) : Loaded b k' k.currentProc
  | fork {k k' : Kernel} {uc : UserContext} {env : Env} (parent : Loaded b k k.currentProc)
      (step : Step k (.trap uc env) k') (call : uc.Calls YALNIX_FORK)
      (child : k'.live k.nextPid = true) : Loaded b k' k.nextPid
  | step {k k' : Kernel} {p : Pid} {e : Event} (loaded : Loaded b k p) (step : Step k e k')
      (fresh : k.Fresh e) (live : k'.live p = true) (keeps : ¬ k.Replaces e p)
      (frames : ¬ k.OutOfFrames e p) : Loaded b k' p

theorem Reachable.step {b : BootImage} {k k' : Kernel} {e : Event} (h : Reachable b k)
    (hstep : Step k e k') (hfresh : k.Fresh e) : Reachable b k' := by
  obtain ⟨k₀, hstart, hrun⟩ := h
  exact ⟨k₀, hstart, hrun.tail ⟨e, trivial, hfresh, hstep⟩⟩

section
variable {b : BootImage} {k k₁ k' : Kernel} {p : Pid}

theorem Loaded.reachable (h : Loaded b k p) : Reachable b k := by
  induction h with
  | start run _ _ => exact ⟨_, run, .refl⟩
  | exec reachable step _ _ _ _ => exact reachable.step step trivial
  | fork _ step _ _ ih => exact ih.step step trivial
  | step _ step fresh _ _ _ ih => exact ih.step step fresh

theorem trap_exec {env : Env} (call : k.userContext.Calls YALNIX_EXEC) :
    k.trap env = k.kernelExec (k.userContext.regs 0) (k.userContext.regs 1) env >>= fun r =>
      .ok (r.2.ret r.1) := by
  obtain ⟨vector, code⟩ := call
  rw [Kernel.trap_call vector]
  unfold Kernel.trapKernel
  dsimp only
  repeat rw [if_neg (by rw [code]; decide)]
  rw [if_pos code]
  rfl

theorem trap_fork {env : Env} (call : k.userContext.Calls YALNIX_FORK) :
    k.trap env = k.kernelFork := by
  obtain ⟨vector, code⟩ := call
  rw [Kernel.trap_call vector]
  unfold Kernel.trapKernel
  dsimp only
  repeat rw [if_neg (by rw [code]; decide)]
  rw [if_pos code]

/-- `KernelExec` that loads its program leaves the layout. -/
theorem Step.exec_layout {uc : UserContext} {env : Env} {file : Option Executable}
    {r : LoadResult} (hapart : k.Apart) (hrun : k.toSched.Running)
    (hstep : Step k (.trap uc env) k') (call : uc.Calls YALNIX_EXEC)
    (load : ({ k with userContext := uc } : Kernel).Execs env file r) (hrc : r.rc = SUCCESS)
    (hwell : Kernel.WellFormed file) :
    k'.HasLayout k.currentProc ∧ k'.live k.currentProc = true := by
  obtain ⟨free, hiso⟩ := hapart.isolated
  have hcur := hrun.current.resolve_left id
  cases hstep with
  | trap mode idle run =>
      rw [trap_exec (k := { k with userContext := uc }) call] at run
      obtain ⟨⟨rc, k₁⟩, hexec, hret⟩ := bind_eq_ok.mp run
      cases hret
      have hsched := Kernel.kernelExec_sched hexec
      have hlive : k₁.live k.currentProc = true := by
        rw [hsched]
        exact hcur
      refine ⟨?_, hlive⟩
      exact (kernelExec_layout (k := { k with userContext := uc }) hiso hcur hexec).2.2 file r load
        hwell hrc

/-- A fork that has made a child gives it the layout of its parent. -/
theorem Step.fork_layout {uc : UserContext} {env : Env} (hapart : k.Apart)
    (hrun : k.toSched.Running) (hstep : Step k (.trap uc env) k') (call : uc.Calls YALNIX_FORK)
    (hchild : k'.live k.nextPid = true) : SameLayout k k' k.currentProc k.nextPid := by
  obtain ⟨free, hiso⟩ := hapart.isolated
  cases hstep with
  | trap mode idle run =>
      rw [trap_fork (k := { k with userContext := uc }) call] at run
      have hsame := (kernelFork_layout (k := { k with userContext := uc }) hiso hrun run).2
      rcases kernelFork_cases run with ⟨m, rfl⟩ | ⟨m, -, -, hswitch⟩
      · -- A fork that fails makes no child.
        have hlive : k.live k.nextPid = true := hchild
        exact absurd (hrun.pcbLt _ (Bool.and_eq_true _ _ ▸ hlive).1) (Nat.lt_irrefl _)
      · obtain ⟨hbrk, hlowest, hvalid⟩ := hsame (mode_switchToProc hswitch)
        exact ⟨hbrk, hlowest, hvalid⟩

/-- A loaded process has the layout. -/
theorem Loaded.layout (h : Loaded b k p) : k.live p = true ∧ k.HasLayout p := by
  induction h with
  | start run well live => exact ⟨live, kernelStart_layout run well live⟩
  | exec reachable step call load rc well =>
      obtain ⟨hlayout, hlive⟩ := step.exec_layout (reachable_apart reachable)
        (reachable_running reachable).2 call load rc well
      exact ⟨hlive, hlayout⟩
  | fork parent step call child ih =>
      exact ⟨child, ih.2.same (step.fork_layout (reachable_apart parent.reachable)
        (reachable_running parent.reachable).2 call child)⟩
  | step loaded step fresh live keeps frames ih =>
      exact ⟨live, step.layout (reachable_apart loaded.reachable)
        (reachable_running loaded.reachable).2 ih.1 live keeps frames ih.2⟩

/-! ## Pages that are about to be mapped -/

/-- The functions that map pages for process `p` trip no `assert`: `KernelBrk` up to the
stack, the growing stack down to the heap, and `LoadProgram` with any well-formed file. -/
structure MapsFreshPages (k : Kernel) (p : Pid) : Prop where
  brk : ∀ page : Nat, (k.space p).userBrkPage ≤ page → page < (k.space p).lowestUserStackPage →
    ∃ r, k.machine.mapNewRegion1Pages p (k.space p).userBrkPage.toNat
      (page - (k.space p).userBrkPage.toNat) (PROT_READ ||| PROT_WRITE) = .ok r
  grow : ∀ page : Nat, (k.space p).userBrkPage < page → page < (k.space p).lowestUserStackPage →
    ∃ r, k.machine.growStack p page ((k.space p).lowestUserStackPage - page).toNat = .ok r
  load : ∀ (li : LoadInfo) (args : List (List Byte)), li.Assumed →
    li.leavesBlankPage args = true → argSpace args < 0x80000000 →
    ∃ r, (k.machine.freeRegion1PageTable p).mapProgram p li args = .ok r

/-- A process with the layout finds no page mapped that is about to be mapped. -/
theorem mapsFreshPages (hapart : k.Apart) (hlive : k.live p = true) (hlayout : k.HasLayout p) :
    MapsFreshPages k p := by
  obtain ⟨free, hiso⟩ := hapart.isolated
  obtain ⟨brk, lowest, hbrk, hlowest, hgap, hstack⟩ := hlayout.hasBounds.bounds
  have hgapPage : ∀ i, brk ≤ i → i < lowest → i < NUM_PAGES_REG_1 ∧
      (k.machine.pte (.region1 p) i).valid = false := by
    intro i hi hi'
    have hi₁ : i < 128 := by omega
    exact ⟨hi₁, hlayout.unmapped i (by rw [hbrk]; omega) (by rw [hlowest]; omega)⟩
  refine ⟨fun page hlow hhigh => ?_, fun page hlow hhigh => ?_,
    fun li args hli hblank hspace => ?_⟩
  · rw [hbrk] at hlow ⊢
    rw [hlowest] at hhigh
    obtain ⟨rc, m, hrun, -⟩ := Machine.mapNewRegion1Pages_list brk (page - brk)
      (PROT_READ ||| PROT_WRITE) hiso.list hiso.freeSmall
      fun i hi hi' => hgapPage i hi (by omega)
    exact ⟨_, hrun⟩
  · rw [hbrk] at hlow
    rw [hlowest] at hhigh ⊢
    have hcount : ((lowest : Int) - page).toNat = lowest - page := by omega
    rw [hcount]
    obtain ⟨rc, m, free', hrun, -⟩ := hiso.growLoop p page
      (n := lowest - page) (by omega) fun i hi hi' => (hgapPage i (by omega) (by omega)).2
    exact ⟨_, hrun⟩
  · obtain ⟨free', hiso', -, -, hempty⟩ := hiso.freeRegion1PageTable hlive
    exact Machine.mapProgram_total hiso'.list hiso'.freeSmall hempty hli hspace hblank

/-! ## The principal results -/

/-- A process whose stack found no frames does not run again: as long as it lives it is on
its way to its exit. -/
theorem dying_of_outOfFrames {e : Event} (hobj : k.toSched.Objects) (hrun : k.toSched.Running)
    (hframes : k.OutOfFrames e p) (hstep : Step k e k₁) (hlive : k₁.live p = true)
    (hsteps : Relation.ReflTransGen (fun k k' => (∃ e, Step k e k') ∧ k'.live p = true) k₁ k') :
    (k'.toSched.Objects ∧ k'.toSched.Running) ∧ k'.Dying p := by
  induction hsteps with
  | refl =>
      have hs := hstep.sched
      exact ⟨⟨hs.objects hobj, hs.running hrun hobj⟩,
        hstep.dying_of_outOfFrames hrun hframes hlive⟩
  | tail _ hlast ih =>
      obtain ⟨⟨hobj', hrun'⟩, hdying⟩ := ih
      obtain ⟨⟨e', hstep'⟩, hlive'⟩ := hlast
      have hs := hstep'.sched
      exact ⟨⟨hs.objects hobj', hs.running hrun' hobj'⟩, hstep'.dying hrun' hdying hlive'⟩

/-- A loaded process has the layout, the child of a fork gets it, and no page that is about to
be mapped for the process is mapped. A process whose stack grows and finds no frames is on its
way to its exit from then on. -/
theorem layout_of_loaded (h : Loaded b k p) : k.HasLayout p ∧ MapsFreshPages k p ∧
    (∀ uc env k', p = k.currentProc → Step k (.trap uc env) k' → uc.Calls YALNIX_FORK →
      k'.live k.nextPid = true → SameLayout k k' p k.nextPid) ∧
    ∀ e k₁ k', k.OutOfFrames e p → Step k e k₁ → k₁.live p = true →
      Relation.ReflTransGen (fun k k' => (∃ e, Step k e k') ∧ k'.live p = true) k₁ k' →
      k'.Dying p := by
  obtain ⟨hlive, hlayout⟩ := h.layout
  have hapart := reachable_apart h.reachable
  refine ⟨hlayout, mapsFreshPages hapart hlive hlayout, ?_, ?_⟩
  · rintro uc env k' rfl hstep call hchild
    exact hstep.fork_layout hapart (reachable_running h.reachable).2 call hchild
  · intro e k₁ k' hframes hstep hlive₁ hrun
    obtain ⟨hobj, hrunning⟩ := reachable_running h.reachable
    exact (dying_of_outOfFrames hobj hrunning hframes hstep hlive₁ hrun).2

/-- `KernelBrk` returns, and it leaves everything alone or moves the break. -/
def BrkExact (k : Kernel) (addr : Nat) : Prop :=
  ∃ rc k', k.kernelBrk addr = .ok (rc, k') ∧
    (rc = ERROR ∧ BrkFailed k k' ∨ rc = SUCCESS ∧ BrkMoved k k' addr)

/-- In every state of every run `KernelBrk` is total and atomic for exactly the addresses that
are refused, or that neither give back a page that is not mapped nor reach one that is. -/
theorem user_brk_exact_iff {addr : Nat} (h : Reachable b k) (haddr : addr < 0x100000000) :
    BrkExact k addr ↔ k.BrkSafe addr := by
  obtain ⟨free, hiso⟩ := (reachable_apart h).isolated
  have hlive := (reachable_running h).2.current.resolve_left id
  have hbounds := reachable_bounds h k.currentProc
  constructor
  · rintro ⟨rc, k', hrun, -⟩
    by_contra hsafe
    rw [kernelBrk_stuck hiso hlive hbounds haddr hsafe] at hrun
    cases hrun
  · exact kernelBrk_done hiso hlive hbounds haddr

theorem not_brkExact {addr : Nat} (h : (k.kernelBrk addr).isOk = false) : ¬ BrkExact k addr := by
  rintro ⟨rc, k', hok, -⟩
  rw [hok] at h
  cases h

/-- A program without code, whose one page of data begins two pages above the base of
region 1. -/
def holeyProgram : Executable :=
  { loadInfo := some
      { entry := VMEM_1_BASE, tVaddr := VMEM_1_BASE, tNpg := 0, idVaddr := 0x104000, idNpg := 0
        idEnd := 0x104000, udNpg := 1, udEnd := 0x104000 }
    text := some []
    data := some [] }

/-- A machine on which every file holds that program. -/
def holeyImage : BootImage :=
  { smallImage with env := { files := fun _ => some holeyProgram } }

theorem holeyImage_wellFormed : holeyImage.WellFormed := by
  have hwell : Kernel.WellFormed (some holeyProgram) := by
    intro f li hfile hinfo
    cases hfile
    cases hinfo
    exact ⟨by decide, by decide, by decide, by decide, by decide⟩
  exact ⟨hwell, hwell⟩

theorem smallImage_wellFormed : smallImage.WellFormed := by
  have hwell : Kernel.WellFormed (some emptyProgram) := by
    intro f li hfile hinfo
    cases hfile
    cases hinfo
    exact ⟨by decide, by decide, by decide, by decide, by decide⟩
  exact ⟨hwell, hwell⟩

theorem run_snoc {events : List Event} {e : Event} :
    Kernel.run b (events ++ [e])
      = (Kernel.run b events).bind fun k => if k.Fresh e then k.next e else none := by
  unfold Kernel.run Kernel.runWhen
  cases Kernel.kernelStart b with
  | error stop => rfl
  | ok k =>
      simp only [true_and, List.foldlM_append, List.foldlM_cons, List.foldlM_nil, bind_pure]
      rfl

/-- A trap that is neither a call of `KernelExec` nor a memory fault throws no address space away
and grows no stack. -/
theorem trap_keeps {uc : UserContext} {env : Env} (hexec : ¬ uc.Calls YALNIX_EXEC)
    (hmemory : uc.vector ≠ TRAP_MEMORY) :
    ¬ k.Replaces (.trap uc env) p ∧ ¬ k.OutOfFrames (.trap uc env) p := by
  constructor
  · rintro ⟨-, uc, env, file, r, htrap, call, -⟩
    cases htrap
    exact hexec call
  · rintro ⟨-, uc, env, m, htrap, vector, -⟩
    cases htrap
    exact hmemory vector

theorem resume_keeps : ¬ k.Replaces .resume p ∧ ¬ k.OutOfFrames .resume p := by
  constructor
  · rintro ⟨-, uc, env, file, r, htrap, -⟩
    cases htrap
  · rintro ⟨-, uc, env, m, htrap, -⟩
    cases htrap

/-- Init is loaded when it runs for the first time. -/
theorem loaded_initRuns (hwell : b.WellFormed) (hrun : Kernel.run b initRuns = some k)
    (hlive : k.live INIT_PID = true)
    (hlive' : (Kernel.run b [clockTick]).map (·.live INIT_PID) = some true) :
    Loaded b k INIT_PID := by
  obtain ⟨k₁, hrun₁, hlive₁⟩ := Option.map_eq_some_iff.mp hlive'
  have hstart : ∃ k₀, Kernel.kernelStart b = .ok k₀ ∧ k₀.next clockTick = some k₁ := by
    have hsnoc : Kernel.run b ([] ++ [clockTick]) = some k₁ := hrun₁
    rw [run_snoc] at hsnoc
    obtain ⟨k₀, hrun₀, hnext⟩ := Option.bind_eq_some_iff.mp hsnoc
    unfold Kernel.run Kernel.runWhen at hrun₀
    split at hrun₀
    · rename_i hstart
      cases hrun₀
      exact ⟨_, hstart, hnext⟩
    · cases hrun₀
  obtain ⟨k₀, hstart, hnext₁⟩ := hstart
  have hnext : k₁.next .resume = some k := by
    have hsnoc : Kernel.run b ([clockTick] ++ [.resume]) = some k := hrun
    rw [run_snoc, hrun₁] at hsnoc
    exact hsnoc
  have hlive₀ : k₀.live INIT_PID = true := by
    rw [kernelStart_sched hstart, bootSched_live]
    decide
  have hkeeps : ¬ k₀.Replaces clockTick INIT_PID ∧ ¬ k₀.OutOfFrames clockTick INIT_PID :=
    trap_keeps (by decide) (by decide)
  exact ((Loaded.start hstart hwell hlive₀).step (Step.of_next hnext₁) trivial hlive₁ hkeeps.1
    hkeeps.2).step (Step.of_next hnext) trivial hlive resume_keeps.1 resume_keeps.2

/-- A trap that is no call of `KernelExec` and returns to the process keeps it loaded. -/
theorem Loaded.trap {uc : UserContext} {env : Env} (h : Loaded b k p)
    (hnext : k.next (.trap uc env) = some k') (hexec : ¬ uc.Calls YALNIX_EXEC)
    (hcur : k'.currentProc = p) (hmode : k'.mode = .user) : Loaded b k' p := by
  have hstep := Step.of_next hnext
  have hrun := (reachable_running h.reachable).2
  have hlive : k'.live p = true := by
    rw [← hcur]
    exact (reachable_running (h.reachable.step hstep trivial)).2.current.resolve_left id
  refine h.step hstep trivial hlive ?_ fun hframes => ?_
  · rintro ⟨-, uc, env, file, r, htrap, call, -⟩
    cases htrap
    exact hexec call
  · -- A process that is being killed is not in user mode.
    have hkernel := (hstep.dying_of_outOfFrames hrun hframes hlive).2 hcur.symm
    rw [hmode] at hkernel
    cases hkernel

/-- Init gives back its whole heap, but the two pages below its data were never mapped. -/
theorem user_brk_trips_assert : ∃ k, Kernel.run holeyImage initRuns = some k ∧
    Loaded holeyImage k k.currentProc ∧ ¬ BrkExact k VMEM_1_BASE := by
  have hstate : (Kernel.run holeyImage initRuns).map (fun k => (k.currentProc, k.live INIT_PID,
      (k.kernelBrk VMEM_1_BASE).isOk)) = some (INIT_PID, true, false) := by
    decide +kernel
  obtain ⟨k, hrun, hvalues⟩ := Option.map_eq_some_iff.mp hstate
  simp only [Prod.mk.injEq] at hvalues
  obtain ⟨hcur, hlive, hstuck⟩ := hvalues
  refine ⟨k, hrun, ?_, not_brkExact hstuck⟩
  rw [hcur]
  exact loaded_initRuns holeyImage_wellFormed hrun hlive (by decide +kernel)

/-- Init asks for three pages of heap, and then gives them back. -/
theorem user_brk_exact_iff_grown : ∃ k k', Kernel.run smallImage initRuns = some k ∧
    Kernel.run smallImage (initRuns ++ [systemCall YALNIX_BRK 0x106000 0 0]) = some k' ∧
    (k.space k.currentProc).userBrkPage = 0 ∧ (k'.space k'.currentProc).userBrkPage = 3 ∧
    BrkExact k 0x106000 ∧ BrkExact k' VMEM_1_BASE := by
  have hstate : (Kernel.run smallImage initRuns).map (fun k =>
      ((k.space k.currentProc).userBrkPage, decide (∀ i ∈ List.range 3, (k.table i).valid = false)))
        = some (0, true) := by
    decide +kernel
  have hgrown : (Kernel.run smallImage (initRuns ++ [systemCall YALNIX_BRK 0x106000 0 0])).map
      (fun k => ((k.space k.currentProc).userBrkPage, decide (∀ i ∈ List.range 3, (k.table i).valid = true)))
        = some (3, true) := by
    decide +kernel
  obtain ⟨k, hrun, hvalues⟩ := Option.map_eq_some_iff.mp hstate
  obtain ⟨k', hrun', hvalues'⟩ := Option.map_eq_some_iff.mp hgrown
  simp only [Prod.mk.injEq] at hvalues hvalues'
  obtain ⟨hbrk, hempty⟩ := hvalues
  obtain ⟨hbrk', hmapped⟩ := hvalues'
  refine ⟨k, k', hrun, hrun', hbrk, hbrk',
    (user_brk_exact_iff (.of_run hrun) (by decide)).mpr (.inr ⟨fun i hi => ?_, fun i _ hi hv => ?_⟩),
    (user_brk_exact_iff (.of_run hrun') (by decide)).mpr (.inr ⟨fun i hi _ => ?_, fun i _ hi => ?_⟩)⟩
  · rw [hbrk] at hi
    omega
  · -- The pages that the heap grows over are not mapped.
    have hi : i < 3 := by
      simp only [VMEM_1_BASE, PAGESIZE] at hi
      omega
    rw [of_decide_eq_true hempty i (List.mem_range.mpr hi)] at hv
    cases hv
  · rw [hbrk'] at hi
    exact of_decide_eq_true hmapped i (List.mem_range.mpr (by omega))
  · omega

/-- The running process touches an address that it has no page for. -/
def memoryFault (addr : Nat) : Event := .trap { vector := TRAP_MEMORY, addr := addr } {}

/-- Init asks for `pages` pages of heap. -/
def heapCall (pages : Nat) : Event :=
  systemCall YALNIX_BRK (VMEM_1_BASE + pages * PAGESIZE) 0 0

/-- Init is loaded after it has asked for some pages of heap. -/
theorem smallImage_loaded {pages : Nat}
    (hrun : Kernel.run smallImage (initRuns ++ [heapCall pages]) = some k)
    (hcur : k.currentProc = INIT_PID) (hmode : k.mode = .user) :
    Loaded smallImage k INIT_PID := by
  have hstate : (Kernel.run smallImage initRuns).map (fun k => k.live INIT_PID) = some true := by
    decide +kernel
  obtain ⟨k₀, hrun₀, hlive⟩ := Option.map_eq_some_iff.mp hstate
  rw [run_snoc, hrun₀] at hrun
  refine (loaded_initRuns smallImage_wellFormed hrun₀ hlive (by decide +kernel)).trap hrun ?_ hcur
    hmode
  exact fun call => absurd (show YALNIX_BRK = YALNIX_EXEC from call.2) (by decide)

/-- A fault between heap and stack for which there are too few frames. -/
theorem outOfFrames_of {addr page : Nat} {m : Machine} (hbase : VMEM_1_BASE ≤ addr)
    (hlimit : addr ≤ VMEM_1_LIMIT) (hpage : addrToPage (addr - VMEM_1_BASE) = page)
    (hinvalid : (k.table page).valid = false)
    (hbelow : (page : Int) < (k.space k.currentProc).lowestUserStackPage)
    (habove : (k.space k.currentProc).userBrkPage < page)
    (hrun : k.machine.growStack k.currentProc page
      ((k.space k.currentProc).lowestUserStackPage - page).toNat = .ok (ERROR, m)) :
    k.OutOfFrames (memoryFault addr) k.currentProc := by
  subst hpage
  exact ⟨rfl, _, _, m, rfl, rfl, ⟨hbase, hlimit, hinvalid, hbelow, habove⟩, hrun⟩

/-- Init has fourteen pages of heap, and five frames are free. Its stack should grow by 27 pages:
five of them are mapped, and they stay mapped while init waits for its exit. -/
theorem fullHeap : ∃ k k', Kernel.run smallImage (initRuns ++ [heapCall 14]) = some k ∧
    Loaded smallImage k INIT_PID ∧ k.OutOfFrames (memoryFault 0x1C8000) INIT_PID ∧
    Step k (memoryFault 0x1C8000) k' ∧ k'.live INIT_PID = true ∧
    (k'.machine.pte (.region1 INIT_PID) 126).valid = true ∧
    (k'.space INIT_PID).userBrkPage = 14 ∧ (k'.space INIT_PID).lowestUserStackPage = 127 := by
  have hstate : (Kernel.run smallImage (initRuns ++ [heapCall 14])).bind (fun k =>
      (k.next (memoryFault 0x1C8000)).map fun k' => ((k.currentProc, k.mode, k'.live INIT_PID),
        decide ((k.table 100).valid = false ∧ (k.space INIT_PID).userBrkPage = 14 ∧
          (k.space INIT_PID).lowestUserStackPage = 127 ∧
          (k.machine.growStack INIT_PID 100 27).toOption.map (·.1) = some ERROR),
        decide ((k'.machine.pte (.region1 INIT_PID) 126).valid = true ∧
          (k'.space INIT_PID).userBrkPage = 14 ∧ (k'.space INIT_PID).lowestUserStackPage = 127)))
        = some ((INIT_PID, .user, true), true, true) := by
    decide +kernel
  obtain ⟨k, hrun, hvalues⟩ := Option.bind_eq_some_iff.mp hstate
  obtain ⟨k', hnext, hvalues⟩ := Option.map_eq_some_iff.mp hvalues
  simp only [Prod.mk.injEq] at hvalues
  obtain ⟨⟨hcur, hmode, hlive⟩, hbefore, hafter⟩ := hvalues
  obtain ⟨hinvalid, hbrk, hlowest, hgrow⟩ := of_decide_eq_true hbefore
  refine ⟨k, k', hrun, smallImage_loaded hrun hcur hmode, ?_, Step.of_next hnext, hlive,
    of_decide_eq_true hafter⟩
  obtain ⟨⟨rc, m⟩, hgrow, rfl⟩ := Option.map_eq_some_iff.mp hgrow
  have hframes : k.OutOfFrames (memoryFault 0x1C8000) k.currentProc := by
    refine outOfFrames_of (by decide) (by decide)
      (show addrToPage (0x1C8000 - VMEM_1_BASE) = 100 by decide) hinvalid ?_ ?_ (m := m) ?_
    · rw [hcur, hlowest]
      decide
    · rw [hcur, hbrk]
      decide
    · rw [hcur, hlowest]
      exact Except.toOption_eq_some hgrow
  rwa [hcur] at hframes

/-- A growing stack that finds too few frames leaves pages mapped below it. -/
theorem stack_out_of_frames : ∃ k k', Kernel.run smallImage (initRuns ++ [heapCall 14]) = some k ∧
    Loaded smallImage k INIT_PID ∧ Step k (memoryFault 0x1C8000) k' ∧ k'.live INIT_PID = true ∧
    ¬ k'.HasLayout INIT_PID := by
  obtain ⟨k, k', hrun, hloaded, -, hstep, hlive, hvalid, hbrk, hlowest⟩ := fullHeap
  refine ⟨k, k', hrun, hloaded, hstep, hlive, fun hlayout => ?_⟩
  have hgap := hlayout.unmapped 126 (by rw [hbrk]; decide) (by rw [hlowest]; decide)
  rw [hvalid] at hgap
  cases hgap

/-- Init asks for three pages of heap, its stack grows, and it forks: parent and child have the
layout. Init with fourteen pages of heap finds no frames for its stack, and is being killed. -/
theorem layout_of_loaded_forked : (∃ k k' : Kernel,
    Kernel.run smallImage (initRuns ++ [heapCall 3] ++ [memoryFault 0x1FC000]) = some k ∧
    Step k (systemCall YALNIX_FORK 0 0 0) k' ∧
    (k'.space 1).userBrkPage = 3 ∧ (k'.space 1).lowestUserStackPage = 126 ∧
    k'.HasLayout 1 ∧ k'.HasLayout 2 ∧ MapsFreshPages k' 1 ∧ MapsFreshPages k' 2 ∧
    SameLayout k k' 1 2) ∧
    ∃ k k' : Kernel, Kernel.run smallImage (initRuns ++ [heapCall 14]) = some k ∧
      Step k (memoryFault 0x1C8000) k' ∧ k'.live 1 = true ∧ k'.Dying 1 := by
  constructor
  · have hheap : (Kernel.run smallImage (initRuns ++ [heapCall 3])).map
        (fun k => (k.currentProc, k.mode)) = some (1, .user) := by
      decide +kernel
    have hgrown : (Kernel.run smallImage (initRuns ++ [heapCall 3] ++ [memoryFault 0x1FC000])).bind
        (fun k => (k.next (systemCall YALNIX_FORK 0 0 0)).map fun k' =>
          ((k.currentProc, k.mode, k.nextPid), (k'.live 1, k'.live 2),
            (k'.space 1).userBrkPage, (k'.space 1).lowestUserStackPage))
          = some ((1, .user, 2), (true, true), 3, 126) := by
      decide +kernel
    obtain ⟨k₂, hrun₂, hvalues₂⟩ := Option.map_eq_some_iff.mp hheap
    obtain ⟨k, hrun, hvalues⟩ := Option.bind_eq_some_iff.mp hgrown
    obtain ⟨k', hnext, hvalues⟩ := Option.map_eq_some_iff.mp hvalues
    simp only [Prod.mk.injEq] at hvalues₂ hvalues
    obtain ⟨⟨hcur, hmode, hpid⟩, ⟨hlive, hchild⟩, hbrk, hlowest⟩ := hvalues
    have hloaded : Loaded smallImage k 1 := by
      have hgrow := hrun
      rw [run_snoc, hrun₂] at hgrow
      exact (smallImage_loaded hrun₂ hvalues₂.1 hvalues₂.2).trap hgrow (by decide) hcur hmode
    have hstep := Step.of_next hnext
    have hkeeps : ¬ k.Replaces (systemCall YALNIX_FORK 0 0 0) 1 ∧
        ¬ k.OutOfFrames (systemCall YALNIX_FORK 0 0 0) 1 := trap_keeps (by decide) (by decide)
    have hparent : Loaded smallImage k' 1 := hloaded.step hstep trivial hlive hkeeps.1 hkeeps.2
    have hborn : k'.live k.nextPid = true := by
      rw [hpid]
      exact hchild
    have hforked : Loaded smallImage k' k.nextPid :=
      .fork (by rwa [hcur]) hstep ⟨rfl, rfl⟩ hborn
    rw [hpid] at hforked
    obtain ⟨-, -, hfork, -⟩ := layout_of_loaded hloaded
    obtain ⟨hlayout, hfresh, -⟩ := layout_of_loaded hparent
    obtain ⟨hlayout', hfresh', -⟩ := layout_of_loaded hforked
    refine ⟨k, k', hrun, hstep, hbrk, hlowest, hlayout, hlayout', hfresh, hfresh', ?_⟩
    rw [← hpid]
    exact hfork _ _ _ hcur.symm hstep ⟨rfl, rfl⟩ hborn
  · obtain ⟨k, k', hrun, hloaded, hframes, hstep, hlive, -⟩ := fullHeap
    obtain ⟨-, -, -, hdying⟩ := layout_of_loaded hloaded
    exact ⟨k, k', hrun, hstep, hlive, hdying _ _ _ hframes hstep hlive .refl⟩

end

end Theynix
