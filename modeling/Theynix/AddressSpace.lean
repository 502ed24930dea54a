import Theynix.HeapBreak

/-!
# `Theynix.AddressSpace`: the layout of every process, over whole runs

A process gets its layout from `LoadProgram`. `Loaded` says that its address space goes back
to a `LoadProgram` that returned `SUCCESS` on a well-formed file, in its own `KernelExec` or
at the start of the kernel, or in an ancestor that forked it.

* `Step.layout`: a step keeps the layout of every process that goes on living, unless the
  process is being killed or throws its address space away in `KernelExec`.
* `layout_of_loaded`: a loaded process that is not being killed has the layout, its forks
  get it too, and no function that maps pages for it finds one of them mapped.
-/

set_option autoImplicit false

namespace Theynix

open Theynix.Lib (bind_eq_ok ite_eq_ok)
open Machine (ownedBy)

namespace Kernel

section
variable {k k' k₁ : Kernel} {p : Pid} {m : Machine}

/-! ## Switches and stores -/

/-- A switch keeps the layouts. -/
theorem Switched.sameLayout (h : Switched k k') (p : Pid) : SameLayout k k' p p := by
  have hspace : (k'.space p).userBrkPage = (k.space p).userBrkPage ∧
      (k'.space p).lowestUserStackPage = (k.space p).lowestUserStackPage := by
    rw [h.space]
    unfold Kernel.saveUserContext Kernel.setSpace
    by_cases hp : p = k.currentProc
    · rw [hp]
      simp
    · simp [hp]
  refine ⟨hspace.1, hspace.2, fun page _ => ?_⟩
  have htable : PageTable.region1 p ≠ .region0 := fun h => by cases h
  exact congrArg Pte.valid (h.tables.pte htable page)

/-! ## Stack growth -/

/-- A stack that has grown keeps the layout. -/
theorem growStack_layout {free : List Nat} (hiso : k.machine.Isolated (ownedBy k.live) free)
    (hlayout : k.HasLayout k.currentProc) (hgrows : k.GrowsStack)
    (hrun : k.growStack = .ok (SUCCESS, m)) :
    (({ k with machine := m } : Kernel).setSpace k.currentProc
      { k.space k.currentProc with lowestUserStackPage := k.faultPage }).HasLayout
        k.currentProc := by
  obtain ⟨brk, lowest, hbrk, hlowest, hgap, hstack⟩ := hlayout.hasBounds.bounds
  have habove := hgrows.aboveHeap
  have hbelow := hgrows.belowStack
  rw [hbrk] at habove
  rw [hlowest] at hbelow
  have hcount : ((k.space k.currentProc).lowestUserStackPage - k.faultPage).toNat
      = lowest - k.faultPage := by
    rw [hlowest]
    omega
  unfold Kernel.growStack at hrun
  rw [hcount] at hrun
  obtain ⟨rc, m₁, free', hgrow, -, -, -, hout, hgrown⟩ := hiso.growLoop k.currentProc
    k.faultPage (n := lowest - k.faultPage) (by omega) fun i hi hi' =>
      hlayout.unmapped i (by rw [hbrk]; omega) (by rw [hlowest]; omega)
  rw [hrun] at hgrow
  cases hgrow
  cases hgrown with
  | success enough rest mapped =>
      unfold HasLayout
      simp only [Kernel.setSpace, if_true]
      rw [hbrk]
      refine ⟨by omega, by omega, show (k.faultPage : Int) < 128 by omega,
        fun page hlow hhigh => ?_, fun page hlow hhigh => ?_⟩
      · rw [hout page (by omega)]
        exact hlayout.unmapped page (by rw [hbrk]; omega) (by rw [hlowest]; omega)
      · by_cases hpage : page < lowest
        · obtain ⟨f, -, hentry⟩ := mapped page (by omega) (by omega)
          rw [hentry]
        · rw [hout page (by omega)]
          exact hlayout.mapped page (by rw [hlowest]; omega) hhigh

/-- The growing stack maps pages of the running process only. -/
theorem growStack_others {free : List Nat} {rc : Int}
    (hiso : k.machine.Isolated (ownedBy k.live) free) (hrun : k.growStack = .ok (rc, m)) (hp : p ≠ k.currentProc) :
    m.pte (.region1 p) = k.machine.pte (.region1 p) := by
  have htable : PageTable.region1 p ≠ .region1 k.currentProc := fun he => hp (by cases he; rfl)
  obtain ⟨-, -, honly⟩ := hiso.growStack hrun
  exact funext (honly.pte htable)

/-! ## Forks -/

/-- What the two stages of a fork do to the region 1 tables, when the second one does not
fail: the child gets the valid pages of its parent, and no other table changes. -/
theorem forkTables {free : List Nat} (hiso : k.machine.Isolated (ownedBy k.live) free)
    (hfresh : k.live k.nextPid = false) (hne : k.currentProc ≠ k.nextPid)
    (hcopy : (k.machine.newPageTables k.nextPid).2.copyRegion1PageTableAndData k.currentProc
      k.nextPid = .ok (SUCCESS, m)) :
    (∀ p, p ≠ k.nextPid → m.pte (.region1 p) = k.machine.pte (.region1 p)) ∧
      ∀ page < NUM_PAGES_REG_1, (m.pte (.region1 k.nextPid) page).valid
        = (k.machine.pte (.region1 k.currentProc) page).valid := by
  obtain ⟨free₁, hiso₁, -⟩ := hiso.newPageTables hfresh
  obtain ⟨htables, hchild⟩ := hiso₁.copyRegion1_valid hne hcopy
  have hnew : ∀ p page, (k.machine.newPageTables k.nextPid).2.pte (.region1 p) page
      = (k.machine.withBlankTables k.nextPid).pte (.region1 p) page := by
    intro p page
    have hstack : PageTable.region1 p ≠ .kernelStack k.nextPid := fun h => by cases h
    cases Machine.newPageTables_list hiso.list hiso.freeSmall k.nextPid with
    | success _ _ _ touches => exact touches.pte hstack page
    | error _ _ _ touches => exact touches.pte hstack page
  have hothers : ∀ p, p ≠ k.nextPid → ∀ page,
      (k.machine.withBlankTables k.nextPid).pte (.region1 p) page
        = k.machine.pte (.region1 p) page := by
    intro p hp page
    have htable : PageTable.region1 p ≠ .region1 k.nextPid := fun he => hp (by cases he; rfl)
    have hstack : PageTable.region1 p ≠ .kernelStack k.nextPid := fun h => by cases h
    exact Machine.withBlankTables_pte htable hstack page
  refine ⟨fun p hp => ?_, fun page hpage => ?_⟩
  · have htable : PageTable.region1 p ≠ .region1 k.nextPid := fun he => hp (by cases he; rfl)
    have htemp : PageTable.region1 p ≠ .tempRegion1 := fun h => by cases h
    funext page
    rw [htables _ htable htemp, hnew, hothers p hp]
  · rw [hchild page hpage, hnew, hothers _ hne]
    rw [hnew]
    simp [Machine.withBlankTables, Machine.createRegion1PageTable, Machine.callocPageTable, hpage]

/-- A fork that fails changes the tables of the child it did not make, and no others. -/
theorem failedForkTables {free : List Nat} (hiso : k.machine.Isolated (ownedBy k.live) free)
    (hne : k.currentProc ≠ k.nextPid) (hp : p ≠ k.nextPid) (hok : k.kernelFork = .ok k')
    (hmode : k'.mode = .user) : k'.machine.pte (.region1 p) = k.machine.pte (.region1 p) := by
  have htable : PageTable.region1 p ≠ .region1 k.nextPid := fun he => hp (by cases he; rfl)
  have hstack : PageTable.region1 p ≠ .kernelStack k.nextPid := fun h => by cases h
  have hblank : ∀ page, (k.machine.withBlankTables k.nextPid).pte (.region1 p) page
      = k.machine.pte (.region1 p) page := Machine.withBlankTables_pte htable hstack
  have hstage := Machine.newPageTables_list hiso.list hiso.freeSmall k.nextPid
  rcases kernelFork_failed hok hmode with ⟨m, hnew, rfl⟩ | ⟨hnew, m, hcopy, rfl⟩
  · rw [hnew] at hstage
    cases hstage with
    | success hrc _ _ _ => exact absurd (show ERROR = SUCCESS from hrc) (by decide)
    | error _ _ _ touches => exact funext fun page => (touches.pte hstack page).trans (hblank page)
  · cases hstage with
    | error hrc _ _ _ => exact absurd hrc hnew
    | success _ _ hlist touches =>
        have halloc := (Machine.copyRegion1PageTableAndData_error hcopy).mp rfl
        have hlt : ∀ f ∈ free.drop NUM_KERNEL_PAGES, f < 0x80000000 :=
          fun f hf => hiso.freeSmall f (List.mem_of_mem_drop hf)
        rw [Machine.copyRegion1PageTableAndData_of_error halloc] at hcopy
        cases hcopy
        cases Machine.allocRegion1Copy_blank hne touches hlist hlt with
        | success hrc _ _ _ =>
            rw [halloc] at hrc
            exact absurd hrc (by decide)
        | error _ _ _ touches' =>
            exact funext fun page =>
              (touches'.pte htable page).trans ((touches.pte hstack page).trans (hblank page))

/-- The bounds of the processes when a fork switches to the child. -/
theorem forked_bounds : ((k.forked m).space p).userBrkPage
      = (k.space (if p = k.nextPid then k.currentProc else p)).userBrkPage ∧
    ((k.forked m).space p).lowestUserStackPage
      = (k.space (if p = k.nextPid then k.currentProc else p)).lowestUserStackPage := by
  simp only [forked, Kernel.withSched, Kernel.setSpace, saveUserContext, Nat.add_sub_cancel,
    if_true]
  by_cases hchild : p = k.nextPid
  · simp [hchild]
  · by_cases hp : p = k.currentProc
    · simp [hp]
    · simp [hchild, hp]

/-- A fork keeps the layouts, and a child gets the one of its parent. -/
theorem kernelFork_layout {free : List Nat} (hiso : k.machine.Isolated (ownedBy k.live) free)
    (hrun : k.toSched.Running) (hok : k.kernelFork = .ok k') :
    (∀ p, p ≠ k.nextPid → SameLayout k k' p p) ∧
      (k'.mode = .kernel → SameLayout k k' k.currentProc k.nextPid) := by
  have hfresh : k.live k.nextPid = false := by
    rw [Bool.eq_false_iff]
    exact fun hp => Nat.lt_irrefl _ (hrun.pcbLt _ (Bool.and_eq_true _ _ ▸ hp).1)
  have hne : k.currentProc ≠ k.nextPid := by
    intro he
    have hlive := hrun.current.resolve_left id
    rw [he, hfresh] at hlive
    cases hlive
  rcases kernelFork_cases hok with ⟨m, rfl⟩ | ⟨m, -, hcopy, hswitch⟩
  · refine ⟨fun p hp => ?_, fun hmode => by cases hmode⟩
    have htable := failedForkTables hiso hne hp hok rfl
    refine ⟨?_, ?_, fun page _ => by rw [htable]⟩
    all_goals
      simp only [afterFailedFork, Kernel.ret, Kernel.withSched, saveUserContext, Kernel.setSpace]
      by_cases hcur : p = k.currentProc
      · simp [hcur]
      · simp [hcur]
  · obtain ⟨hothers, hchild⟩ := forkTables hiso hfresh hne hcopy
    have hswitched := switchToProc_switched hswitch
    refine ⟨fun p hp => ?_, fun _ => ?_⟩
    · have hsame := hswitched.sameLayout p
      obtain ⟨hbrk, hlowest⟩ := forked_bounds (k := k) (m := m) (p := p)
      rw [if_neg hp] at hbrk hlowest
      exact ⟨hsame.userBrkPage.trans hbrk, hsame.lowestUserStackPage.trans hlowest,
        fun page hpage => (hsame.valid page hpage).trans
          (congrArg Pte.valid (congrFun (hothers p hp) page))⟩
    · have hsame := hswitched.sameLayout k.nextPid
      obtain ⟨hbrk, hlowest⟩ := forked_bounds (k := k) (m := m) (p := k.nextPid)
      rw [if_pos rfl] at hbrk hlowest
      exact ⟨hsame.userBrkPage.trans hbrk, hsame.lowestUserStackPage.trans hlowest,
        fun page hpage => (hsame.valid page hpage).trans (hchild page hpage)⟩

/-! ## Exits -/

/-- An exit keeps the layouts of the other processes. -/
theorem kernelExit_layout {free : List Nat} {status : Int}
    (hiso : k.machine.Isolated (ownedBy k.live) free) (hrun : k.toSched.Running)
    (hok : k.kernelExit status = .ok k') (hp : p ≠ k.currentProc) : SameLayout k k' p p := by
  have hlive := hrun.current.resolve_left id
  have htable : PageTable.region1 p ≠ .region1 k.currentProc := fun he => hp (by cases he; rfl)
  have hstack : PageTable.region1 p ≠ .kernelStack k.currentProc := fun h => by cases h
  obtain ⟨k₁, -, hmachine, hspace, -, hswitch⟩ := kernelExit_eq_ok hok
  obtain ⟨free₁, hiso₁, honly₁, -⟩ := hiso.freeRegion1PageTable hlive
  obtain ⟨free₂, -, honly₂⟩ := hiso₁.freeRegion0StackPages hlive
  have hpte : ∀ page, ((k.machine.freeRegion1PageTable k.currentProc).freeRegion0StackPages
      k.currentProc).pte (.region1 p) page = k.machine.pte (.region1 p) page := fun page =>
    (honly₂.pte hstack page).trans (honly₁.pte htable page)
  rw [← hmachine] at hpte
  have hsame := (switchToNextProc_switched hswitch).sameLayout p
  exact ⟨hspace ▸ hsame.userBrkPage, hspace ▸ hsame.lowestUserStackPage, fun page hpage =>
    (hsame.valid page hpage).trans (congrArg Pte.valid (hpte page))⟩

/-! ## Programs -/

/-- `KernelExec` has got as far as `LoadProgram`, which was given the file and returned `r`. -/
def Execs (k : Kernel) (env : Env) (file : Option Executable) (r : LoadResult) : Prop :=
  ∃ name argv, execArgs k.machine k.currentProc (k.userContext.regs 0) (k.userContext.regs 1)
      env.heapBytes = .ok (some (name, argv)) ∧ env.files name = file ∧
    loadProgram k.machine k.currentProc (k.space k.currentProc) file argv env.argbufOk = .ok r

/-- `LoadInfo` reports page-aligned segments in region 1 with the text below the data. -/
def WellFormed (file : Option Executable) : Prop :=
  ∀ f li, file = some f → f.loadInfo = some li → li.Assumed

end

end Kernel

/-- A file that is admitted was opened, and its segments leave a blank page. -/
theorem admittedFile_eq_some {file : Option Executable} {args : List (List Byte)}
    {f : Executable} {li : LoadInfo} (h : admittedFile file args = some (f, li)) :
    file = some f ∧ f.loadInfo = some li ∧ li.leavesBlankPage args = true := by
  unfold admittedFile at h
  split at h
  · cases h
  split at h
  · cases h
  rename_i g _ li' hinfo
  split at h
  · cases h
  split at h
  · cases h
  rename_i hblank
  cases h
  exact ⟨rfl, hinfo, by simpa using hblank⟩

/-- What has got past the checks has thrown the old region 1 away. -/
theorem commitProgram_committed {m : Machine} {pid : Nat} {space : Space} {file : Executable}
    {li : LoadInfo} {args : List (List Byte)} {r : LoadResult}
    (h : commitProgram m pid space file li args = .ok r) : r.committed = true := by
  obtain ⟨⟨rc₁, m₁⟩, -, h⟩ := bind_eq_ok.mp h
  rcases ite_eq_ok h with ⟨-, h⟩ | ⟨-, h⟩
  · cases h
    rfl
  obtain ⟨⟨rc₂, m₂⟩, -, h⟩ := bind_eq_ok.mp h
  rcases ite_eq_ok h with ⟨-, h⟩ | ⟨-, h⟩
  · cases h
    rfl
  · cases h
    rfl

/-- `LoadProgram` has returned before it threw the old region 1 away, or it has changed the
table of its process only. With `SUCCESS` it leaves the layout. -/
theorem loadProgram_layout {m : Machine} {live : Nat → Bool} {free : List Nat} {pid : Nat}
    {space : Space} {file : Option Executable} {args : Option (List (List Byte))}
    {argbufOk : Bool} {r : LoadResult} (hiso : m.Isolated (ownedBy live) free)
    (hlive : live pid = true) (hok : loadProgram m pid space file args argbufOk = .ok r) :
    Machine.OnlyTable (.region1 pid) m r.machine ∧
      (r.committed = false → r.rc = ERROR ∧ r.machine = m ∧
        r.space.userBrkPage = space.userBrkPage ∧
          r.space.lowestUserStackPage = space.lowestUserStackPage) ∧
      (Kernel.WellFormed file → r.rc = SUCCESS →
        Layout (r.machine.pte (.region1 pid)) r.space.userBrkPage
          r.space.lowestUserStackPage) := by
  -- An early return, in which at most the user context has changed.
  have hearly : ∀ {space' : Space}, space'.userBrkPage = space.userBrkPage →
      space'.lowestUserStackPage = space.lowestUserStackPage →
      r = { rc := ERROR, committed := false, machine := m, space := space' } →
      Machine.OnlyTable (.region1 pid) m r.machine ∧
        (r.committed = false → r.rc = ERROR ∧ r.machine = m ∧
          r.space.userBrkPage = space.userBrkPage ∧
            r.space.lowestUserStackPage = space.lowestUserStackPage) ∧
        (Kernel.WellFormed file → r.rc = SUCCESS →
          Layout (r.machine.pte (.region1 pid)) r.space.userBrkPage
            r.space.lowestUserStackPage) := by
    rintro space' hbrk hlowest rfl
    exact ⟨.refl, fun _ => ⟨rfl, rfl, hbrk, hlowest⟩,
      fun _ hrc => absurd (show ERROR = SUCCESS from hrc) (by decide)⟩
  unfold loadProgram at hok
  dsimp only at hok
  split at hok
  · exact hearly rfl rfl (Except.ok.inj hok).symm
  rename_i f li hfile
  rcases ite_eq_ok hok with ⟨-, hok⟩ | ⟨-, hok⟩
  · refine hearly ?_ ?_ (Except.ok.inj hok).symm
    · rfl
    · rfl
  obtain ⟨honly, -⟩ := hiso.commitProgram_valid hlive hok
  refine ⟨honly, fun hcommitted => ?_, fun hwell hrc => ?_⟩
  · rw [commitProgram_committed hok] at hcommitted
    cases hcommitted
  · obtain ⟨hf, hinfo, hblank⟩ := admittedFile_eq_some hfile
    exact layout_of_load hiso hlive (hwell f li hf hinfo) hblank rfl hok hrc

/-- What has got past the checks and fails leaves the space of the process as it was. -/
theorem commitProgram_failed {m : Machine} {pid : Nat} {space : Space} {file : Executable}
    {li : LoadInfo} {args : List (List Byte)} {r : LoadResult}
    (h : commitProgram m pid space file li args = .ok r) (hrc : r.rc ≠ SUCCESS) :
    r.space = space := by
  obtain ⟨⟨rc₁, m₁⟩, -, h⟩ := bind_eq_ok.mp h
  rcases ite_eq_ok h with ⟨-, h⟩ | ⟨-, h⟩
  · cases h
    rfl
  obtain ⟨⟨rc₂, m₂⟩, -, h⟩ := bind_eq_ok.mp h
  rcases ite_eq_ok h with ⟨-, h⟩ | ⟨-, h⟩
  · cases h
    rfl
  · cases h
    exact absurd rfl hrc

/-- A `LoadProgram` that returns `SUCCESS` leaves the break below the stack, whatever it has
loaded, and another one leaves both where they were. -/
theorem loadProgram_bounds {m : Machine} {live : Nat → Bool} {free : List Nat} {pid : Nat}
    {space : Space} {file : Option Executable} {args : Option (List (List Byte))}
    {argbufOk : Bool} {r : LoadResult} (hiso : m.Isolated (ownedBy live) free)
    (hlive : live pid = true) (hok : loadProgram m pid space file args argbufOk = .ok r) :
    (r.rc = SUCCESS → 0 ≤ r.space.userBrkPage ∧
      r.space.userBrkPage < r.space.lowestUserStackPage ∧
      r.space.lowestUserStackPage < NUM_PAGES_REG_1) ∧
    (r.rc ≠ SUCCESS → r.space.userBrkPage = space.userBrkPage ∧
      r.space.lowestUserStackPage = space.lowestUserStackPage) := by
  have hearly : ∀ {space' : Space}, space'.userBrkPage = space.userBrkPage →
      space'.lowestUserStackPage = space.lowestUserStackPage →
      r = { rc := ERROR, committed := false, machine := m, space := space' } →
      (r.rc = SUCCESS → 0 ≤ r.space.userBrkPage ∧
        r.space.userBrkPage < r.space.lowestUserStackPage ∧
        r.space.lowestUserStackPage < NUM_PAGES_REG_1) ∧
      (r.rc ≠ SUCCESS → r.space.userBrkPage = space.userBrkPage ∧
        r.space.lowestUserStackPage = space.lowestUserStackPage) := by
    rintro space' hbrk hlowest rfl
    exact ⟨fun hrc => absurd (show ERROR = SUCCESS from hrc) (by decide),
      fun _ => ⟨hbrk, hlowest⟩⟩
  unfold loadProgram at hok
  dsimp only at hok
  split at hok
  · exact hearly rfl rfl (Except.ok.inj hok).symm
  rename_i f li hfile
  rcases ite_eq_ok hok with ⟨-, hok⟩ | ⟨-, hok⟩
  · refine hearly ?_ ?_ (Except.ok.inj hok).symm
    · rfl
    · rfl
  refine ⟨fun hrc => ?_, fun hrc => ?_⟩
  · obtain ⟨-, -, hblank⟩ := admittedFile_eq_some hfile
    exact bounds_of_load hiso hlive hblank rfl hok hrc
  · have hspace := commitProgram_failed hok hrc
    refine ⟨(congrArg Space.userBrkPage hspace).trans ?_,
      (congrArg Space.lowestUserStackPage hspace).trans ?_⟩
    · rfl
    · rfl

namespace Kernel

section
variable {k k' k₁ : Kernel} {p : Pid} {m : Machine} {env : Env}

/-- `KernelExec` keeps the break below the stack. -/
theorem kernelExec_bounds {free : List Nat} {rc : Int}
    (hiso : k.machine.Isolated (ownedBy k.live) free) (hlive : k.live k.currentProc = true)
    (hok : k.kernelExec (k.userContext.regs 0) (k.userContext.regs 1) env = .ok (rc, k'))
    (h : k.HasBounds p) : k'.HasBounds p := by
  obtain ⟨prepared, hargs, hok⟩ := bind_eq_ok.mp hok
  cases prepared with
  | none =>
      cases hok
      exact h
  | some prepared =>
      obtain ⟨r, hload, hok⟩ := bind_eq_ok.mp hok
      obtain ⟨hsuccess, hfailed⟩ := loadProgram_bounds hiso hlive hload
      have hspace : k'.space = fun q => if q = k.currentProc then r.space else k.space q := by
        rcases ite_eq_ok hok with ⟨-, hok⟩ | ⟨-, hok⟩
        · cases hok
          rfl
        · cases hok
          rfl
      by_cases hp : p = k.currentProc
      · subst hp
        by_cases hrc : r.rc = SUCCESS
        · obtain ⟨hbrk, hgap, hstack⟩ := hsuccess hrc
          have hown : k'.space k.currentProc = r.space := by
            rw [hspace]
            exact if_pos rfl
          exact ⟨hown ▸ hbrk, hown ▸ hgap, hown ▸ hstack⟩
        · obtain ⟨hbrk, hlowest⟩ := hfailed hrc
          have hown : k'.space k.currentProc = r.space := by
            rw [hspace]
            exact if_pos rfl
          exact h.same (hown ▸ hbrk) (hown ▸ hlowest)
      · have hother : k'.space p = k.space p := by
          rw [hspace]
          exact if_neg hp
        exact h.same (congrArg Space.userBrkPage hother)
          (congrArg Space.lowestUserStackPage hother)

/-- `KernelExec` loads one file. -/
theorem Execs.unique {file file' : Option Executable} {r r' : LoadResult}
    (h : k.Execs env file r) (h' : k.Execs env file' r') : file' = file ∧ r' = r := by
  obtain ⟨name, argv, hargs, hfile, hload⟩ := h
  obtain ⟨name', argv', hargs', hfile', hload'⟩ := h'
  rw [hargs] at hargs'
  cases hargs'
  rw [hfile] at hfile'
  subst hfile'
  rw [hload] at hload'
  cases hload'
  exact ⟨rfl, rfl⟩

/-- `KernelExec` changes the layout of the running process only, and that only when
`LoadProgram` throws its address space away. -/
theorem kernelExec_layout {free : List Nat} {rc : Int}
    (hiso : k.machine.Isolated (ownedBy k.live) free) (hlive : k.live k.currentProc = true)
    (hok : k.kernelExec (k.userContext.regs 0) (k.userContext.regs 1) env = .ok (rc, k')) :
    (∀ p, p ≠ k.currentProc → SameLayout k k' p p) ∧
      (SameLayout k k' k.currentProc k.currentProc ∨
        ∃ file r, k.Execs env file r ∧ r.committed = true) ∧
      ∀ file r, k.Execs env file r → WellFormed file → r.rc = SUCCESS →
        k'.HasLayout k.currentProc := by
  obtain ⟨prepared, hargs, hok⟩ := bind_eq_ok.mp hok
  cases prepared with
  -- A check failed: nothing has been touched.
  | none =>
      cases hok
      refine ⟨fun p _ => .of_eq rfl rfl, .inl (.of_eq rfl rfl), ?_⟩
      rintro file r ⟨name, argv, hargs', -⟩
      rw [hargs] at hargs'
      cases hargs'
  | some prepared =>
      obtain ⟨r, hload, hok⟩ := bind_eq_ok.mp hok
      obtain ⟨honly, hearly, hlate⟩ := loadProgram_layout hiso hlive hload
      have hk' : k'.machine = r.machine ∧
          k'.space = fun q => if q = k.currentProc then r.space else k.space q := by
        rcases ite_eq_ok hok with ⟨-, hok⟩ | ⟨-, hok⟩
        · cases hok
          exact ⟨rfl, rfl⟩
        · cases hok
          exact ⟨rfl, rfl⟩
      obtain ⟨hmachine, hspace⟩ := hk'
      have hexecs : k.Execs env (env.files prepared.1) r :=
        ⟨prepared.1, prepared.2, hargs, rfl, hload⟩
      refine ⟨fun p hp => ?_, ?_, fun file r' hexecs' hwell hrc => ?_⟩
      · have htable : PageTable.region1 p ≠ .region1 k.currentProc :=
          fun he => hp (by cases he; rfl)
        refine .of_eq ?_ ?_
        · rw [hspace]
          exact if_neg hp
        · rw [hmachine]
          exact funext (honly.pte htable)
      -- Until `LoadProgram` commits itself, the old program stays as it was.
      · cases hcommitted : r.committed with
        | false =>
            obtain ⟨-, hsame, hbrk, hlowest⟩ := hearly hcommitted
            refine .inl ⟨?_, ?_, fun page _ => ?_⟩
            · rw [hspace]
              simpa using hbrk
            · rw [hspace]
              simpa using hlowest
            · rw [hmachine, hsame]
        | true => exact .inr ⟨_, r, hexecs, hcommitted⟩
      · obtain ⟨rfl, rfl⟩ := hexecs.unique hexecs'
        have hlate := hlate hwell hrc
        unfold HasLayout
        rw [hmachine, hspace]
        simpa using hlate

/-- The step throws the address space of process `p` away: `LoadProgram` has got past its
checks. -/
def Replaces (k : Kernel) (e : Event) (p : Pid) : Prop :=
  p = k.currentProc ∧ ∃ uc env file r, e = .trap uc env ∧ uc.Calls YALNIX_EXEC ∧
    ({ k with userContext := uc } : Kernel).Execs env file r ∧ r.committed = true

/-- The step finds no frames for the growing stack of process `p`, and kills it. -/
def OutOfFrames (k : Kernel) (e : Event) (p : Pid) : Prop :=
  p = k.currentProc ∧ ∃ uc env m, e = .trap uc env ∧ uc.vector = TRAP_MEMORY ∧
    ({ k with userContext := uc } : Kernel).GrowsStack ∧
    ({ k with userContext := uc } : Kernel).growStack = .ok (ERROR, m)

theorem trap_memory (vector : k.userContext.vector = TRAP_MEMORY) :
    k.trap env = k.trapMemory := by
  unfold Kernel.trap
  repeat rw [if_neg (by rw [vector]; decide)]
  rw [if_pos vector]

/-- `TrapMemory` on a fault for which the stack should grow. -/
theorem trapMemory_grows (h : k.GrowsStack) : ∃ msg, k.trapMemory = k.growStack >>= fun r =>
    if r.1 = ERROR then ({ k with machine := r.2 } : Kernel).fatal msg
    else .ok (({ k with machine := r.2 } : Kernel).setSpace k.currentProc
      { k.space k.currentProc with lowestUserStackPage := k.faultPage }) := by
  have hrange : ¬ (k.userContext.addr > VMEM_1_LIMIT ∨ k.userContext.addr < VMEM_1_BASE) := by
    rintro (hhigh | hlow)
    · exact absurd h.limit (Nat.not_le_of_lt hhigh)
    · exact absurd h.base (Nat.not_le_of_lt hlow)
  have hvalid : (!(k.table (addrToPage (k.userContext.addr - VMEM_1_BASE))).valid) = true := by
    rw [show (k.table (addrToPage (k.userContext.addr - VMEM_1_BASE))).valid = false from h.invalid]
    rfl
  have hgap : (addrToPage (k.userContext.addr - VMEM_1_BASE) : Int)
      < (k.space k.currentProc).lowestUserStackPage ∧
      (addrToPage (k.userContext.addr - VMEM_1_BASE) : Int)
        > (k.space k.currentProc).userBrkPage := ⟨h.belowStack, h.aboveHeap⟩
  refine ⟨"Proc " ++ decimal k.currentProc ++ " tried to grow stack, but out of free frames\n", ?_⟩
  unfold Kernel.trapMemory
  dsimp only
  rw [if_neg hrange, if_pos hvalid, if_pos hgap]
  rfl

/-- `TrapMemory` kills a process whose stack finds no frames. -/
theorem trapMemory_outOfFrames (h : k.GrowsStack) (hgrow : k.growStack = .ok (ERROR, m)) :
    ∃ msg, k.trapMemory = ({ k with machine := m } : Kernel).fatal msg := by
  obtain ⟨msg, heq⟩ := trapMemory_grows h
  refine ⟨msg, heq.trans ?_⟩
  rw [hgrow]
  rfl

/-- A process that a trap kills writes its message to terminal 0, and is dying from then on. -/
theorem dying_of_write {bytes : List Byte} (hrun : k.toSched.Running)
    (hok : k.kernelTtyWriteInternal 0 bytes .fatalTrap = .ok k')
    (hlive : k'.live k.currentProc = true) : k'.Dying k.currentProc := by
  have hswitched := switchToNextProc_switched hok
  refine ⟨?_, fun _ => hswitched.mode⟩
  obtain ⟨a', ha'⟩ := Option.isSome_iff_exists.mp (Bool.and_eq_true _ _ ▸ hlive).1
  refine ⟨a', ha', ?_⟩
  have hlives := Sched.enqueueToTransmit_sameLives k.toSched 0 bytes
  have hcur := hlives.currentProc
  have hsched := switchToNextProc_sched hok
  rw [hsched, Sched.switchToNextProc_pcb] at ha'
  obtain ⟨a, ha, rfl⟩ := Option.map_eq_some_iff.mp ha'
  obtain ⟨a₀, ha₀, hinit, -⟩ := hlives.pcb_some ha
  have hinit₀ := hrun.current_initialized ha₀
  rw [hinit] at hinit₀
  refine Prod.ext ?_ ?_
  · show (a.kernelContextInitialized || _) = true
    rw [hinit₀, Bool.true_or]
  · show (if _ then _ else _) = _
    rw [if_pos (.inl hcur.symm)]

/-- A process that exits is not live any more. -/
theorem kernelExit_dead {status : Int} (hrun : k.toSched.Running)
    (hidle : k.currentProc ≠ IDLE_PID) (hok : k.kernelExit status = .ok k') :
    k'.live k.currentProc = false := by
  obtain ⟨k₁, hswitch, -, hexited, -, -, -⟩ := kernelExit_cases hrun hidle hok
  have hexited' : k'.exited k.currentProc = true := by
    have hsched : k'.toSched = k₁.toSched.switchToNextProc .kernelExit :=
      switchToNextProc_sched hswitch
    have hkept : (k₁.toSched.switchToNextProc .kernelExit).exited k.currentProc
        = k₁.exited k.currentProc := by
      unfold Sched.switchToNextProc
      split
      · exact Sched.switchToProc_exited
      · exact Sched.switchToProc_exited
    rw [hsched, hkept]
    exact hexited
  unfold Sched.live
  rw [hexited', Bool.not_true, Bool.and_false]

end

end Kernel

open Kernel

section
variable {k k' : Kernel} {p : Pid} {e : Event}

/-! ## Steps -/

/-- After a step the same process runs, or another one is inside the kernel. -/
theorem Turn.switched {suspends : KernelContext → Prop} {returns : Int → Prop}
    (h : Turn suspends returns k k') : k'.currentProc = k.currentProc ∨ k'.mode = .kernel := by
  cases h with
  | ret result contexts store buffers => exact .inl contexts.currentProc
  | back outside contexts mode buffers => exact .inl contexts.currentProc
  | switch context run contexts buffers => exact .inr (switchToNextProc_switched run).mode

theorem Step.switched (hrun : k.toSched.Running) (hstep : Step k e k') :
    k'.currentProc = k.currentProc ∨ k'.mode = .kernel := by
  have hexit : ∀ {k₀ : Kernel} {status : Int}, k₀.kernelExit status = .ok k' →
      k'.mode = .kernel := by
    intro k₀ status hok
    obtain ⟨s, -, hswitch⟩ := bind_eq_ok.mp hok
    exact (switchToNextProc_switched hswitch).mode
  cases hstep with
  | @trap _ uc env mode idle run =>
      cases Kernel.trap_effect (k := { k with userContext := uc }) hrun mode run with
      | turn turn => exact turn.switched
      | fork call run =>
          rcases kernelFork_cases run with ⟨m, rfl⟩ | ⟨m, -, -, hswitch⟩
          · exact .inl rfl
          · exact .inr (mode_switchToProc hswitch)
      | exec call run ret =>
          have hcur := congrArg Sched.currentProc (kernelExec_sched run)
          rw [ret]
          exact .inl hcur
      | brk call run ret =>
          have hcur := congrArg Sched.currentProc (kernelBrk_sched run)
          rw [ret]
          exact .inl hcur
      | grow vector grows run back =>
          rw [back]
          exact .inl rfl
      | outOfFrames vector grows run fatal => exact (fatal_turn fatal).switched
      | exit vector run => exact .inr (hexit run)
  | resume mode run =>
      rcases Kernel.resume_effect mode run with turn | ⟨-, hexit'⟩
      · exact turn.switched
      · exact .inr (hexit hexit')
  | userLoad | userStore | cachedStore => exact .inl rfl
  | setKernelBrk run => exact .inl rfl

/-- A dying process goes on with its exit. -/
theorem resume_of_dying (h : k.Dying k.currentProc) :
    k.resume = k.restoreUserContext.kernelExit ERROR := by
  obtain ⟨⟨a, ha, hlife⟩, -⟩ := h
  have hpcb : k.currentPcb = a := by
    show (k.pcb k.currentProc).getD _ = a
    rw [ha]
    rfl
  have hcontext : k.restoreUserContext.currentPcb.kernelContext = .fatalTrap := by
    show k.currentPcb.kernelContext = .fatalTrap
    rw [hpcb]
    exact congrArg Prod.snd hlife
  unfold Kernel.resume
  dsimp only
  rw [hcontext]

/-- A dying process is dead when it has gone on. -/
theorem Step.dead_of_dying (hrun : k.toSched.Running) (hstep : Step k .resume k')
    (h : k.Dying k.currentProc) : k'.live k.currentProc = false := by
  cases hstep with
  | resume mode run =>
      rw [resume_of_dying h] at run
      obtain ⟨⟨a, ha, hlife⟩, -⟩ := h
      have hcontext : a.kernelContext = .fatalTrap := congrArg Prod.snd hlife
      have hidle : k.currentProc ≠ IDLE_PID := by
        refine hrun.ne_idle (c := .fatalTrap) ⟨mode, ?_⟩ (by simp)
        rw [ha]
        exact hcontext
      exact kernelExit_dead (k := k.restoreUserContext) hrun hidle run

/-- A process that is being killed goes on to its exit. -/
theorem Step.dying (hrun : k.toSched.Running) (hstep : Step k e k') (hdying : k.Dying p)
    (hlive : k'.live p = true) : k'.Dying p := by
  have ⟨⟨a, ha, hlife⟩, hmode⟩ := hdying
  obtain ⟨a', ha'⟩ := Option.isSome_iff_exists.mp (Bool.and_eq_true _ _ ▸ hlive).1
  by_cases hp : p = k.currentProc
  · have hkernel := hmode hp
    subst hp
    cases hstep with
    | trap mode => exact by cases mode.symm.trans hkernel
    | userLoad mode | userStore mode | cachedStore mode => exact by cases mode.symm.trans hkernel
    | setKernelBrk run => exact ⟨⟨a, ha, hlife⟩, hmode⟩
    | resume mode run =>
        rw [Step.dead_of_dying hrun (.resume mode run) hdying] at hlive
        cases hlive
  · have hlife' := hstep.life hrun hp ha (congrArg Prod.fst hlife) ha'
    refine ⟨⟨a', ha', hlife'.trans hlife⟩, fun hcur => ?_⟩
    exact (hstep.switched hrun).resolve_left fun he => hp (hcur.trans he)

/-- A process whose stack finds no frames is being killed. -/
theorem Step.dying_of_outOfFrames (hrun : k.toSched.Running) (hstep : Step k e k')
    (hframes : k.OutOfFrames e p) (hlive : k'.live p = true) : k'.Dying p := by
  obtain ⟨rfl, uc, env, m, rfl, vector, grows, hgrow⟩ := hframes
  cases hstep with
  | trap mode idle run =>
      obtain ⟨msg, hfatal⟩ := trapMemory_outOfFrames (k := { k with userContext := uc }) grows hgrow
      rw [trap_memory (k := { k with userContext := uc }) vector, hfatal] at run
      exact dying_of_write (k := { k with userContext := uc, machine := m }) hrun run hlive

/-- A step keeps the layout of a process that goes on living, unless its address space is
thrown away or its stack finds no frames. -/
theorem Step.layout (hapart : k.Apart) (hrun : k.toSched.Running) (hstep : Step k e k')
    (hlive : k.live p = true) (hlive' : k'.live p = true) (hreplaces : ¬ k.Replaces e p)
    (hframes : ¬ k.OutOfFrames e p) (hlayout : k.HasLayout p) : k'.HasLayout p := by
  obtain ⟨free, hiso⟩ := hapart.isolated
  have hcur := hrun.current.resolve_left id
  -- An exit ends the current process, and frees nothing of the others.
  have hexit : ∀ {k₀ : Kernel} {status : Int}, k₀.kernelExit status = .ok k' →
      k₀.toSched = k.toSched → k₀.machine = k.machine → k₀.space p = k.space p →
      k.currentProc ≠ IDLE_PID → k'.HasLayout p := by
    intro k₀ status hok hsched hmachine hspace hidle
    have hlayout₀ : k₀.HasLayout p := by
      unfold HasLayout
      rwa [hmachine, hspace]
    by_cases hp : p = k.currentProc
    · have hdead := kernelExit_dead (by rwa [hsched]) (by rwa [hsched]) hok
      rw [hsched, ← hp, hlive'] at hdead
      cases hdead
    · have hiso₀ : k₀.machine.Isolated (ownedBy k₀.live) free := by rwa [hmachine, hsched]
      exact hlayout₀.same (kernelExit_layout hiso₀ (by rwa [hsched]) hok (by rwa [hsched]))
  cases hstep with
  | @trap _ uc env mode idle run =>
      have hidle : ¬ IsDeviceTrap uc.vector → k.currentProc ≠ IDLE_PID :=
        fun hdev hcur => hdev (idle hcur)
      have hlayout₀ : ({ k with userContext := uc } : Kernel).HasLayout p := hlayout
      cases Kernel.trap_effect (k := { k with userContext := uc }) hrun mode run with
      | turn turn => exact hlayout₀.same (.of_turn turn p)
      | fork call run =>
          have hne : p ≠ k.nextPid := by
            rintro rfl
            exact Nat.lt_irrefl _ (hrun.pcbLt _ (Bool.and_eq_true _ _ ▸ hlive).1)
          have hsame := (kernelFork_layout (k := { k with userContext := uc }) hiso hrun run).1 p hne
          exact hlayout₀.same hsame
      | @exec rc k₁ call run ret =>
          obtain ⟨hothers, hown, -⟩ := kernelExec_layout (k := { k with userContext := uc }) hiso
            hcur run
          rw [ret]
          show k₁.HasLayout p
          by_cases hp : p = k.currentProc
          · subst hp
            rcases hown with hsame | ⟨file, r, hexecs, hcommitted⟩
            · exact hlayout₀.same hsame
            -- The program was replaced, which `hreplaces` excludes.
            · exact absurd ⟨rfl, uc, env, file, r, rfl, call, hexecs, hcommitted⟩ hreplaces
          · exact hlayout₀.same (hothers p hp)
      | @brk rc k₁ call run ret =>
          rw [ret]
          show k₁.HasLayout p
          by_cases hp : p = k.currentProc
          · subst hp
            exact kernelBrk_layout (k := { k with userContext := uc }) hiso hcur hlayout₀ run
          · exact hlayout₀.same (kernelBrk_others (k := { k with userContext := uc })
              ⟨hapart.isolated, hapart.ptbr1⟩ hcur run hp)
      | @grow m vector grows run back =>
          rw [back]
          by_cases hp : p = k.currentProc
          · subst hp
            exact growStack_layout (k := { k with userContext := uc }) hiso hlayout₀ grows run
          · refine hlayout₀.same (.of_eq (if_neg hp) ?_)
            exact growStack_others (k := { k with userContext := uc }) hiso run hp
      | @outOfFrames m msg vector grows run fatal =>
          by_cases hp : p = k.currentProc
          · exact absurd ⟨hp, uc, env, m, rfl, vector, grows, run⟩ hframes
          · have htable := growStack_others (k := { k with userContext := uc }) hiso run hp
            have hgrown : ({ k with userContext := uc, machine := m } : Kernel).HasLayout p :=
              hlayout₀.same (.of_eq rfl htable)
            exact hgrown.same (.of_turn (fatal_turn fatal) p)
      | exit vector run => exact hexit run rfl rfl rfl (hidle vector)
  | resume mode run =>
      have hrestore : k.restoreUserContext.HasLayout p := hlayout
      rcases Kernel.resume_effect mode run with turn | ⟨hc, hexit'⟩
      · exact hrestore.same (.of_turn turn p)
      · exact hexit hexit' rfl rfl rfl (hrun.ne_idle ⟨mode, hc⟩ (by simp))
  | userLoad mode run => exact hlayout
  | userStore mode run =>
      refine hlayout.same (.of_eq rfl ?_)
      exact congrFun (Machine.storeByte_sameTables run).pte _
  | cachedStore mode cached run =>
      exact hlayout.same (.of_eq rfl (congrFun (Machine.storeThrough_pte run) _))
  | setKernelBrk run =>
      obtain ⟨free', -, -, hothers⟩ := hiso.setKernelBrk run
      have htable : PageTable.region1 p ≠ .region0 := fun h => by cases h
      exact hlayout.same (.of_eq rfl (funext (hothers htable)))

/-! ## Bounds -/

/-- A step keeps the breaks below the stacks. -/
theorem Step.bounds (hapart : k.Apart) (hrun : k.toSched.Running) (hstep : Step k e k')
    (h : ∀ p, k.HasBounds p) (p : Pid) : k'.HasBounds p := by
  obtain ⟨free, hiso⟩ := hapart.isolated
  have hcur := hrun.current.resolve_left id
  have hexit : ∀ {k₀ : Kernel} {status : Int}, k₀.kernelExit status = .ok k' →
      k₀.space = k.space → k'.HasBounds p := by
    intro k₀ status hok hspace
    obtain ⟨s, -, hswitch⟩ := bind_eq_ok.mp hok
    have hsame := (switchToNextProc_switched hswitch).sameLayout p
    refine (h p).same (hsame.userBrkPage.trans ?_) (hsame.lowestUserStackPage.trans ?_)
    · exact congrArg (fun f => (f p).userBrkPage) hspace
    · exact congrArg (fun f => (f p).lowestUserStackPage) hspace
  have hturn : ∀ {suspends : KernelContext → Prop} {returns : Int → Prop} {k₀ : Kernel},
      Turn suspends returns k₀ k' → k₀.space = k.space → k'.HasBounds p := by
    intro suspends returns k₀ turn hspace
    obtain ⟨hbrk, hlowest⟩ := turn.bounds p
    rw [hspace] at hbrk hlowest
    exact (h p).same hbrk hlowest
  cases hstep with
  | @trap _ uc env mode idle run =>
      have h₀ : ∀ p, ({ k with userContext := uc } : Kernel).HasBounds p :=
        fun p => ⟨(h p).brk, (h p).gap, (h p).stack⟩
      cases Kernel.trap_effect (k := { k with userContext := uc }) hrun mode run with
      | turn turn => exact hturn turn rfl
      | fork call run =>
          rcases kernelFork_cases run with ⟨m, rfl⟩ | ⟨m, -, -, hswitch⟩
          · refine (h p).same ?_ ?_
            all_goals
              simp only [afterFailedFork, Kernel.ret, Kernel.withSched, saveUserContext,
                Kernel.setSpace]
              by_cases hp : p = k.currentProc
              · simp [hp]
              · simp [hp]
          · have hsame := (switchToProc_switched hswitch).sameLayout p
            obtain ⟨hbrk, hlowest⟩ :=
              forked_bounds (k := { k with userContext := uc }) (m := m) (p := p)
            exact (h _).same (hsame.userBrkPage.trans hbrk) (hsame.lowestUserStackPage.trans hlowest)
      | @exec rc k₁ call run ret =>
          rw [ret]
          have hk₁ : k₁.HasBounds p :=
            kernelExec_bounds (k := { k with userContext := uc }) hiso hcur run (h₀ p)
          exact ⟨hk₁.brk, hk₁.gap, hk₁.stack⟩
      | @brk rc k₁ call run ret =>
          rw [ret]
          have hk₁ : k₁.HasBounds p := by
            by_cases hp : p = k.currentProc
            · subst hp
              exact kernelBrk_bounds (k := { k with userContext := uc }) hiso hcur (h₀ _) run
            · have hsame := kernelBrk_others (k := { k with userContext := uc })
                ⟨hapart.isolated, hapart.ptbr1⟩ hcur run hp
              exact (h p).same hsame.userBrkPage hsame.lowestUserStackPage
          exact ⟨hk₁.brk, hk₁.gap, hk₁.stack⟩
      | @grow m vector grows run back =>
          rw [back]
          by_cases hp : p = k.currentProc
          · subst hp
            have hbelow := grows.belowStack
            refine ⟨?_, ?_, ?_⟩
            all_goals simp only [Kernel.setSpace, if_true]
            · exact (h _).brk
            · exact grows.aboveHeap
            · exact Int.lt_trans hbelow (h _).stack
          · refine (h p).same ?_ ?_
            all_goals
              simp only [Kernel.setSpace]
              rw [if_neg hp]
      | outOfFrames vector grows run fatal => exact hturn (fatal_turn fatal) rfl
      | exit vector run => exact hexit run rfl
  | resume mode run =>
      rcases Kernel.resume_effect mode run with turn | ⟨hc, hexit'⟩
      · exact hturn turn rfl
      · exact hexit hexit' rfl
  | userLoad | userStore | cachedStore => exact ⟨(h p).brk, (h p).gap, (h p).stack⟩
  | setKernelBrk run => exact ⟨(h p).brk, (h p).gap, (h p).stack⟩

/-- Idle and init start with their breaks below their stacks. -/
theorem kernelStart_bounds {b : BootImage} (h : Kernel.kernelStart b = .ok k) (p : Pid) :
    k.HasBounds p := by
  obtain ⟨hiso₀, hptbr₀⟩ := bootMachine_isolated b
  obtain ⟨idle, hidle, h⟩ := bind_eq_ok.mp h
  obtain ⟨free₁, hiso₁, hptbr₁⟩ := hiso₀.loadProgram (by simp) hptbr₀ hidle
  rcases ite_eq_ok h with ⟨-, h⟩ | ⟨hidleRc, h⟩
  · cases h
  obtain ⟨hidleBrk, hidleGap, hidleStack⟩ :=
    (loadProgram_bounds hiso₀ (by simp) hidle).1 (not_not.mp hidleRc)
  have hinitNew : decide (INIT_PID = IDLE_PID) = false := by decide
  obtain ⟨free₂, hiso₂, -⟩ := hiso₁.newPageTables hinitNew
  rcases ite_eq_ok h with ⟨-, h⟩ | ⟨-, h⟩
  · cases h
  have hiso₃ : ({ (idle.machine.newPageTables INIT_PID).2 with
      ptbr1 := .region1 INIT_PID } : Machine).flushRegion1.Isolated
        (ownedBy fun p => decide (p = IDLE_PID) || decide (p = INIT_PID)) free₂ :=
    hiso₂.congr rfl rfl rfl fun _ _ => rfl
  obtain ⟨init, hinit, h⟩ := bind_eq_ok.mp h
  rcases ite_eq_ok h with ⟨-, h⟩ | ⟨hinitRc, h⟩
  · cases h
  obtain ⟨hinitBrk, hinitGap, hinitStack⟩ :=
    (loadProgram_bounds hiso₃ (by simp) hinit).1 (not_not.mp hinitRc)
  cases h
  by_cases hp : p = IDLE_PID
  · subst hp
    exact ⟨hidleBrk, hidleGap, hidleStack⟩
  · refine ⟨?_, ?_, ?_⟩
    all_goals simp only [if_neg hp]
    · exact hinitBrk
    · exact hinitGap
    · exact hinitStack

/-- In every state of every run, the break of a process is below its stack. -/
theorem reachable_bounds {b : BootImage} (h : Reachable b k) (p : Pid) : k.HasBounds p := by
  have hinv : ((k.toSched.Objects ∧ k.toSched.Running) ∧ k.Apart) ∧ ∀ p, k.HasBounds p := by
    refine ReachableWhen.invariant
      (I := fun k => ((k.toSched.Objects ∧ k.toSched.Running) ∧ k.Apart) ∧ ∀ p, k.HasBounds p)
      (fun k hstart => ?_) (fun k e k' hinv _ hfresh hstep => ?_) h
    · have hreach : Reachable b k := ⟨k, hstart, .refl⟩
      exact ⟨⟨reachable_running hreach, reachable_apart hreach⟩, kernelStart_bounds hstart⟩
    · obtain ⟨⟨⟨hobj, hrun⟩, hapart⟩, hbounds⟩ := hinv
      have hs := hstep.sched
      exact ⟨⟨⟨hs.objects hobj, hs.running hrun hobj⟩, hstep.apart hfresh hapart hrun (hs.running hrun hobj)⟩,
        hstep.bounds hapart hrun hbounds⟩
  exact hinv.2 p

end

end Theynix
