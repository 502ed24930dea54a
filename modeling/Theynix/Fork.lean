import Theynix.FrameIsolation

/-!
# `Theynix.Fork`: what a failed `KernelFork` leaves behind

A fork takes frames in two stages, the kernel stack of the child and the copy of region 1,
and each stage gives back what it has taken when it finds no more. The free list is then the
one from before the stage, frame by frame (`newKernelStackLoop_list`,
`allocRegion1Copy_list`). But when the second stage fails nobody gives back what the first
one took.

* `failed_fork_harmless_iff`: a failed fork changes nothing exactly when the frames do not
  run out while region 1 is copied.
* `failed_fork_leaks` is a run in which they do.
-/

set_option autoImplicit false

namespace Theynix

open Theynix.Lib (bind_eq_ok ite_eq_ok)

namespace Machine

/-! ## Giving frames back -/

/-- The frames that the valid entries `i`, ..., `i + n - 1` of a table name, in order. -/
def tableFrames (m : Machine) (t : PageTable) (i n : Nat) : List Nat :=
  (List.range' i n).filterMap fun j =>
    if (m.pte t j).valid then some (m.pte t j).pfn else none

/-- Only the table `t`, the ends of the free list and the contents of `frames` may differ. -/
structure Touches (t : PageTable) (frames : List Nat) (m m' : Machine) : Prop
    extends OnlyTable t m m' where
  frame : ∀ f, f ∉ frames → m'.frame f = m.frame f

section
variable {m m' m₁ m₂ : Machine} {t : PageTable} {frames frames' free taken : List Nat}
  {i n pid : Nat}

theorem Touches.refl : Touches t frames m m := ⟨.refl, fun _ _ => rfl⟩

theorem Touches.trans (h : Touches t frames m m₁) (h' : Touches t frames m₁ m₂) :
    Touches t frames m m₂ :=
  ⟨h.toOnlyTable.trans h'.toOnlyTable, fun f hf => (h'.frame f hf).trans (h.frame f hf)⟩

theorem Touches.mono (h : Touches t frames m m') (hsub : ∀ f ∈ frames, f ∈ frames') :
    Touches t frames' m m' :=
  ⟨h.toOnlyTable, fun f hf => h.frame f fun hmem => hf (hsub f hmem)⟩

theorem tableFrames_congr (h : ∀ j, i ≤ j → j < i + n → m'.pte t j = m.pte t j) :
    m'.tableFrames t i n = m.tableFrames t i n := by
  refine List.filterMap_congr fun j hj => ?_
  obtain ⟨hlow, hhigh⟩ := List.mem_range'_1.mp hj
  rw [h j hlow hhigh]

theorem tableFrames_succ :
    m.tableFrames t i (n + 1)
      = (if (m.pte t i).valid then [(m.pte t i).pfn] else []) ++ m.tableFrames t (i + 1) n := by
  rw [tableFrames, List.range'_succ, List.filterMap_cons, tableFrames]
  split <;> simp_all

theorem tableFrames_concat :
    m.tableFrames t i (n + 1) = m.tableFrames t i n
      ++ if (m.pte t (i + n)).valid then [(m.pte t (i + n)).pfn] else [] := by
  rw [tableFrames, List.range'_1_concat, List.filterMap_append, tableFrames]
  split <;> simp_all

/-- A frame that is given back joins the free list at its end. -/
theorem freeEntry_list (h : m.FreeList free) (hf : (m.pte t i).pfn ∉ free)
    (hlt : (m.pte t i).pfn < 0x80000000) :
    (m.freeEntry t i).FreeList (free ++ [(m.pte t i).pfn]) ∧
      Touches t (free ++ [(m.pte t i).pfn]) m (m.freeEntry t i) ∧
      ∀ j, j ≠ i → (m.freeEntry t i).pte t j = m.pte t j := by
  have hstep : m.freeEntry t i
      = (m.setPte t i { m.pte t i with valid := false }).releaseUsedFrame (m.pte t i).pfn := by
    simp only [Machine.freeEntry, modifyPte, setPte_pte_self]
  obtain ⟨hsame, hlist, hframe⟩ := releaseUsedFrame_spec
    (h.setPte t i { m.pte t i with valid := false }) hf hlt
  rw [hstep]
  refine ⟨hlist, ⟨(OnlyTable.setPte i _).trans (.of_sameTables hsame), fun g hg => ?_⟩,
    fun j hne => ?_⟩
  · rw [List.mem_append, List.mem_singleton, not_or] at hg
    exact hframe g hg.1 hg.2
  · rw [hsame.pte, setPte_pte_of_ne _ _ fun h => hne h.2]

/-- A page table that is freed gives back the frames of its valid entries, in order. -/
theorem freePageTable_list (h : m.FreeList free)
    (hnodup : (free ++ m.tableFrames t i n).Nodup)
    (hlt : ∀ f ∈ m.tableFrames t i n, f < 0x80000000) :
    (m.freePageTable t i n).FreeList (free ++ m.tableFrames t i n) ∧
      Touches t (free ++ m.tableFrames t i n) m (m.freePageTable t i n) := by
  induction n generalizing m free i with
  | zero =>
      show m.FreeList (free ++ []) ∧ _
      rw [List.append_nil]
      exact ⟨h, .refl⟩
  | succ n ih =>
      rw [tableFrames_succ] at hnodup hlt ⊢
      by_cases hv : (m.pte t i).valid = true
      · rw [if_pos hv] at hnodup hlt ⊢
        rw [← List.append_assoc] at hnodup ⊢
        have hf : (m.pte t i).pfn ∉ free := by
          have hfirst := (List.nodup_append.mp hnodup).1
          exact fun hmem => (List.nodup_append.mp hfirst).2.2 _ hmem _ (List.mem_singleton_self _) rfl
        obtain ⟨hlist, htouches, hrest⟩ := freeEntry_list h hf (hlt _ (by simp))
        have hframes : (m.freeEntry t i).tableFrames t (i + 1) n = m.tableFrames t (i + 1) n :=
          tableFrames_congr fun j hj _ => hrest j (by omega)
        have hstep : m.freePageTable t i (n + 1) = (m.freeEntry t i).freePageTable t (i + 1) n := by
          simp only [Machine.freePageTable, hv, if_true]
        obtain ⟨hlist', htouches'⟩ := ih hlist (by rwa [hframes])
          fun f hmem => hlt f (List.mem_append_right _ (hframes ▸ hmem))
        rw [hframes] at hlist' htouches'
        rw [hstep]
        exact ⟨hlist', (htouches.mono fun f => List.mem_append_left _).trans htouches'⟩
      · rw [if_neg hv, List.nil_append] at hnodup hlt ⊢
        have hstep : m.freePageTable t i (n + 1) = m.freePageTable t (i + 1) n := by
          simp only [Machine.freePageTable, hv]
          rfl
        rw [hstep]
        exact ih h hnodup hlt

/-- The rollback of a kernel stack gives back the frames of its first entries, in order. -/
theorem releaseKernelStack_list (h : m.FreeList free)
    (hvalid : ∀ j < i, (m.pte (.kernelStack pid) j).valid = true)
    (hnodup : (free ++ m.tableFrames (.kernelStack pid) 0 i).Nodup)
    (hlt : ∀ f ∈ m.tableFrames (.kernelStack pid) 0 i, f < 0x80000000) :
    (m.releaseKernelStack pid i).FreeList (free ++ m.tableFrames (.kernelStack pid) 0 i) ∧
      Touches (.kernelStack pid) (free ++ m.tableFrames (.kernelStack pid) 0 i) m
        (m.releaseKernelStack pid i) ∧
      ∀ j, i ≤ j → (m.releaseKernelStack pid i).pte (.kernelStack pid) j
        = m.pte (.kernelStack pid) j := by
  induction i with
  | zero =>
      show m.FreeList (free ++ []) ∧ _
      rw [List.append_nil]
      exact ⟨h, .refl, fun _ _ => rfl⟩
  | succ i ih =>
      have hv := hvalid i (Nat.lt_succ_self i)
      rw [tableFrames_concat, Nat.zero_add, if_pos hv] at hnodup hlt ⊢
      rw [← List.append_assoc] at hnodup ⊢
      obtain ⟨hlist, htouches, hrest⟩ := ih (fun j hj => hvalid j (by omega))
        (List.nodup_append.mp hnodup).1 fun f hf => hlt f (List.mem_append_left _ hf)
      have hself := hrest i (Nat.le_refl i)
      have hf : ((m.releaseKernelStack pid i).pte (.kernelStack pid) i).pfn
          ∉ free ++ m.tableFrames (.kernelStack pid) 0 i := by
        rw [hself]
        exact fun hmem =>
          (List.nodup_append.mp hnodup).2.2 _ hmem _ (List.mem_singleton_self _) rfl
      obtain ⟨hlist', htouches', hrest'⟩ := freeEntry_list hlist hf
        (by rw [hself]; exact hlt _ (by simp))
      rw [hself] at hlist' htouches'
      rw [releaseKernelStack_succ]
      refine ⟨hlist', (htouches.mono fun f => List.mem_append_left _).trans htouches',
        fun j hj => ?_⟩
      rw [hrest' j (by omega), hrest j (by omega)]

/-! ## Taking frames -/

/-- A frame is taken into an entry. The list is the rest of the old one. -/
theorem takeFrame_list {f : Nat} (h : m.FreeList (f :: free)) (t : PageTable) (i prot : Nat)
    (e : Pte) :
    ∃ m₁, (m.setPte t i e).getUnusedFrame ⟨t, i⟩ = (SUCCESS, m₁) ∧
      (m₁.modifyPte t i fun e => { e with prot := prot, valid := true }).FreeList free ∧
      Touches t [] m (m₁.modifyPte t i fun e => { e with prot := prot, valid := true }) ∧
      m₁.pte t i = { e with pfn := f } ∧
      (m₁.modifyPte t i fun e => { e with prot := prot, valid := true }).pte t i
        = { valid := true, prot := prot, pfn := f } ∧
      ∀ j, j ≠ i →
        (m₁.modifyPte t i fun e => { e with prot := prot, valid := true }).pte t j = m.pte t j := by
  obtain ⟨head, tail, tlb, m₁, hget, rfl, hlist⟩ := getUnusedFrame_cons (h.setPte t i e) ⟨t, i⟩
  refine ⟨_, hget, hlist.setPte _ _ _, ⟨⟨fun hne j => ?_, rfl, rfl, rfl⟩, fun _ _ => rfl⟩, ?_, ?_,
    fun j hj => ?_⟩
  · simp [modifyPte, Machine.setPte, hne]
  · simp [Machine.setPte]
  · simp [modifyPte, Machine.setPte]
  · simp [modifyPte, Machine.setPte, hj]

/-- What a stage of a fork does to the free list `free`, of which it has taken `taken`
before: it takes `n` frames more, or finds too few and gives back all it has taken. -/
inductive Stage (t : PageTable) (m m' : Machine) (taken free : List Nat) (n : Nat) (rc : Int) :
    Prop
  | success (hrc : rc = SUCCESS) (enough : n ≤ free.length) (list : m'.FreeList (free.drop n))
      (touches : Touches t [] m m')
  | error (hrc : rc = ERROR) (few : free.length < n) (list : m'.FreeList (taken ++ free))
      (touches : Touches t (taken ++ free) m m')

theorem Stage.cons {f : Nat} {rc : Int} (h : Stage t m₁ m' (taken ++ [f]) free n rc)
    (htouches : Touches t [] m m₁) : Stage t m m' taken (f :: free) (n + 1) rc := by
  have hall : taken ++ [f] ++ free = taken ++ f :: free := by simp
  cases h with
  | success hrc hn hlist htouches' =>
      refine .success hrc (Nat.succ_le_succ hn) ?_ (htouches.trans htouches')
      rwa [List.drop_succ_cons]
  | error hrc hn hlist htouches' =>
      rw [hall] at hlist htouches'
      exact .error hrc (Nat.succ_lt_succ hn) hlist
        ((htouches.mono fun f hf => by cases hf).trans htouches')

/-- The loop of `NewBlankPCBWithPageTables` takes a frame for each entry, or gives back what
it has taken. -/
theorem newKernelStackLoop_list (h : m.FreeList free)
    (hvalid : ∀ j < i, (m.pte (.kernelStack pid) j).valid = true)
    (htaken : m.tableFrames (.kernelStack pid) 0 i = taken) (hnodup : (taken ++ free).Nodup)
    (hlt : ∀ f ∈ taken ++ free, f < 0x80000000) :
    Stage (.kernelStack pid) m (m.newKernelStackLoop pid i n).2 taken free n
      (m.newKernelStackLoop pid i n).1 := by
  induction n generalizing m free taken i with
  | zero => exact .success rfl (Nat.zero_le _) h .refl
  | succ n ih =>
      cases free with
      | nil =>
          simp only [Machine.newKernelStackLoop, getUnusedFrame_nil h, if_true]
          rw [List.append_nil] at hnodup hlt
          -- No frame is left: the entries below this one go back.
          obtain ⟨hlist, htouches, -⟩ := releaseKernelStack_list h hvalid
            (by rwa [htaken, List.nil_append]) (by rwa [htaken])
          rw [htaken, List.nil_append] at hlist htouches
          refine .error rfl (Nat.succ_pos n) ?_ ?_
          · rwa [List.append_nil]
          · rwa [List.append_nil]
      | cons f free =>
          obtain ⟨m₁, hget, hlist, htouches, -, hself, hrest⟩ := takeFrame_list h
            (.kernelStack pid) i (PROT_READ ||| PROT_WRITE) (m.pte (.kernelStack pid) i)
          rw [setPte_self] at hget
          simp only [Machine.newKernelStackLoop, hget, show ¬ SUCCESS = ERROR by decide, if_false]
          generalize m₁.modifyPte (.kernelStack pid) i _ = m₂ at hlist htouches hself hrest ⊢
          have hall : taken ++ [f] ++ free = taken ++ f :: free := by simp
          have htaken₂ : m₂.tableFrames (.kernelStack pid) 0 (i + 1) = taken ++ [f] := by
            rw [tableFrames_concat, Nat.zero_add, hself, if_pos rfl,
              tableFrames_congr fun j _ hj => hrest j (by omega), htaken]
          refine Stage.cons (ih hlist (fun j hj => ?_) htaken₂ (by rwa [hall]) (by rwa [hall])) htouches
          by_cases hji : j = i
          · rw [hji, hself]
          · rw [hrest j hji]
            exact hvalid j (by omega)

/-- The first loop of `CopyRegion1PageTableAndData` takes a frame for each valid entry of the
source, or gives back what it has taken. -/
theorem allocRegion1Copy_list {source dest : Nat} (hne : source ≠ dest) (h : m.FreeList free)
    (hempty : ∀ j, i ≤ j → j < i + n → (m.pte (.region1 dest) j).valid = false)
    (htaken : m.tableFrames (.region1 dest) 0 i = taken) (hnodup : (taken ++ free).Nodup)
    (hlt : ∀ f ∈ taken ++ free, f < 0x80000000) :
    Stage (.region1 dest) m (m.allocRegion1Copy source dest i n).2 taken free
      (m.validCount (.region1 source) i n) (m.allocRegion1Copy source dest i n).1 := by
  have htables : PageTable.region1 source ≠ .region1 dest := fun he => hne (by cases he; rfl)
  induction n generalizing m free taken i with
  | zero => exact .success rfl (Nat.zero_le _) h .refl
  | succ n ih =>
      have hdest := hempty i (Nat.le_refl i) (by omega)
      simp only [Machine.allocRegion1Copy]
      rw [validCount_succ]
      split
      case isFalse =>
        refine ih h (fun j hj hj' => hempty j (by omega) (by omega)) ?_ hnodup hlt
        rw [tableFrames_concat, Nat.zero_add, hdest, if_neg (by simp), List.append_nil, htaken]
      case isTrue =>
        cases free with
        | nil =>
            have hnil : (m.modifyPte (.region1 dest) i fun e =>
                { e with valid := true, prot := PROT_WRITE }).FreeList [] := h.setPte _ _ _
            simp only [getUnusedFrame_nil hnil, if_true]
            -- The entry that found no frame is not among those that are given back.
            have hframes : (m.modifyPte (.region1 dest) i fun e =>
                { e with valid := true, prot := PROT_WRITE }).tableFrames (.region1 dest) 0 i
                  = taken :=
              (tableFrames_congr fun j _ hj =>
                setPte_pte_of_ne _ _ fun he => absurd he.2 (by omega)).trans htaken
            rw [List.append_nil] at hnodup hlt
            obtain ⟨hlist, htouches⟩ := freePageTable_list hnil
              (by rwa [hframes, List.nil_append]) (by rwa [hframes])
            rw [hframes, List.nil_append] at hlist htouches
            refine .error rfl (Nat.succ_pos _) ?_ ?_
            · rwa [List.append_nil]
            · rw [List.append_nil]
              exact Touches.trans ⟨OnlyTable.setPte i _, fun _ _ => rfl⟩ htouches
        | cons f free =>
            obtain ⟨m₁, hget, hlist, htouches, hentry, hself, hrest⟩ := takeFrame_list h
              (.region1 dest) i PROT_WRITE
              { m.pte (.region1 dest) i with valid := true, prot := PROT_WRITE }
            have hget' : (m.modifyPte (.region1 dest) i fun e =>
                { e with valid := true, prot := PROT_WRITE }).getUnusedFrame ⟨.region1 dest, i⟩
                = (SUCCESS, m₁) := hget
            have hm : (m₁.modifyPte (.region1 dest) i fun e =>
                { e with prot := PROT_WRITE, valid := true }) = m₁ := by
              rw [modifyPte, hentry]
              exact (congrArg (m₁.setPte (.region1 dest) i) hentry.symm).trans (setPte_self _ _ _)
            rw [hm] at hlist htouches hself hrest
            simp only [hget', show ¬ SUCCESS = ERROR by decide, if_false]
            have hall : taken ++ [f] ++ free = taken ++ f :: free := by simp
            have htaken₁ : m₁.tableFrames (.region1 dest) 0 (i + 1) = taken ++ [f] := by
              rw [tableFrames_concat, Nat.zero_add, hself, if_pos rfl,
                tableFrames_congr fun j _ hj => hrest j (by omega), htaken]
            have hcount : m₁.validCount (.region1 source) (i + 1) n
                = m.validCount (.region1 source) (i + 1) n :=
              validCount_congr fun j _ _ => htouches.pte htables j
            have hstage := ih hlist (fun j hj hj' => ?_) htaken₁ (by rwa [hall]) (by rwa [hall])
            · rw [hcount] at hstage
              exact hstage.cons htouches
            · rw [hrest j (by omega)]
              exact hempty j (by omega) (by omega)

/-! ## The two stages -/

/-- The machine after `NewBlankPCBWithPageTables` has made its two tables, without frames. -/
def withBlankTables (m : Machine) (pid : Nat) : Machine :=
  (m.createRegion1PageTable pid).callocPageTable (.kernelStack pid) NUM_KERNEL_PAGES

theorem withBlankTables_pte (ht : t ≠ .region1 pid) (ht' : t ≠ .kernelStack pid) (j : Nat) :
    (m.withBlankTables pid).pte t j = m.pte t j := by
  simp [withBlankTables, createRegion1PageTable, callocPageTable, ht, ht']

theorem newPageTables_list (h : m.FreeList free) (hlt : ∀ f ∈ free, f < 0x80000000) (pid : Nat) :
    Stage (.kernelStack pid) (m.withBlankTables pid) (m.newPageTables pid).2 [] free
      NUM_KERNEL_PAGES (m.newPageTables pid).1 := by
  have hlist : (m.withBlankTables pid).FreeList free := h.congr rfl rfl fun _ _ => rfl
  exact newKernelStackLoop_list hlist (fun j hj => absurd hj (Nat.not_lt_zero j)) rfl h.nodup hlt

/-- `CopyRegion1PageTableAndData` fails when its first loop does, and only then. -/
theorem copyRegion1PageTableAndData_error {source dest : Nat} {rc : Int}
    (hok : m.copyRegion1PageTableAndData source dest = .ok (rc, m')) :
    rc = ERROR ↔ (m.allocRegion1Copy source dest 0 NUM_PAGES_REG_1).1 = ERROR := by
  unfold Machine.copyRegion1PageTableAndData at hok
  dsimp only at hok
  rcases ite_eq_ok hok with ⟨hrc, hok⟩ | ⟨hrc, hok⟩
  · cases hok
    exact ⟨fun _ => hrc, fun _ => rfl⟩
  · obtain ⟨m₁, -, hok⟩ := bind_eq_ok.mp hok
    obtain ⟨m₂, -, hok⟩ := bind_eq_ok.mp hok
    cases hok
    exact ⟨fun he => absurd he (by decide), fun he => absurd he hrc⟩

theorem copyRegion1PageTableAndData_of_error {source dest : Nat}
    (h : (m.allocRegion1Copy source dest 0 NUM_PAGES_REG_1).1 = ERROR) :
    m.copyRegion1PageTableAndData source dest
      = .ok (ERROR, (m.allocRegion1Copy source dest 0 NUM_PAGES_REG_1).2) := by
  unfold Machine.copyRegion1PageTableAndData
  dsimp only
  rw [if_pos h]
  rfl

/-- The copy of region 1 into the table of a process whose stack has just been made. -/
theorem allocRegion1Copy_blank {source : Nat} (hne : source ≠ pid)
    (hm₁ : Touches (.kernelStack pid) [] (m.withBlankTables pid) m₁) (h : m₁.FreeList free)
    (hlt : ∀ f ∈ free, f < 0x80000000) :
    Stage (.region1 pid) m₁ (m₁.allocRegion1Copy source pid 0 NUM_PAGES_REG_1).2 [] free
      (m.validCount (.region1 source) 0 NUM_PAGES_REG_1)
      (m₁.allocRegion1Copy source pid 0 NUM_PAGES_REG_1).1 := by
  have hcount : m₁.validCount (.region1 source) 0 NUM_PAGES_REG_1
      = m.validCount (.region1 source) 0 NUM_PAGES_REG_1 := by
    have htable : PageTable.region1 source ≠ .region1 pid := fun he => hne (by cases he; rfl)
    have hstack : PageTable.region1 source ≠ .kernelStack pid := by simp
    refine validCount_congr fun j _ _ => (hm₁.pte hstack j).trans ?_
    exact withBlankTables_pte htable hstack j
  rw [← hcount]
  refine allocRegion1Copy_list hne h (fun j _ hj => ?_) rfl h.nodup hlt
  have hstack : PageTable.region1 pid ≠ .kernelStack pid := by simp
  rw [hm₁.pte hstack]
  have hj' : j < NUM_PAGES_REG_1 := by omega
  simp [withBlankTables, createRegion1PageTable, callocPageTable, hj']

/-! ## Reading the free list -/

/-- The frames from `f` to the tail of the free list, if there are at most `n`. -/
def framesFrom (m : Machine) (f : Int) : Nat → Option (List Nat)
  | 0 => none
  | n + 1 =>
    if f < 0 then none
    else if f = m.freeFramesTail then some [f.toNat]
    else (m.framesFrom (m.nextFree f) n).map (f.toNat :: ·)

/-- The free list, if it has at most `n` frames. -/
def freeFrames (m : Machine) (n : Nat) : Option (List Nat) :=
  if m.freeFramesHead < 0 then some [] else m.framesFrom m.freeFramesHead n

theorem walk_of_framesFrom {f : Int} (h : m.framesFrom f n = some free) :
    Lib.Walk m.nextFree m.freeFramesTail f (free.map fun g : Nat => (g : Int)) := by
  induction n generalizing f free with
  | zero => cases h
  | succ n ih =>
      unfold framesFrom at h
      split at h
      · cases h
      rename_i hpos
      have hf : ((f.toNat : Nat) : Int) = f := Int.toNat_of_nonneg (Int.not_lt.mp hpos)
      split at h
      · rename_i htail
        cases h
        rw [List.map_singleton, hf, htail]
        exact .last
      · rename_i htail
        obtain ⟨rest, hrest, rfl⟩ := Option.map_eq_some_iff.mp h
        rw [List.map_cons, hf]
        exact .step htail (ih hrest)

theorem freeList_of_freeFrames (h : m.freeFrames n = some free) : m.FreeList free := by
  unfold freeFrames at h
  split at h
  · rename_i hneg
    cases h
    exact hneg
  · have hwalk := walk_of_framesFrom h
    cases free with
    | nil => exact absurd rfl hwalk.ne_nil
    | cons f free => exact hwalk

end

end Machine

/-! ## `KernelFork` -/

namespace Kernel

/-- `KernelFork` has failed: it has returned `ERROR` to the caller. -/
def ForkFails (k k' : Kernel) : Prop :=
  k.kernelFork = .ok k' ∧ k'.mode = .user ∧ k'.userContext = k.userContext.setResult ERROR

/-- A fork has changed nothing but the pid counter: the same frames are free, the others hold
the same, the page tables of all processes are the same, and so are the child lists and the
queues. -/
structure ForkHarmless (k k' : Kernel) : Prop where
  frames : ∀ free, k.machine.FreeList free →
    ∃ free', k'.machine.FreeList free' ∧ ∀ f, f ∈ free' ↔ f ∈ free
  memory : ∀ free, k.machine.FreeList free → ∀ f, f ∉ free →
    k'.machine.frame f = k.machine.frame f
  tables : ∀ t, t ≠ .region1 k.nextPid → t ≠ .kernelStack k.nextPid →
    k'.machine.pte t = k.machine.pte t
  ptbr1 : k'.machine.ptbr1 = k.machine.ptbr1
  spaces : ∀ p, (k'.space p).lowestUserStackPage = (k.space p).lowestUserStackPage ∧
    (k'.space p).userBrkPage = (k.space p).userBrkPage
  sched : k'.toSched = { k.toSched with nextPid := k.nextPid + 1 }

/-- The frames do not run out while region 1 is copied: there are too few for the kernel stack
already, or enough for the copy too. -/
def CopyHasFrames (k : Kernel) : Prop :=
  ∀ free, k.machine.FreeList free → free.length < NUM_KERNEL_PAGES ∨
    NUM_KERNEL_PAGES + k.machine.validCount (.region1 k.currentProc) 0 NUM_PAGES_REG_1
      ≤ free.length

/-- The state after a fork that fails and leaves the machine `m`. -/
def afterFailedFork (k : Kernel) (m : Machine) : Kernel :=
  ({ k.saveUserContext.withSched { k.toSched with nextPid := k.nextPid + 1 } with
    machine := m }).ret ERROR

/-- The state in which a fork switches to the child, after it has left the machine `m`. -/
def forked (k : Kernel) (m : Machine) : Kernel :=
  let k := { k.saveUserContext.withSched { k.toSched with nextPid := k.nextPid + 1 } with
    machine := m }
  let child := k.nextPid - 1
  let k := k.setSpace child (k.space k.currentProc)
  k.withSched ((k.toSched.addChild child).ready k.currentProc)

section
variable {k k' : Kernel} {free : List Nat}

/-- A list without its first elements is not the same set. -/
theorem drop_ne (hnodup : free.Nodup) (hlen : NUM_KERNEL_PAGES ≤ free.length) :
    ¬ ∀ f, f ∈ free.drop NUM_KERNEL_PAGES ↔ f ∈ free := by
  cases free with
  | nil => exact absurd hlen (by decide)
  | cons f free =>
      intro hsame
      have hmem := (hsame f).mpr List.mem_cons_self
      rw [List.drop_succ_cons] at hmem
      exact (List.nodup_cons.mp hnodup).1 (List.mem_of_mem_drop hmem)

/-- The two stages of a fork, of which each can fail. -/
theorem kernelFork_eq (k : Kernel) :
    k.kernelFork = if (k.machine.newPageTables k.nextPid).1 = ERROR then
        .ok (k.afterFailedFork (k.machine.newPageTables k.nextPid).2)
      else
        (k.machine.newPageTables k.nextPid).2.copyRegion1PageTableAndData k.currentProc k.nextPid
          >>= fun r => if r.1 = ERROR then .ok (k.afterFailedFork r.2)
            else (k.forked r.2).switchToProc k.nextPid (.kernelFork k.nextPid) :=
  rfl

/-- A switch leaves the kernel running. -/
theorem mode_switchToProc {next : Pid} {c : KernelContext} (h : k.switchToProc next c = .ok k') :
    k'.mode = .kernel := by
  rw [switchToProc_sched h]
  rfl

/-- A fork fails in one of its two stages. -/
theorem kernelFork_failed (hok : k.kernelFork = .ok k') (hmode : k'.mode = .user) :
    (∃ m, k.machine.newPageTables k.nextPid = (ERROR, m) ∧ k' = k.afterFailedFork m) ∨
      (k.machine.newPageTables k.nextPid).1 ≠ ERROR ∧
        ∃ m, (k.machine.newPageTables k.nextPid).2.copyRegion1PageTableAndData k.currentProc
          k.nextPid = .ok (ERROR, m) ∧ k' = k.afterFailedFork m := by
  rw [kernelFork_eq] at hok
  rcases ite_eq_ok hok with ⟨hrc, hok⟩ | ⟨hrc, hok⟩
  · exact .inl ⟨_, Prod.ext hrc rfl, (Except.ok.inj hok).symm⟩
  · obtain ⟨⟨rc, m⟩, hcopy, hok⟩ := bind_eq_ok.mp hok
    rcases ite_eq_ok hok with ⟨hrc', hok⟩ | ⟨-, hok⟩
    · dsimp only at hrc'
      subst hrc'
      exact .inr ⟨hrc, m, hcopy, (Except.ok.inj hok).symm⟩
    · rw [mode_switchToProc hok] at hmode
      cases hmode

/-- A fork that gives back all frames is harmless. -/
theorem harmless_afterFailedFork {m : Machine} (hmode : k.mode = .user)
    (hlist : k.machine.FreeList free) (hlist' : m.FreeList free)
    (htouches : Machine.Touches (.kernelStack k.nextPid) free
      (k.machine.withBlankTables k.nextPid) m) : ForkHarmless k (k.afterFailedFork m) where
  frames free₁ h₁ := ⟨free, hlist', fun f => by rw [hlist.unique h₁]⟩
  memory free₁ h₁ f hf := htouches.frame f (hlist.unique h₁ ▸ hf)
  tables t ht ht' := by
    funext j
    exact (htouches.pte ht' j).trans (Machine.withBlankTables_pte ht ht' j)
  ptbr1 := htouches.ptbr1
  spaces p := by
    by_cases hp : p = k.currentProc
    · simp [afterFailedFork, Kernel.ret, withSched, saveUserContext, setSpace, hp]
    · simp [afterFailedFork, Kernel.ret, withSched, saveUserContext, setSpace, hp]
  sched := by
    show ({ ({ k.toSched with nextPid := k.nextPid + 1 } : Sched) with mode := .user } : Sched) = _
    rw [← hmode]

/-- A fork whose frames run out while region 1 is copied has lost those of the kernel stack. -/
theorem kernelFork_leaks (hlist : k.machine.FreeList free)
    (hlt : ∀ f ∈ free, f < 0x80000000) (hfresh : k.currentProc ≠ k.nextPid)
    (hstack : NUM_KERNEL_PAGES ≤ free.length)
    (hcopy : free.length
      < NUM_KERNEL_PAGES + k.machine.validCount (.region1 k.currentProc) 0 NUM_PAGES_REG_1) :
    ∃ k', ForkFails k k' ∧ k'.machine.FreeList (free.drop NUM_KERNEL_PAGES) := by
  cases Machine.newPageTables_list hlist hlt k.nextPid with
  | error _ hfew _ _ => exact absurd hstack (Nat.not_le.mpr hfew)
  | success hrc₁ _ hlist₁ htouches₁ =>
      have hlt₁ : ∀ f ∈ free.drop NUM_KERNEL_PAGES, f < 0x80000000 :=
        fun f hf => hlt f (List.mem_of_mem_drop hf)
      cases Machine.allocRegion1Copy_blank hfresh htouches₁ hlist₁ hlt₁ with
      | success _ hmany _ _ =>
          rw [List.length_drop] at hmany
          omega
      | error hrc₂ _ hlist₂ _ =>
          refine ⟨k.afterFailedFork _, ⟨?_, rfl, rfl⟩, hlist₂⟩
          have hcopied := Machine.copyRegion1PageTableAndData_of_error hrc₂
          have hne : ¬ (k.machine.newPageTables k.nextPid).1 = ERROR := by
            rw [hrc₁]
            decide
          rw [kernelFork_eq, if_neg hne, hcopied]
          rfl

/-- A fork that fails is harmless when the frames do not run out while region 1 is copied. -/
theorem forkFails_harmless (hlist : k.machine.FreeList free) (hlt : ∀ f ∈ free, f < 0x80000000)
    (hfresh : k.currentProc ≠ k.nextPid) (hmode : k.mode = .user) (hframes : k.CopyHasFrames)
    (hfails : ForkFails k k') : ForkHarmless k k' := by
  obtain ⟨hok, hmode', -⟩ := hfails
  have hstage := Machine.newPageTables_list hlist hlt k.nextPid
  rcases kernelFork_failed hok hmode' with ⟨m, hnew, rfl⟩ | ⟨hnew, m, hcopy, rfl⟩
  · rw [hnew] at hstage
    cases hstage with
    | success hrc _ _ _ => exact absurd (show ERROR = SUCCESS from hrc) (by decide)
    | error _ _ hlist' htouches => exact harmless_afterFailedFork hmode hlist hlist' htouches
  · cases hstage with
    | error hrc _ _ _ => exact absurd hrc hnew
    | success _ hstack hlist₁ htouches₁ =>
        have hlt₁ : ∀ f ∈ free.drop NUM_KERNEL_PAGES, f < 0x80000000 :=
          fun f hf => hlt f (List.mem_of_mem_drop hf)
        have halloc := (Machine.copyRegion1PageTableAndData_error hcopy).mp rfl
        -- The second stage has failed, although there were frames for it.
        cases Machine.allocRegion1Copy_blank hfresh htouches₁ hlist₁ hlt₁ with
        | success hrc _ _ _ =>
            rw [halloc] at hrc
            exact absurd hrc (by decide)
        | error _ hfew _ _ =>
            rw [List.length_drop] at hfew
            rcases hframes free hlist with hnone | hall
            · omega
            · omega

end

end Kernel

open Kernel

/-- In every state of every run, a fork that fails changes nothing exactly when the frames do
not run out while region 1 is copied. -/
theorem failed_fork_harmless_iff {b : BootImage} {k : Kernel} (h : Reachable b k)
    (mode : k.mode = .user) : (∀ k', ForkFails k k' → ForkHarmless k k') ↔ k.CopyHasFrames := by
  obtain ⟨free, hiso⟩ := (reachable_apart h).isolated
  have hrun := (reachable_running h).2
  have hfresh : k.currentProc ≠ k.nextPid := by
    have hlive := hrun.current.resolve_left id
    have hlt := hrun.pcbLt _ (Bool.and_eq_true _ _ ▸ hlive).1
    exact Nat.ne_of_lt hlt
  constructor
  · intro hharmless free₁ h₁
    rw [← hiso.list.unique h₁]
    by_contra hshort
    rw [not_or, Nat.not_lt, Nat.not_le] at hshort
    obtain ⟨k', hfails, hlist'⟩ := kernelFork_leaks hiso.list hiso.freeSmall hfresh hshort.1 hshort.2
    obtain ⟨free', h', hsame⟩ := (hharmless k' hfails).frames free hiso.list
    rw [← hlist'.unique h'] at hsame
    exact absurd hsame (drop_ne hiso.list.nodup hshort.1)
  · intro hframes k' hfails
    exact forkFails_harmless hiso.list hiso.freeSmall hfresh mode hframes hfails

/-- Init grows its heap until five frames are free. It has fifteen pages. -/
def growHeap : List Event := initRuns ++ [systemCall YALNIX_BRK 0x11C000 0 0]

/-- A fork finds no frames for the copy of region 1, and two frames are lost. -/
theorem failed_fork_leaks : ∃ k k', Kernel.run smallImage growHeap = some k ∧
    Reachable smallImage k ∧ k.machine.FreeList [131, 132, 133, 134, 135] ∧ ForkFails k k' ∧
    k'.machine.FreeList [133, 134, 135] ∧ ¬ ForkHarmless k k' := by
  have hsome : ((Kernel.run smallImage growHeap).map fun k =>
      (k.machine.freeFrames 5, (k.currentProc, k.nextPid),
        k.machine.validCount (.region1 k.currentProc) 0 NUM_PAGES_REG_1))
        = some (some [131, 132, 133, 134, 135], (1, 2), 15) := by decide +kernel
  obtain ⟨k, hrun, heq⟩ := Option.map_eq_some_iff.mp hsome
  simp only [Prod.mk.injEq] at heq
  obtain ⟨hfree, ⟨hcur, hnext⟩, hcount⟩ := heq
  have hlist := Machine.freeList_of_freeFrames hfree
  obtain ⟨k', hfails, hlist'⟩ := kernelFork_leaks hlist (by decide) (by rw [hcur, hnext]; decide)
    (by decide) (by rw [hcount]; decide)
  refine ⟨k, k', hrun, .of_run hrun, hlist, hfails, hlist', fun hharmless => ?_⟩
  obtain ⟨free', h', hsame⟩ := hharmless.frames _ hlist
  rw [← hlist'.unique h'] at hsame
  exact absurd ((hsame 131).mpr (by decide)) (by decide)

/-- Init grows its heap until one frame is free. A fork finds too few for the kernel stack of
the child, and changes nothing. -/
theorem failed_fork_harmless_iff_init : ∃ k k',
    Kernel.run smallImage (growHeap ++ [systemCall YALNIX_BRK 0x124000 0 0]) = some k ∧
    k.machine.FreeList [135] ∧ ForkFails k k' ∧ ForkHarmless k k' := by
  have hsome : ((Kernel.run smallImage (growHeap ++ [systemCall YALNIX_BRK 0x124000 0 0])).map
      fun k => (k.machine.freeFrames 1, k.mode, (k.machine.newPageTables k.nextPid).1))
        = some (some [135], .user, ERROR) := by decide +kernel
  obtain ⟨k, hrun, heq⟩ := Option.map_eq_some_iff.mp hsome
  simp only [Prod.mk.injEq] at heq
  obtain ⟨hfree, hmode, hrc⟩ := heq
  have hlist := Machine.freeList_of_freeFrames hfree
  have hfails : ForkFails k (k.afterFailedFork (k.machine.newPageTables k.nextPid).2) :=
    ⟨by rw [kernelFork_eq, if_pos hrc], rfl, rfl⟩
  refine ⟨k, _, hrun, hlist, hfails, (failed_fork_harmless_iff (.of_run hrun) hmode).mpr ?_ _
    hfails⟩
  intro free hfree'
  rw [hfree'.unique hlist]
  exact .inl (by decide)

end Theynix
