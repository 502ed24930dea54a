import Theynix.Fork

/-!
# `Theynix.MapPages`: mapping a range of pages is all or nothing

`MapNewRegion1Pages` takes the frames of its range one by one, and when they run out it
unmaps what it has mapped. The frames it took are then the whole free list, and they are
given back in the order in which they were taken, so the list is the one from before.

The results need only the free list of the machine. Which process a table belongs to, what
the other entries name and whether `REG_PTBR1` names the table does not matter.

* `mapNewRegion1Pages_list`: every call on unmapped pages of the table returns, with all
  pages of the range mapped or with the free list and the valid pages of before.
* `map_all_or_nothing`: the same as properties of the table and of the set of free frames.
-/

set_option autoImplicit false

namespace Theynix

open Theynix.Lib (bind_eq_ok ite_eq_ok)

namespace Machine

section
variable {m m' m₁ m₂ : Machine} {free taken : List Nat} {pid : Pid}

/-! ## Unmapping -/

/-- `UnmapRegion1Pages` on valid pages returns, and gives their frames back in order. -/
theorem unmapLoop_list (pid : Pid) {p n : Nat} (h : m.FreeList free)
    (hvalid : ∀ i, p ≤ i → i < p + n → i < NUM_PAGES_REG_1 ∧ (m.pte (.region1 pid) i).valid = true)
    (hnodup : (free ++ m.tableFrames (.region1 pid) p n).Nodup)
    (hlt : ∀ f ∈ m.tableFrames (.region1 pid) p n, f < 0x80000000) :
    ∃ m', m.unmapRegion1PagesLoop pid p n = .ok m' ∧
      m'.FreeList (free ++ m.tableFrames (.region1 pid) p n) ∧
      Touches (.region1 pid) (free ++ m.tableFrames (.region1 pid) p n) m m' ∧
      (∀ i, p ≤ i → i < p + n → m'.pte (.region1 pid) i
        = { m.pte (.region1 pid) i with valid := false }) ∧
      ∀ i, ¬ (p ≤ i ∧ i < p + n) → m'.pte (.region1 pid) i = m.pte (.region1 pid) i := by
  induction n generalizing m free p with
  | zero =>
      refine ⟨m, rfl, ?_, .refl, fun i hi hi' => by omega, fun _ _ => rfl⟩
      show m.FreeList (free ++ [])
      rwa [List.append_nil]
  | succ n ih =>
      obtain ⟨hp, hv⟩ := hvalid p (Nat.le_refl p) (by omega)
      rw [tableFrames_succ, if_pos hv] at hnodup hlt ⊢
      rw [← List.append_assoc] at hnodup ⊢
      -- The frame is not free yet, so the list takes it at its end.
      have hfresh : (m.pte (.region1 pid) p).pfn ∉ free := by
        have hfirst := (List.nodup_append.mp hnodup).1
        exact fun hmem => (List.nodup_append.mp hfirst).2.2 _ hmem _ (List.mem_singleton_self _) rfl
      obtain ⟨hsame, hlist, hframe⟩ := releaseUsedFrame_spec h hfresh (hlt _ (by simp))
      generalize hm₁ : (m.releaseUsedFrame (m.pte (.region1 pid) p).pfn).modifyPte (.region1 pid) p
        (fun e => { e with valid := false }) = m₁
      have hlist₁ : m₁.FreeList (free ++ [(m.pte (.region1 pid) p).pfn]) := by
        rw [← hm₁]
        exact hlist.setPte _ _ _
      have hself : m₁.pte (.region1 pid) p = { m.pte (.region1 pid) p with valid := false } := by
        rw [← hm₁, modifyPte, setPte_pte_self, hsame.pte]
      have hrest : ∀ i, i ≠ p → m₁.pte (.region1 pid) i = m.pte (.region1 pid) i := by
        intro i hne
        rw [← hm₁, modifyPte, setPte_pte_of_ne _ _ fun he => hne he.2, hsame.pte]
      have htouches : Touches (.region1 pid) (free ++ [(m.pte (.region1 pid) p).pfn]) m m₁ := by
        rw [← hm₁]
        refine ⟨(OnlyTable.of_sameTables hsame).trans (.setPte p _), fun g hg => ?_⟩
        rw [List.mem_append, List.mem_singleton, not_or] at hg
        exact hframe g hg.1 hg.2
      have hframes : m₁.tableFrames (.region1 pid) (p + 1) n
          = m.tableFrames (.region1 pid) (p + 1) n :=
        tableFrames_congr fun j hj _ => hrest j (by omega)
      obtain ⟨m', hrun, hlist', htouches', hin, hout⟩ := ih hlist₁
        (fun i hi hi' => by
          rw [hrest i (by omega)]
          exact hvalid i (by omega) (by omega))
        (by rwa [hframes]) fun f hf => hlt f (List.mem_append_right _ (hframes ▸ hf))
      rw [hframes] at hlist' htouches'
      refine ⟨m', ?_, hlist', (htouches.mono fun f => List.mem_append_left _).trans htouches',
        fun i hi hi' => ?_, fun i hi => ?_⟩
      · simp only [unmapRegion1PagesLoop, cAssert, hp, hv, decide_true, if_true, Lib.ok_bind, hm₁]
        exact hrun
      · by_cases hip : i = p
        · rw [hip, hout p (by omega), hself]
        · rw [hin i (by omega) (by omega), hrest i hip]
      · rw [hout i (by omega), hrest i (by omega)]

/-! ## Mapping -/

/-- What `MapNewRegion1Pages` has done when it returns: the pages from `p` on are mapped to
the first free frames, or the pages from `start` on are unmapped and the frames `taken` for
them are free again. -/
inductive MappedList (m m' : Machine) (taken free : List Nat) (pid start p n prot : Nat) :
    Int → Prop
  | success (enough : n ≤ free.length) (list : m'.FreeList (free.drop n))
      (touches : Touches (.region1 pid) [] m m')
      (mapped : ∀ j (hj : j < n), m'.pte (.region1 pid) (p + j)
        = { valid := true, prot := prot, pfn := free.get ⟨j, Nat.lt_of_lt_of_le hj enough⟩ })
      (others : ∀ i, ¬ (p ≤ i ∧ i < p + n) → m'.pte (.region1 pid) i = m.pte (.region1 pid) i) :
      MappedList m m' taken free pid start p n prot SUCCESS
  | error (few : free.length < n) (list : m'.FreeList (taken ++ free))
      (touches : Touches (.region1 pid) (taken ++ free) m m')
      (unmapped : ∀ i, start ≤ i → i < p + n → (m'.pte (.region1 pid) i).valid = false)
      (others : ∀ i, ¬ (start ≤ i ∧ i < p + n) →
        m'.pte (.region1 pid) i = m.pte (.region1 pid) i) :
      MappedList m m' taken free pid start p n prot ERROR

theorem MappedList.result {start p n prot : Nat} {rc : Int}
    (h : MappedList m m' taken free pid start p n prot rc) : rc = ERROR ∨ rc = SUCCESS := by
  cases h with
  | success _ _ _ _ _ => exact .inr rfl
  | error _ _ _ _ _ => exact .inl rfl

/-- The loop of `MapNewRegion1Pages` returns when its pages are unmapped. -/
theorem mapLoop_list {start p n prot : Nat} (h : m.FreeList free) (hstart : start ≤ p)
    (hfilled : ∀ i, start ≤ i → i < p → i < NUM_PAGES_REG_1 ∧ (m.pte (.region1 pid) i).valid = true)
    (hun : m.Unmapped pid p n) (htaken : m.tableFrames (.region1 pid) start (p - start) = taken)
    (hnodup : (taken ++ free).Nodup) (hlt : ∀ f ∈ taken ++ free, f < 0x80000000) :
    ∃ rc m', m.mapNewRegion1PagesLoop pid start prot p n = .ok (rc, m') ∧
      MappedList m m' taken free pid start p n prot rc := by
  induction n generalizing m free taken p with
  | zero =>
      exact ⟨SUCCESS, m, rfl, .success (Nat.zero_le _) h .refl
        (fun j hj => absurd hj (Nat.not_lt_zero j)) fun _ _ => rfl⟩
  | succ n ih =>
      obtain ⟨hp, hv⟩ := hun p (Nat.le_refl p) (by omega)
      have hp' : p < 128 := hp
      simp only [mapNewRegion1PagesLoop, cAssert, hp, hv, decide_true, if_true, Lib.ok_bind,
        Bool.not_false]
      cases free with
      | nil =>
          -- No frame is left: the pages mapped so far are unmapped again.
          rw [List.append_nil] at hnodup hlt
          have hcount : pagesFrom start (p - start) = p - start := by
            unfold pagesFrom
            omega
          obtain ⟨m', hrun, hlist, htouches, hin, hout⟩ := unmapLoop_list pid (p := start)
            (n := p - start) h (fun i hi hi' => hfilled i hi (by omega))
            (by rwa [htaken, List.nil_append]) (by rwa [htaken])
          rw [htaken, List.nil_append] at hlist htouches
          refine ⟨ERROR, m', ?_, .error (Nat.succ_pos n) ?_ ?_ (fun i hi hi' => ?_)
            fun i hi => hout i (by omega)⟩
          · rw [getUnusedFrame_nil h]
            simp only [if_true, unmapRegion1Pages, hcount, hrun, Lib.ok_bind]
            rfl
          · rwa [List.append_nil]
          · rwa [List.append_nil]
          · by_cases hip : i < p
            · rw [hin i hi (by omega)]
            · rw [hout i (by omega)]
              exact (hun i (by omega) hi').2
      | cons f free =>
          obtain ⟨m₁, hget, hlist, htouches, -, hself, hrest⟩ := takeFrame_list h (.region1 pid) p
            prot (m.pte (.region1 pid) p)
          rw [setPte_self] at hget
          rw [hget]
          simp only [show ¬ SUCCESS = ERROR by decide, if_false]
          generalize m₁.modifyPte (.region1 pid) p (fun e => { e with prot := prot, valid := true })
            = m₂ at hlist htouches hself hrest ⊢
          have hall : taken ++ [f] ++ free = taken ++ f :: free := by simp
          have hcount : p + 1 - start = p - start + 1 := by omega
          have hlast : start + (p - start) = p := by omega
          have htaken₂ : m₂.tableFrames (.region1 pid) start (p + 1 - start) = taken ++ [f] := by
            rw [hcount, tableFrames_concat, hlast, hself, if_pos rfl,
              tableFrames_congr fun j _ hj => hrest j (by omega), htaken]
          obtain ⟨rc, m', hrun, hmapped⟩ := ih hlist (by omega)
            (fun i hi hi' => by
              by_cases hip : i = p
              · rw [hip, hself]
                exact ⟨hp, rfl⟩
              · rw [hrest i hip]
                exact hfilled i hi (by omega))
            (fun i hi hi' => by
              rw [hrest i (by omega)]
              exact hun i (by omega) (by omega))
            htaken₂ (by rwa [hall]) (by rwa [hall])
          refine ⟨rc, m', hrun, ?_⟩
          cases hmapped with
          | success enough list touches mapped others =>
              refine .success (Nat.succ_le_succ enough) (by rwa [List.drop_succ_cons])
                (htouches.trans touches) (fun j hj => ?_) fun i hi => ?_
              · cases j with
                | zero =>
                    rw [Nat.add_zero, others p (by omega), hself]
                    rfl
                | succ j =>
                    rw [show p + (j + 1) = p + 1 + j by omega]
                    exact mapped j (by omega)
              · rw [others i (by omega), hrest i (by omega)]
          | error few list touches unmapped others =>
              rw [hall] at list touches
              refine .error (Nat.succ_lt_succ few) list
                ((htouches.mono fun f hf => by cases hf).trans touches)
                (fun i hi hi' => unmapped i hi (by omega)) fun i hi => ?_
              rw [others i (by omega), hrest i (by omega)]

/-- `MapNewRegion1Pages` on unmapped pages of the table returns, with the range mapped or
with everything as before. -/
theorem mapNewRegion1Pages_list (start num prot : Nat) (h : m.FreeList free)
    (hlt : ∀ f ∈ free, f < 0x80000000) (hun : m.Unmapped pid start num) :
    ∃ rc m', m.mapNewRegion1Pages pid start num prot = .ok (rc, m') ∧
      MappedList m m' [] free pid start start num prot rc := by
  have hcount : pagesFrom start num = num := by
    unfold pagesFrom
    cases num with
    | zero => omega
    | succ num =>
        have hlast : start + num < 128 := (hun (start + num) (by omega) (by omega)).1
        omega
  rw [mapNewRegion1Pages, hcount]
  refine mapLoop_list h (Nat.le_refl start) (fun i hi hi' => by omega) hun ?_ ?_ hlt
  · rw [Nat.sub_self]
    rfl
  · exact h.nodup

/-- The loop of `MapNewRegion1Pages` in two parts. -/
theorem mapLoop_add (pid start prot p a b : Nat) :
    m.mapNewRegion1PagesLoop pid start prot p (a + b)
      = m.mapNewRegion1PagesLoop pid start prot p a >>= fun r =>
          if r.1 = ERROR then .ok r else r.2.mapNewRegion1PagesLoop pid start prot (p + a) b := by
  induction a generalizing m p with
  | zero =>
      rw [Nat.zero_add]
      rfl
  | succ a ih =>
      rw [Nat.add_right_comm]
      simp only [mapNewRegion1PagesLoop]
      generalize cAssert (decide (p < NUM_PAGES_REG_1)) = inTable
      generalize cAssert (!(m.pte (.region1 pid) p).valid) = unmapped
      cases inTable with
      | error stop => rfl
      | ok _ =>
          cases unmapped with
          | error stop => rfl
          | ok _ =>
              simp only [Lib.ok_bind]
              split
              · -- The frames run out: the loop ends here in both.
                cases (m.getUnusedFrame ⟨.region1 pid, p⟩).2.unmapRegion1Pages pid start (p - start)
                  with
                | error stop => rfl
                | ok m' => rfl
              · rw [ih, Nat.add_assoc, Nat.add_comm 1 a]

/-- `MapNewRegion1Pages` on a range whose page `j` is mapped, as the first one. It trips the
`assert` when there are frames for the pages before `j`, and else it fails before it gets
there. -/
theorem mapNewRegion1Pages_blocked {start j : Nat} (num prot : Nat) (h : m.FreeList free)
    (hlt : ∀ f ∈ free, f < 0x80000000) (hj : start ≤ j) (hj' : j < start + num)
    (hlast : start + num ≤ NUM_PAGES_REG_1) (hmapped : (m.pte (.region1 pid) j).valid = true)
    (hun : m.Unmapped pid start (j - start)) :
    (j ≤ start + free.length →
      m.mapNewRegion1Pages pid start num prot = .error .assertion) ∧
    (start + free.length < j → ∃ m', m.mapNewRegion1Pages pid start num prot = .ok (ERROR, m') ∧
      MappedList m m' [] free pid start start (j - start) prot ERROR) := by
  have hlast' : start + num ≤ 128 := hlast
  have hcount : pagesFrom start num = (j - start) + (num - (j - start) - 1 + 1) := by
    unfold pagesFrom
    omega
  have hcount' : pagesFrom start (j - start) = j - start := by
    unfold pagesFrom
    omega
  obtain ⟨rc, m', hrun, hlist⟩ := mapNewRegion1Pages_list start (j - start) prot h hlt hun
  rw [mapNewRegion1Pages, hcount'] at hrun
  rw [mapNewRegion1Pages, hcount, mapLoop_add, hrun]
  cases hlist with
  | error few list touches unmapped others =>
      refine ⟨fun henough => by omega, fun _ => ⟨m', rfl, .error few list touches unmapped others⟩⟩
  | success enough list touches mapped others =>
      refine ⟨fun _ => ?_, fun hfew => by omega⟩
      have hvalid : (m'.pte (.region1 pid) (start + (j - start))).valid = true := by
        rw [Nat.add_sub_cancel' hj, others j (by omega)]
        exact hmapped
      have hpage : start + (j - start) < NUM_PAGES_REG_1 := show _ < 128 by omega
      simp only [Lib.ok_bind, show ¬ SUCCESS = ERROR by decide, if_false, mapNewRegion1PagesLoop,
        cAssert, hpage, hvalid, decide_true, if_true, Bool.not_true]
      rfl

/-! ## All or nothing -/

/-- Exactly the pages of the range have become valid, with their permissions, and they have
distinct frames from the free list. -/
structure RangeMapped (m m' : Machine) (free : List Nat) (pid start num prot : Nat) : Prop where
  valid : ∀ i, (m'.pte (.region1 pid) i).valid = true ↔
    start ≤ i ∧ i < start + num ∨ (m.pte (.region1 pid) i).valid = true
  prot : ∀ i, start ≤ i → i < start + num → (m'.pte (.region1 pid) i).prot = prot
  frames : ∀ i, start ≤ i → i < start + num → (m'.pte (.region1 pid) i).pfn ∈ free
  distinct : ∀ i j, start ≤ i → i < start + num → start ≤ j → j < start + num →
    (m'.pte (.region1 pid) i).pfn = (m'.pte (.region1 pid) j).pfn → i = j
  others : ∀ t i, ¬ (t = .region1 pid ∧ start ≤ i ∧ i < start + num) → m'.pte t i = m.pte t i
  rest : ∃ free', m'.FreeList free' ∧ ∀ f, f ∈ free' ↔
    f ∈ free ∧ ∀ i, start ≤ i → i < start + num → (m'.pte (.region1 pid) i).pfn ≠ f

/-- The valid pages, the entries outside the range and the set of free frames are the same. -/
structure RangeUnchanged (m m' : Machine) (free : List Nat) (pid start num : Nat) : Prop where
  valid : ∀ i, (m'.pte (.region1 pid) i).valid = (m.pte (.region1 pid) i).valid
  others : ∀ t i, ¬ (t = .region1 pid ∧ start ≤ i ∧ i < start + num) → m'.pte t i = m.pte t i
  rest : ∃ free', m'.FreeList free' ∧ ∀ f, f ∈ free' ↔ f ∈ free

/-- The entries outside a range of one table. -/
theorem pte_outside {start num : Nat} (honly : OnlyTable (.region1 pid) m m')
    (hout : ∀ i, ¬ (start ≤ i ∧ i < start + num) →
      m'.pte (.region1 pid) i = m.pte (.region1 pid) i) (t : PageTable) (i : Nat)
    (h : ¬ (t = .region1 pid ∧ start ≤ i ∧ i < start + num)) : m'.pte t i = m.pte t i := by
  by_cases ht : t = .region1 pid
  · subst ht
    exact hout i fun hi => h ⟨rfl, hi⟩
  · exact honly.pte ht i

theorem MappedList.rangeMapped {start num prot : Nat} (hnodup : free.Nodup)
    (h : MappedList m m' [] free pid start start num prot SUCCESS) :
    RangeMapped m m' free pid start num prot := by
  cases h with
  | success enough list touches mapped others =>
    -- Page `i` has the frame number `i - start` of the free list.
    have hentry : ∀ i, start ≤ i → i < start + num → ∃ j : Fin free.length, i = start + j ∧
        j.val < num ∧
        m'.pte (.region1 pid) i = { valid := true, prot := prot, pfn := free.get j } := by
      intro i hi hi'
      have hj : i - start < num := by omega
      refine ⟨⟨i - start, Nat.lt_of_lt_of_le hj enough⟩, by simp only; omega, hj, ?_⟩
      have hmap := mapped (i - start) hj
      rwa [Nat.add_sub_cancel' hi] at hmap
    refine ⟨fun i => ?_, fun i hi hi' => ?_, fun i hi hi' => ?_, fun i j hi hi' hj hj' heq => ?_,
      pte_outside touches.toOnlyTable others, free.drop num, list, fun f => ?_⟩
    · by_cases hi : start ≤ i ∧ i < start + num
      · obtain ⟨j, -, -, he⟩ := hentry i hi.1 hi.2
        exact iff_of_true (by rw [he]) (.inl hi)
      · rw [others i hi, or_iff_right hi]
    · obtain ⟨j, -, -, he⟩ := hentry i hi hi'
      rw [he]
    · obtain ⟨j, -, -, he⟩ := hentry i hi hi'
      rw [he]
      exact List.get_mem free j
    · obtain ⟨a, ha, -, hea⟩ := hentry i hi hi'
      obtain ⟨b, hb, -, heb⟩ := hentry j hj hj'
      rw [hea, heb] at heq
      rw [ha, hb, List.nodup_iff_injective_get.mp hnodup heq]
    · rw [List.mem_drop_iff_getElem]
      constructor
      · rintro ⟨j, hj, rfl⟩
        refine ⟨List.getElem_mem _, fun i hi hi' heq => ?_⟩
        obtain ⟨a, -, ha, he⟩ := hentry i hi hi'
        rw [he] at heq
        have hinj : a = ⟨num + j, by omega⟩ := List.nodup_iff_injective_get.mp hnodup heq
        rw [hinj] at ha
        simp only at ha
        omega
      · rintro ⟨hf, hne⟩
        obtain ⟨j, hj, rfl⟩ := List.getElem_of_mem hf
        by_cases hjn : j < num
        · have he := mapped j hjn
          exact absurd (by rw [he]; rfl) (hne (start + j) (by omega) (by omega))
        · exact ⟨j - num, by omega, by congr 1; omega⟩

theorem MappedList.rangeUnchanged {start num prot : Nat} (hun : m.Unmapped pid start num)
    (h : MappedList m m' [] free pid start start num prot ERROR) :
    RangeUnchanged m m' free pid start num := by
  cases h with
  | error few list touches unmapped others =>
    refine ⟨fun i => ?_, pte_outside touches.toOnlyTable others, free, list, fun _ => .rfl⟩
    by_cases hi : start ≤ i ∧ i < start + num
    · rw [unmapped i hi.1 hi.2, (hun i hi.1 hi.2).2]
    · rw [others i hi]

/-- `MapNewRegion1Pages` on a range of unmapped pages trips no `assert`. It maps the range to
distinct free frames, or it fails and leaves the table and the set of free frames as they
were. -/
theorem map_all_or_nothing {start num : Nat} (prot : Nat) (hlist : m.FreeList free)
    (hlt : ∀ f ∈ free, f < 0x80000000)
    (hun : ∀ i, start ≤ i → i < start + num →
      i < NUM_PAGES_REG_1 ∧ (m.pte (.region1 pid) i).valid = false) :
    ∃ rc m', m.mapNewRegion1Pages pid start num prot = .ok (rc, m') ∧
      (rc = SUCCESS ∧ RangeMapped m m' free pid start num prot ∨
        rc = ERROR ∧ RangeUnchanged m m' free pid start num) := by
  obtain ⟨rc, m', hrun, hmapped⟩ := mapNewRegion1Pages_list start num prot hlist hlt hun
  refine ⟨rc, m', hrun, ?_⟩
  cases hmapped with
  | success enough list touches mapped others =>
      exact .inl ⟨rfl, MappedList.rangeMapped hlist.nodup
        (.success enough list touches mapped others)⟩
  | error few list touches unmapped others =>
      have herror : MappedList m m' [] free pid start start num prot ERROR :=
        .error few list touches unmapped others
      exact .inr ⟨rfl, herror.rangeUnchanged hun⟩

/-- Three pages of the table of idle are mapped, from page 0 on, while `REG_PTBR1` names that
table. -/
theorem map_all_or_nothing_boot :
    ∃ m', (Kernel.bootMachine smallImage).mapNewRegion1Pages IDLE_PID 0 3 PROT_READ
        = .ok (SUCCESS, m') ∧
      RangeMapped (Kernel.bootMachine smallImage) m' (initialFree 110 0x110000) IDLE_PID 0 3
        PROT_READ := by
  have hiso := (bootMachine_isolated smallImage).1
  have hun : ∀ i < 3, i < NUM_PAGES_REG_1 ∧
      ((Kernel.bootMachine smallImage).pte (.region1 IDLE_PID) i).valid = false := by
    decide +kernel
  have hrc : ((Kernel.bootMachine smallImage).mapNewRegion1Pages IDLE_PID 0 3 PROT_READ
      ).toOption.map Prod.fst = some SUCCESS := by decide +kernel
  have hunmapped : ∀ i, 0 ≤ i → i < 0 + 3 → i < NUM_PAGES_REG_1 ∧
      ((Kernel.bootMachine smallImage).pte (.region1 IDLE_PID) i).valid = false :=
    fun i _ hi => hun i (by omega)
  obtain ⟨rc, m', hrun, hresult⟩ :=
    map_all_or_nothing PROT_READ hiso.list hiso.freeSmall hunmapped
  rw [hrun] at hrc
  have hsuccess : rc = SUCCESS := Option.some.inj hrc
  refine ⟨m', hsuccess ▸ hrun, (hresult.resolve_right fun herror => ?_).2⟩
  exact absurd (hsuccess.symm.trans herror.1) (by decide)

end

end Machine

end Theynix
