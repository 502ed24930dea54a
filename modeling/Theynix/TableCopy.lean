import Theynix.Fork
import Theynix.Tables
import Theynix.UserBytes

/-!
# `Theynix.TableCopy`: the copy of region 1 is faithful

`CopyRegion1PageTableAndData` sees both copies of a page through one temporary table. Page `j`
of the source is copied through page `j + 1`, from the top down, so a step overwrites an entry
that no later step reads (`copyRegion1Data_memory`). The last page has no page above it and
goes through page 0, which is restored before page 0 is copied itself.

* `forked_table_faithful`: the copy has the pages of the source with their permissions, in
  frames of its own that hold the same bytes, and the source is as it was. A process that
  runs with either table finds the same memory.
* `region1_copied`: the same of each page, in the terms of the page tables.
-/

set_option autoImplicit false

namespace Theynix

open Theynix.Lib (bind_eq_ok ite_eq_ok)

namespace Machine

section
variable {m m' m₁ : Machine} {free : List Nat} {source dest i n : Nat}

/-! ## The frames of the copy -/

/-- What the first loop of the copy has done for the pages `i`, ..., `i + n - 1`. -/
structure CopyFrames (m m' : Machine) (free : List Nat) (source dest i n : Nat) : Prop where
  taken : ∀ j, i ≤ j → j < i + n → (m.pte (.region1 source) j).valid = true →
    ∃ f ∈ free, m'.pte (.region1 dest) j = { valid := true, prot := PROT_WRITE, pfn := f }
  distinct : ∀ j j', i ≤ j → j < j' → j' < i + n → (m.pte (.region1 source) j).valid = true →
    (m.pte (.region1 source) j').valid = true →
    (m'.pte (.region1 dest) j).pfn ≠ (m'.pte (.region1 dest) j').pfn
  skipped : ∀ j, (i ≤ j → j < i + n → (m.pte (.region1 source) j).valid = false) →
    m'.pte (.region1 dest) j = m.pte (.region1 dest) j
  touches : Touches (.region1 dest) [] m m'

/-- A page without a frame is passed over. -/
theorem CopyFrames.skip (h : CopyFrames m m' free source dest (i + 1) n)
    (hv : (m.pte (.region1 source) i).valid = false) :
    CopyFrames m m' free source dest i (n + 1) where
  taken j hj hj' hvj := by
    have hne : j ≠ i := by
      rintro rfl
      rw [hv] at hvj
      cases hvj
    exact h.taken j (by omega) (by omega) hvj
  distinct j j' hj hlt hj' hvj hvj' := by
    have hne : j ≠ i := by
      rintro rfl
      rw [hv] at hvj
      cases hvj
    exact h.distinct j j' (by omega) hlt (by omega) hvj hvj'
  skipped j hj := h.skipped j fun hlow hhigh => hj (by omega) (by omega)
  touches := h.touches

/-- A page that gets the first frame of the list, before the pages after it. -/
theorem CopyFrames.cons {f : Nat} (h : CopyFrames m₁ m' free source dest (i + 1) n)
    (hne : source ≠ dest) (hnodup : (f :: free).Nodup) (htouches : Touches (.region1 dest) [] m m₁)
    (hv : (m.pte (.region1 source) i).valid = true)
    (hself : m₁.pte (.region1 dest) i = { valid := true, prot := PROT_WRITE, pfn := f })
    (hrest : ∀ j, j ≠ i → m₁.pte (.region1 dest) j = m.pte (.region1 dest) j) :
    CopyFrames m m' (f :: free) source dest i (n + 1) := by
  have htables : PageTable.region1 source ≠ .region1 dest := fun he => hne (by cases he; rfl)
  have hsource : ∀ j, m₁.pte (.region1 source) j = m.pte (.region1 source) j :=
    htouches.pte htables
  have hfirst : m'.pte (.region1 dest) i = { valid := true, prot := PROT_WRITE, pfn := f } :=
    (h.skipped i fun hlow _ => absurd hlow (by omega)).trans hself
  refine ⟨fun j hj hj' hvj => ?_, fun j j' hj hlt hj' hvj hvj' => ?_, fun j hj => ?_,
    htouches.trans h.touches⟩
  · by_cases hji : j = i
    · subst hji
      exact ⟨f, List.mem_cons_self, hfirst⟩
    · obtain ⟨g, hg, hentry⟩ := h.taken j (by omega) (by omega) (by rwa [hsource])
      exact ⟨g, List.mem_cons_of_mem f hg, hentry⟩
  · by_cases hji : j = i
    · subst hji
      obtain ⟨g, hg, hentry⟩ := h.taken j' (by omega) (by omega) (by rwa [hsource])
      rw [hfirst, hentry]
      rintro rfl
      exact (List.nodup_cons.mp hnodup).1 hg
    · exact h.distinct j j' (by omega) hlt (by omega) (by rwa [hsource]) (by rwa [hsource])
  · have hji : j ≠ i := by
      rintro rfl
      rw [hj (Nat.le_refl j) (by omega)] at hv
      cases hv
    refine (h.skipped j fun hlow hhigh => ?_).trans (hrest j hji)
    rw [hsource]
    exact hj (by omega) (by omega)

/-- The first loop of the copy takes a frame of its own for each page of the source. -/
theorem allocRegion1Copy_frames (hne : source ≠ dest) (h : m.FreeList free)
    (hok : m.allocRegion1Copy source dest i n = (SUCCESS, m')) :
    CopyFrames m m' free source dest i n := by
  induction n generalizing m free i with
  | zero =>
      cases hok
      exact ⟨fun j hj hj' => by omega, fun j j' hj hlt hj' => by omega, fun _ _ => rfl, .refl⟩
  | succ n ih =>
      unfold Machine.allocRegion1Copy at hok
      split at hok
      case isFalse hv => exact (ih h hok).skip (Bool.not_eq_true _ ▸ hv)
      case isTrue hv =>
          cases free with
          | nil =>
              have hnil : (m.modifyPte (.region1 dest) i fun e =>
                  { e with valid := true, prot := PROT_WRITE }).FreeList [] := h.setPte _ _ _
              simp only [getUnusedFrame_nil hnil, if_true] at hok
              cases hok
          | cons f free =>
              obtain ⟨m₁, hget, hlist, htouches, hentry, hself, hrest⟩ := takeFrame_list h
                (.region1 dest) i PROT_WRITE
                { m.pte (.region1 dest) i with valid := true, prot := PROT_WRITE }
              have hm : (m₁.modifyPte (.region1 dest) i fun e =>
                  { e with prot := PROT_WRITE, valid := true }) = m₁ := by
                rw [modifyPte, hentry]
                exact (congrArg (m₁.setPte (.region1 dest) i) hentry.symm).trans (setPte_self _ _ _)
              have hget' : (m.modifyPte (.region1 dest) i fun e =>
                  { e with valid := true, prot := PROT_WRITE }).getUnusedFrame ⟨.region1 dest, i⟩
                  = (SUCCESS, m₁) := hget
              rw [hm] at hlist htouches hself hrest
              simp only [hget', show ¬ SUCCESS = ERROR by decide, if_false] at hok
              exact (ih hlist hok).cons hne h.nodup htouches hv hself hrest

/-! ## Copying through the window -/

/-- A page is copied through window `j` of the temporary table, which gets the entry `e`. -/
theorem copyThroughTemp_memory {e : Pte} {j k : Nat} (hptbr : m.ptbr1 = .tempRegion1)
    (hne : k ≠ j)
    (hok : ((m.setPte .tempRegion1 j e).flushPage j).copyRegion1PageData k j = .ok m') :
    ∀ f off, m'.frame f off = if f = e.pfn ∧ off < PAGESIZE
      then m.frame (m.pte .tempRegion1 k).pfn off else m.frame f off := by
  have hsrc : (m.setPte .tempRegion1 j e).pte .tempRegion1 k = m.pte .tempRegion1 k :=
    setPte_pte_of_ne _ _ fun he => hne he.2
  unfold Machine.copyRegion1PageData Machine.copyPage at hok
  simp only [flushPage_pte, flushPage_ptbr1, setPte_ptbr1, hptbr, setPte_pte_self, hsrc,
    access_frame, flushPage_frame, setPte_frame] at hok
  rcases ite_eq_ok hok with ⟨-, hok⟩ | ⟨-, hok⟩
  · cases hok
    exact fun _ _ => rfl
  · cases hok

end

/-! The entries of the source, and those of the copy, while pages are copied. -/

section
variable {m m' : Machine} {dest : Nat} {e : Nat → Pte}
  (apart : ∀ j j', j < NUM_PAGES_REG_1 → j' < NUM_PAGES_REG_1 → (e j).valid = true →
    (e j').valid = true → (m.pte (.region1 dest) j').pfn ≠ (e j).pfn)
  (distinct : ∀ j j', j < j' → j' < NUM_PAGES_REG_1 → (e j).valid = true →
    (e j').valid = true → (m.pte (.region1 dest) j).pfn ≠ (m.pte (.region1 dest) j').pfn)

/-- The pages below `i` have been copied, and nothing else has been written. -/
structure PagesCopied (m m' : Machine) (dest : Nat) (e : Nat → Pte) (i : Nat) : Prop where
  copied : ∀ j < i, (e j).valid = true → ∀ off < PAGESIZE,
    m'.frame (m.pte (.region1 dest) j).pfn off = m.frame (e j).pfn off
  others : ∀ f, (∀ j < i, (e j).valid = true → f ≠ (m.pte (.region1 dest) j).pfn) →
    m'.frame f = m.frame f

include apart distinct in
/-- The loop copies page after page, each through the page above it. -/
theorem copyRegion1Data_memory {i : Nat} (hi : i ≤ NUM_PAGES_REG_1)
    (hptbr : m.ptbr1 = .tempRegion1) (htemp : ∀ j < i, m.pte .tempRegion1 j = e j)
    (hok : m.copyRegion1Data dest i = .ok m') : PagesCopied m m' dest e i := by
  induction i generalizing m with
  | zero =>
      cases hok
      exact ⟨fun j hj => absurd hj (Nat.not_lt_zero j), fun _ _ => rfl⟩
  | succ i ih =>
      simp only [Machine.copyRegion1Data] at hok
      rw [htemp i (Nat.lt_succ_self i)] at hok
      split at hok
      case isFalse hv =>
          have h := ih apart distinct (by omega) hptbr (fun j hj => htemp j (by omega)) hok
          refine ⟨fun j hj hvj => ?_, fun f hf => h.others f fun j hj => hf j (by omega)⟩
          have hne : j ≠ i := fun he => hv (he ▸ hvj)
          exact h.copied j (by omega) hvj
      case isTrue hv =>
          obtain ⟨m₁, hcopy, hrest⟩ := bind_eq_ok.mp hok
          have honly := copyThroughTemp_onlyTable hcopy
          have hmem := copyThroughTemp_memory hptbr (Nat.ne_of_lt (Nat.lt_succ_self i)) hcopy
          rw [htemp i (Nat.lt_succ_self i)] at hmem
          have hdest : ∀ j, m₁.pte (.region1 dest) j = m.pte (.region1 dest) j :=
            honly.pte (by simp)
          -- The window is above every page that is still to be copied.
          have htemp₁ : ∀ j < i, m₁.pte .tempRegion1 j = e j := by
            intro j hj
            have hsame := copyPage_sameTables hcopy
            rw [hsame.pte]
            exact (setPte_pte_of_ne _ _ fun he => absurd he.2 (by omega)).trans (htemp j (by omega))
          have hptbr₁ : m₁.ptbr1 = .tempRegion1 := honly.ptbr1.trans hptbr
          have h := ih (m := m₁) (by simpa only [hdest] using apart)
            (by simpa only [hdest] using distinct) (by omega) hptbr₁ htemp₁ hrest
          have hothers : ∀ f, f ≠ (m.pte (.region1 dest) i).pfn → m₁.frame f = m.frame f := by
            intro f hf
            funext off
            rw [hmem, if_neg fun he => hf he.1]
          refine ⟨fun j hj hvj off hoff => ?_, fun f hf => ?_⟩
          · by_cases hji : j = i
            · subst hji
              have hkept := h.others (m.pte (.region1 dest) j).pfn fun j' hj' hvj' => by
                rw [hdest]
                exact (distinct j' j hj' (by omega) hvj' hvj).symm
              rw [hkept, hmem, if_pos ⟨rfl, hoff⟩]
            · have hcopied := h.copied j (by omega) hvj off hoff
              rw [hdest] at hcopied
              rw [hcopied, hothers _ (apart j i (by omega) (by omega) hvj hv).symm]
          · rw [h.others f fun j hj hvj => by rw [hdest]; exact hf j (by omega) hvj]
            exact hothers f (hf i (by omega) hv)

end

section
variable {m m' : Machine} {free : List Nat} {source dest : Nat}

/-- The last page is copied through page 0 of the temporary table. -/
theorem copyLastRegion1Page_memory (hptbr : m.ptbr1 = .tempRegion1)
    (hok : m.copyLastRegion1Page dest = .ok m') : ∀ f off, m'.frame f off =
      if (m.pte .tempRegion1 127).valid = true ∧ f = (m.pte (.region1 dest) 127).pfn ∧
          off < PAGESIZE
        then m.frame (m.pte .tempRegion1 127).pfn off else m.frame f off := by
  intro f off
  unfold Machine.copyLastRegion1Page at hok
  rcases ite_eq_ok hok with ⟨hv, hok⟩ | ⟨hv, hok⟩
  · rw [copyThroughTemp_memory hptbr (by decide) hok f off]
    exact if_congr (and_iff_right hv).symm rfl rfl
  · cases hok
    exact (if_neg fun h => hv h.1).symm

/-- Copying the last page overwrites entry 0 of the temporary table only. -/
theorem copyLastRegion1Page_temp (hok : m.copyLastRegion1Page dest = .ok m') {j : Nat}
    (hj : j ≠ 0) : m'.pte .tempRegion1 j = m.pte .tempRegion1 j := by
  unfold Machine.copyLastRegion1Page at hok
  rcases ite_eq_ok hok with ⟨-, hok⟩ | ⟨-, hok⟩
  · rw [(copyPage_sameTables hok).pte]
    exact setPte_pte_of_ne _ _ fun he => hj he.2
  · cases hok
    rfl

/-- The last loop gives the copies of the pages the permissions of the source. -/
theorem copyRegion1Prot_pte (hne : source ≠ dest) (i n : Nat) :
    (m.copyRegion1Prot source dest i n).frame = m.frame ∧
      (∀ t, t ≠ .region1 dest →
        (m.copyRegion1Prot source dest i n).pte t = m.pte t) ∧
      ∀ j, (m.copyRegion1Prot source dest i n).pte (.region1 dest) j =
        if i ≤ j ∧ j < i + n ∧ (m.pte (.region1 source) j).valid = true then
          { m.pte (.region1 dest) j with prot := (m.pte (.region1 source) j).prot }
        else m.pte (.region1 dest) j := by
  have htables : PageTable.region1 source ≠ .region1 dest := fun he => hne (by cases he; rfl)
  induction n generalizing m i with
  | zero => exact ⟨rfl, fun _ _ => rfl, fun j => (if_neg fun h => by omega).symm⟩
  | succ n ih =>
      simp only [Machine.copyRegion1Prot]
      split
      case isFalse hv =>
          obtain ⟨hframe, hothers, hdest⟩ := ih (m := m) (i + 1)
          refine ⟨hframe, hothers, fun j => (hdest j).trans (if_congr ?_ rfl rfl)⟩
          constructor
          · rintro ⟨hlow, hhigh, hvj⟩
            exact ⟨by omega, by omega, hvj⟩
          · rintro ⟨hlow, hhigh, hvj⟩
            have hne' : j ≠ i := fun he => hv (he ▸ hvj)
            exact ⟨by omega, by omega, hvj⟩
      case isTrue hv =>
          obtain ⟨hframe, hothers, hdest⟩ := ih (m := m.modifyPte (.region1 dest) i fun e =>
            { e with prot := (m.pte (.region1 source) i).prot }) (i + 1)
          have hkept : ∀ t j, ¬ (t = .region1 dest ∧ j = i) →
              (m.modifyPte (.region1 dest) i fun e =>
                { e with prot := (m.pte (.region1 source) i).prot }).pte t j = m.pte t j :=
            fun t j h => setPte_pte_of_ne _ _ h
          have hsource : ∀ j, (m.modifyPte (.region1 dest) i fun e =>
              { e with prot := (m.pte (.region1 source) i).prot }).pte (.region1 source) j
              = m.pte (.region1 source) j := fun j => hkept _ _ fun h => htables h.1
          refine ⟨hframe, fun t ht => (hothers t ht).trans (funext fun j => hkept t j fun h => ht h.1),
            fun j => (hdest j).trans ?_⟩
          rw [hsource]
          by_cases hji : j = i
          · subst hji
            rw [if_neg fun h => by omega, if_pos ⟨Nat.le_refl j, by omega, hv⟩]
            exact setPte_pte_self _ _ _ _
          · rw [hkept _ _ fun h => hji h.2]
            refine if_congr ?_ rfl rfl
            constructor
            · rintro ⟨hlow, hhigh, hvj⟩
              exact ⟨by omega, by omega, hvj⟩
            · rintro ⟨hlow, hhigh, hvj⟩
              exact ⟨by omega, by omega, hvj⟩

end

section
variable {m m₂ m₃ : Machine} {source dest : Nat} {e : Nat → Pte}
  (apart : ∀ j j', j < NUM_PAGES_REG_1 → j' < NUM_PAGES_REG_1 → (e j).valid = true →
    (e j').valid = true → (m.pte (.region1 dest) j').pfn ≠ (e j).pfn)
  (distinct : ∀ j j', j < j' → j' < NUM_PAGES_REG_1 → (e j).valid = true →
    (e j').valid = true → (m.pte (.region1 dest) j).pfn ≠ (m.pte (.region1 dest) j').pfn)

include apart distinct in
/-- The last page goes first, through page 0, and then the others, through the page above. -/
theorem copyPages_memory (hptbr : m.ptbr1 = .tempRegion1)
    (htemp : ∀ j < NUM_PAGES_REG_1, m.pte .tempRegion1 j = e j)
    (hsource : m.pte (.region1 source) 0 = e 0) (hlast : m.copyLastRegion1Page dest = .ok m₂)
    (hdata : ((m₂.setPte .tempRegion1 0 (m₂.pte (.region1 source) 0)).flushPage
      0).copyRegion1Data dest (NUM_PAGES_REG_1 - 1) = .ok m₃) :
    PagesCopied m m₃ dest e NUM_PAGES_REG_1 := by
  have honly := copyLastRegion1Page_onlyTable hlast
  have hmem := copyLastRegion1Page_memory hptbr hlast
  have hdest : ∀ j, m₂.pte (.region1 dest) j = m.pte (.region1 dest) j := honly.pte (by simp)
  rw [htemp 127 (by decide)] at hmem
  generalize hm₂ : (m₂.setPte .tempRegion1 0 (m₂.pte (.region1 source) 0)).flushPage 0 = m₂'
    at hdata
  have hframe₂ : m₂'.frame = m₂.frame := by rw [← hm₂]; rfl
  have hdest₂ : ∀ j, m₂'.pte (.region1 dest) j = m.pte (.region1 dest) j := by
    intro j
    rw [← hm₂, flushPage_pte, setPte_pte_of_ne _ _ (by simp), hdest]
  have htemp₂ : ∀ j < 127, m₂'.pte .tempRegion1 j = e j := by
    intro j hj
    rw [← hm₂, flushPage_pte]
    by_cases h0 : j = 0
    · subst h0
      rw [setPte_pte_self, honly.pte (by simp), hsource]
    · rw [setPte_pte_of_ne _ _ fun he => h0 he.2, copyLastRegion1Page_temp hlast h0]
      exact htemp j (Nat.lt_trans hj (by decide))
  have hptbr₂ : m₂'.ptbr1 = .tempRegion1 := by
    rw [← hm₂]
    exact honly.ptbr1.trans hptbr
  have h := copyRegion1Data_memory (m := m₂') (e := e)
    (by simpa only [hdest₂] using apart) (by simpa only [hdest₂] using distinct) (by decide)
    hptbr₂ htemp₂ hdata
  have hlt : ∀ {j : Nat}, j < 127 → j < NUM_PAGES_REG_1 := fun hj => Nat.lt_trans hj (by decide)
  -- The page that was copied first.
  have hothers : ∀ f, ((e 127).valid = true → f ≠ (m.pte (.region1 dest) 127).pfn) →
      m₂'.frame f = m.frame f := by
    intro f hf
    funext off
    rw [hframe₂, hmem, if_neg fun he => hf he.1 he.2.1]
  refine ⟨fun j hj hvj off hoff => ?_, fun f hf => ?_⟩
  · by_cases hj' : j = 127
    · subst hj'
      have hkept := h.others (m.pte (.region1 dest) 127).pfn fun j' hlow hvj' => by
        rw [hdest₂]
        exact (distinct j' 127 hlow hj hvj' hvj).symm
      rw [hkept, hframe₂, hmem, if_pos ⟨hvj, rfl, hoff⟩]
    · have hj₁ : j < 128 := hj
      have hcopied := h.copied j (show j < 127 by omega) hvj off hoff
      rw [hdest₂] at hcopied
      rw [hcopied, hothers _ fun hv => (apart j 127 hj (by decide) hvj hv).symm]
  · rw [h.others f fun j hj hvj => by rw [hdest₂]; exact hf j (hlt hj) hvj]
    exact hothers f (hf 127 (by decide))

end

section
variable {m m' : Machine} {free : List Nat} {source dest : Nat}

/-! ## The whole copy -/

/-- The table `dest` of `m'` is a faithful copy of the table `source` of `m`, in frames that
were free. The other tables are as they were, and so is every frame that is not one of the
copy's, be it in use or still free. -/
structure FaithfulCopy (m m' : Machine) (free : List Nat) (source dest : Nat) : Prop where
  valid : ∀ i < NUM_PAGES_REG_1,
    (m'.pte (.region1 dest) i).valid = (m.pte (.region1 source) i).valid
  prot : ∀ i < NUM_PAGES_REG_1, (m.pte (.region1 source) i).valid = true →
    (m'.pte (.region1 dest) i).prot = (m.pte (.region1 source) i).prot
  fresh : ∀ i < NUM_PAGES_REG_1, (m.pte (.region1 source) i).valid = true →
    (m'.pte (.region1 dest) i).pfn ∈ free
  distinct : ∀ i j, i < j → j < NUM_PAGES_REG_1 → (m.pte (.region1 source) i).valid = true →
    (m.pte (.region1 source) j).valid = true →
    (m'.pte (.region1 dest) i).pfn ≠ (m'.pte (.region1 dest) j).pfn
  bytes : ∀ i < NUM_PAGES_REG_1, (m.pte (.region1 source) i).valid = true →
    ∀ off < PAGESIZE, m'.frame (m'.pte (.region1 dest) i).pfn off
      = m.frame (m.pte (.region1 source) i).pfn off
  tables : ∀ t, t ≠ .region1 dest → t ≠ .tempRegion1 → m'.pte t = m.pte t
  memory : ∀ f, (∀ i < NUM_PAGES_REG_1, (m.pte (.region1 source) i).valid = true →
    f ≠ (m'.pte (.region1 dest) i).pfn) → m'.frame f = m.frame f
  ptbr1 : m'.ptbr1 = .region1 source

/-- A frame that was in use is as it was. -/
theorem FaithfulCopy.memory_of_not_free (h : FaithfulCopy m m' free source dest) {f : Nat}
    (hf : f ∉ free) : m'.frame f = m.frame f :=
  h.memory f fun i hi hv he => hf (he ▸ h.fresh i hi hv)

theorem copyRegion1PageTableAndData_faithful (hne : source ≠ dest) (hlist : m.FreeList free)
    (hsource : ∀ i < NUM_PAGES_REG_1, (m.pte (.region1 source) i).valid = true →
      (m.pte (.region1 source) i).pfn ∉ free)
    (hblank : ∀ i < NUM_PAGES_REG_1, (m.pte (.region1 dest) i).valid = false)
    (hok : m.copyRegion1PageTableAndData source dest = .ok (SUCCESS, m')) :
    FaithfulCopy m m' free source dest := by
  have htables : PageTable.region1 source ≠ .region1 dest := fun he => hne (by cases he; rfl)
  unfold Machine.copyRegion1PageTableAndData at hok
  generalize halloc : m.allocRegion1Copy source dest 0 NUM_PAGES_REG_1 = alloc at hok
  obtain ⟨rc, m₁⟩ := alloc
  rcases ite_eq_ok hok with ⟨hrc, hok⟩ | ⟨hrc, hok⟩
  · cases hok
  obtain ⟨m₂, hlast, hok⟩ := bind_eq_ok.mp hok
  obtain ⟨m₃, hdata, hret⟩ := bind_eq_ok.mp hok
  obtain rfl : rc = SUCCESS := by
    have hresult := m.allocRegion1Copy_result source dest 0 NUM_PAGES_REG_1
    rw [halloc] at hresult
    exact hresult.resolve_left hrc
  obtain ⟨htaken, hdistinct, hskipped, htouches⟩ := allocRegion1Copy_frames hne hlist halloc
  have hsame : ∀ j, m₁.pte (.region1 source) j = m.pte (.region1 source) j :=
    htouches.pte htables
  have hframe : m₁.frame = m.frame := funext fun f => htouches.frame f (by simp)
  have hfresh : ∀ j < NUM_PAGES_REG_1, (m.pte (.region1 source) j).valid = true →
      (m₁.pte (.region1 dest) j).pfn ∈ free := by
    intro j hj hvj
    obtain ⟨f, hf, hentry⟩ := htaken j (Nat.zero_le j) (by omega) hvj
    rwa [hentry]
  have hpages := copyPages_memory (m := m₁.useTempRegion1 source) (e := m.pte (.region1 source))
    (fun j j' hj hj' hvj hvj' he => hsource j hj hvj (he ▸ hfresh j' hj' hvj'))
    (fun j j' hlt hj' hvj hvj' => hdistinct j j' (Nat.zero_le j) hlt (by omega) hvj hvj')
    rfl (fun j hj => (if_pos ⟨rfl, hj⟩).trans (hsame j)) (hsame 0) hlast hdata
  -- The table of the copy does not change while the pages are copied.
  have hmiddle : ∀ t, t ≠ .tempRegion1 → m₃.pte t = m₁.pte t := by
    intro t ht
    funext j
    refine ((copyRegion1Data_onlyTable hdata).pte ht j).trans ?_
    refine (setPte_pte_of_ne _ _ fun he => ht he.1).trans ?_
    refine ((copyLastRegion1Page_onlyTable hlast).pte ht j).trans ?_
    simp [Machine.useTempRegion1, ht]
  obtain ⟨hframe₄, htables₄, hdest₄⟩ := copyRegion1Prot_pte (m := m₃) hne 0 NUM_PAGES_REG_1
  simp only [Lib.pure_eq_ok, Except.ok.injEq, Prod.mk.injEq, true_and] at hret
  generalize m₃.copyRegion1Prot source dest 0 NUM_PAGES_REG_1 = m₄
    at hret hframe₄ htables₄ hdest₄
  have hdest : ∀ j < NUM_PAGES_REG_1, m'.pte (.region1 dest) j =
      if (m.pte (.region1 source) j).valid = true then
        { m₁.pte (.region1 dest) j with prot := (m.pte (.region1 source) j).prot }
      else m.pte (.region1 dest) j := by
    intro j hj
    rw [← hret]
    refine (hdest₄ j).trans ?_
    rw [hmiddle _ (by simp), hmiddle _ (by simp), hsame]
    by_cases hv : (m.pte (.region1 source) j).valid = true
    · rw [if_pos ⟨Nat.zero_le j, by omega, hv⟩, if_pos hv]
    · rw [if_neg fun h => hv h.2.2, if_neg hv]
      exact hskipped j fun _ _ => Bool.not_eq_true _ ▸ hv
  have hpfn : ∀ j < NUM_PAGES_REG_1, (m.pte (.region1 source) j).valid = true →
      (m'.pte (.region1 dest) j).pfn = (m₁.pte (.region1 dest) j).pfn := by
    intro j hj hvj
    rw [hdest j hj, if_pos hvj]
  have hframe₅ : m'.frame = m₃.frame := by
    rw [← hret]
    exact hframe₄
  constructor
  case valid =>
    intro i hi
    rw [hdest i hi]
    by_cases hv : (m.pte (.region1 source) i).valid = true
    · obtain ⟨f, -, hentry⟩ := htaken i (Nat.zero_le i) (by omega) hv
      rw [if_pos hv, hentry, hv]
    · rw [if_neg hv, hblank i hi, eq_false_of_ne_true hv]
  case prot =>
    intro i hi hv
    rw [hdest i hi, if_pos hv]
  case fresh =>
    intro i hi hv
    rw [hpfn i hi hv]
    exact hfresh i hi hv
  case distinct =>
    intro i j hlt hj hvi hvj
    rw [hpfn i (Nat.lt_trans hlt hj) hvi, hpfn j hj hvj]
    exact hdistinct i j (Nat.zero_le i) hlt (by omega) hvi hvj
  case bytes =>
    intro i hi hv off hoff
    rw [hpfn i hi hv, hframe₅]
    refine (hpages.copied i hi hv off hoff).trans ?_
    exact congrFun (congrFun hframe _) off
  case tables =>
    intro t ht ht'
    rw [← hret]
    exact (htables₄ t ht).trans ((hmiddle t ht').trans (funext (htouches.pte ht)))
  case memory =>
    intro f hf
    rw [hframe₅]
    refine (hpages.others f ?_).trans (congrFun hframe f)
    intro j hj hvj
    exact hpfn j hj hvj ▸ hf j hj hvj
  case ptbr1 =>
    rw [← hret]
    rfl

/-! ## What a process sees -/

/-- Two tables with the same pages, permissions and bytes show the same memory. -/
theorem memoryOf_congr {p q : Pid}
    (hvalid : ∀ i < NUM_PAGES_REG_1, (m'.pte (.region1 q) i).valid = (m.pte (.region1 p) i).valid)
    (hprot : ∀ i < NUM_PAGES_REG_1, (m.pte (.region1 p) i).valid = true →
      (m'.pte (.region1 q) i).prot = (m.pte (.region1 p) i).prot)
    (hbytes : ∀ i < NUM_PAGES_REG_1, (m.pte (.region1 p) i).valid = true → ∀ off < PAGESIZE,
      m'.frame (m'.pte (.region1 q) i).pfn off = m.frame (m.pte (.region1 p) i).pfn off) :
    m'.memoryOf q = m.memoryOf p := by
  funext va
  unfold memoryOf
  by_cases hva : VMEM_1_BASE ≤ va ∧ va < VMEM_1_LIMIT
  · have hlimit : va < 0x200000 := hva.2
    have hpage : addrToPage (va - VMEM_1_BASE) < NUM_PAGES_REG_1 := by
      rw [addrToPage_eq]
      show (va - 0x100000) / 8192 < 128
      omega
    dsimp only
    generalize addrToPage (va - VMEM_1_BASE) = i at hpage ⊢
    rw [hvalid i hpage]
    by_cases hv : (m.pte (.region1 p) i).valid = true
    · rw [if_pos ⟨hva, hv⟩, if_pos ⟨hva, hv⟩, hprot i hpage hv,
        hbytes i hpage hv _ (Nat.mod_lt va (by decide))]
    · rw [if_neg fun h => hv h.2, if_neg fun h => hv h.2]
  · rw [if_neg fun h => hva h.1, if_neg fun h => hva h.1]

/-- The copy shows what the source showed. -/
theorem FaithfulCopy.memoryOf_dest (h : FaithfulCopy m m' free source dest) :
    m'.memoryOf dest = m.memoryOf source :=
  memoryOf_congr h.valid h.prot h.bytes

/-- The source shows what it showed before. -/
theorem FaithfulCopy.memoryOf_source (h : FaithfulCopy m m' free source dest) (hne : source ≠ dest)
    (hsource : ∀ i < NUM_PAGES_REG_1, (m.pte (.region1 source) i).valid = true →
      (m.pte (.region1 source) i).pfn ∉ free) :
    m'.memoryOf source = m.memoryOf source := by
  have htable := h.tables (.region1 source) (fun he => hne (by cases he; rfl)) (by simp)
  refine memoryOf_congr (fun i _ => ?_) (fun i _ _ => ?_) fun i hi hv off _ => ?_
  · rw [htable]
  · rw [htable]
  · rw [htable, h.memory_of_not_free (hsource i hi hv)]

/-- A copy that returns `SUCCESS` is faithful, for any pages and permissions of the source:
both tables then show the memory that the source showed. -/
theorem forked_table_faithful (hne : source ≠ dest) (hlist : m.FreeList free)
    (hsource : ∀ i < NUM_PAGES_REG_1, (m.pte (.region1 source) i).valid = true →
      (m.pte (.region1 source) i).pfn ∉ free)
    (hblank : ∀ i < NUM_PAGES_REG_1, (m.pte (.region1 dest) i).valid = false)
    (hok : m.copyRegion1PageTableAndData source dest = .ok (SUCCESS, m')) :
    FaithfulCopy m m' free source dest ∧ m'.memoryOf dest = m.memoryOf source ∧
      m'.memoryOf source = m.memoryOf source := by
  have h := copyRegion1PageTableAndData_faithful hne hlist hsource hblank hok
  exact ⟨h, h.memoryOf_dest, h.memoryOf_source hne hsource⟩

/-- At boot, a table with a page at the bottom, a hole and the last page. The bytes of the two
pages differ. -/
def holeyTable : Machine :=
  let m := ((Kernel.bootMachine smallImage).setPte (.region1 1) 0
    { valid := true, prot := PROT_READ, pfn := 3 }).setPte (.region1 1) 127
    { valid := true, prot := PROT_READ, pfn := 4 }
  { m with
    ptbr1 := .region1 1
    frame := fun f off => if f = 3 then 17 else if f = 4 then 23 else m.frame f off }

/-- The copy of such a table succeeds. -/
theorem holeyTable_copy : ∃ m', holeyTable.copyRegion1PageTableAndData 1 2 = .ok (SUCCESS, m') := by
  have hok : ((holeyTable.copyRegion1PageTableAndData 1 2).toOption.map Prod.fst) =
      some SUCCESS := by
    decide +kernel
  obtain ⟨⟨rc, m'⟩, hcopy, rfl⟩ := Option.map_eq_some_iff.mp hok
  cases h : holeyTable.copyRegion1PageTableAndData 1 2 with
  | error e =>
      rw [h] at hcopy
      cases hcopy
  | ok r =>
      rw [h] at hcopy
      cases hcopy
      exact ⟨m', rfl⟩

theorem holeyTable_list : holeyTable.FreeList
    (Machine.initialFree smallImage.kernelBrkPage smallImage.pmemSize) := by
  have hboot := (bootMachine_isolated smallImage).1.list
  have hfree : ∀ f ∈ Machine.initialFree smallImage.kernelBrkPage smallImage.pmemSize,
      f ≠ 3 ∧ f ≠ 4 := by
    decide +kernel
  unfold holeyTable
  generalize Kernel.bootMachine smallImage = m at hboot
  refine hboot.congr rfl rfl fun f hf => ?_
  funext off
  exact (if_neg (hfree f hf).1).trans (if_neg (hfree f hf).2)

/-- The copy of such a table is faithful. -/
theorem forked_table_faithful_holey : ∃ m' free,
    holeyTable.copyRegion1PageTableAndData 1 2 = .ok (SUCCESS, m') ∧
      FaithfulCopy holeyTable m' free 1 2 ∧ m'.memoryOf 2 = holeyTable.memoryOf 1 ∧
      m'.memoryOf 1 = holeyTable.memoryOf 1 := by
  obtain ⟨m', hcopy⟩ := holeyTable_copy
  exact ⟨m', _, hcopy, forked_table_faithful (by decide) holeyTable_list
    (by decide +kernel) (by decide +kernel) hcopy⟩

/-- A copy that returns `SUCCESS` has the pages of the source with their permissions, in
frames that are pairwise distinct, were free and hold the bytes of the source's. The table of
the source and its frames are as they were, and `PTBR1` names it again. -/
theorem region1_copied (hne : source ≠ dest) (hlist : m.FreeList free)
    (hsource : ∀ i < NUM_PAGES_REG_1, (m.pte (.region1 source) i).valid = true →
      (m.pte (.region1 source) i).pfn ∉ free)
    (hblank : ∀ i < NUM_PAGES_REG_1, (m.pte (.region1 dest) i).valid = false)
    (hok : m.copyRegion1PageTableAndData source dest = .ok (SUCCESS, m')) :
    (∀ i < NUM_PAGES_REG_1,
      (m'.pte (.region1 dest) i).valid = (m.pte (.region1 source) i).valid ∧
      ((m.pte (.region1 source) i).valid = true →
        (m'.pte (.region1 dest) i).prot = (m.pte (.region1 source) i).prot ∧
        (m'.pte (.region1 dest) i).pfn ∈ free ∧
        ∀ off < PAGESIZE, m'.frame (m'.pte (.region1 dest) i).pfn off
          = m.frame (m.pte (.region1 source) i).pfn off)) ∧
    (∀ i j, i < j → j < NUM_PAGES_REG_1 → (m'.pte (.region1 dest) i).valid = true →
      (m'.pte (.region1 dest) j).valid = true →
      (m'.pte (.region1 dest) i).pfn ≠ (m'.pte (.region1 dest) j).pfn) ∧
    (∀ i < NUM_PAGES_REG_1, m'.pte (.region1 source) i = m.pte (.region1 source) i ∧
      ((m.pte (.region1 source) i).valid = true → ∀ off,
        m'.frame (m.pte (.region1 source) i).pfn off
          = m.frame (m.pte (.region1 source) i).pfn off)) ∧
    m'.ptbr1 = .region1 source := by
  have h := copyRegion1PageTableAndData_faithful hne hlist hsource hblank hok
  have htable : m'.pte (.region1 source) = m.pte (.region1 source) :=
    h.tables (.region1 source) (fun he => hne (by cases he; rfl)) (by simp)
  refine ⟨fun i hi => ⟨h.valid i hi, fun hv => ⟨h.prot i hi hv, h.fresh i hi hv,
    h.bytes i hi hv⟩⟩, fun i j hlt hj hvi hvj => ?_, fun i hi => ⟨?_, fun hv off => ?_⟩, h.ptbr1⟩
  · rw [h.valid i (Nat.lt_trans hlt hj)] at hvi
    rw [h.valid j hj] at hvj
    exact h.distinct i j hlt hj hvi hvj
  · rw [htable]
  · rw [h.memory_of_not_free (hsource i hi hv)]

/-- The last page of the holey table is copied through page 0, before page 0 itself. -/
theorem region1_copied_holey : ∃ m', holeyTable.copyRegion1PageTableAndData 1 2
      = .ok (SUCCESS, m') ∧
    (∀ i < NUM_PAGES_REG_1,
      (m'.pte (.region1 2) i).valid = (holeyTable.pte (.region1 1) i).valid) ∧
    (∀ off < PAGESIZE, m'.frame (m'.pte (.region1 2) 0).pfn off = 17 ∧
      m'.frame (m'.pte (.region1 2) 127).pfn off = 23) ∧
    (m'.pte (.region1 2) 0).pfn ≠ (m'.pte (.region1 2) 127).pfn := by
  obtain ⟨m', hcopy⟩ := holeyTable_copy
  obtain ⟨hpages, hdistinct, -, -⟩ := region1_copied (by decide) holeyTable_list
    (by decide +kernel) (by decide +kernel) hcopy
  obtain ⟨hvalid0, hfirst⟩ := hpages 0 (by decide)
  obtain ⟨hvalid127, hlast⟩ := hpages 127 (by decide)
  have hv0 : (holeyTable.pte (.region1 1) 0).valid = true := by decide +kernel
  have hv127 : (holeyTable.pte (.region1 1) 127).valid = true := by decide +kernel
  have hpfn0 : (holeyTable.pte (.region1 1) 0).pfn = 3 := by decide +kernel
  have hpfn127 : (holeyTable.pte (.region1 1) 127).pfn = 4 := by decide +kernel
  refine ⟨m', hcopy, fun i hi => (hpages i hi).1, fun off hoff => ⟨?_, ?_⟩,
    hdistinct 0 127 (by decide) (by decide) (hvalid0.trans hv0) (hvalid127.trans hv127)⟩
  · obtain ⟨-, -, hbytes⟩ := hfirst hv0
    rw [hbytes off hoff, hpfn0]
    rfl
  · obtain ⟨-, -, hbytes⟩ := hlast hv127
    rw [hbytes off hoff, hpfn127]
    rfl

end

end Machine

end Theynix
