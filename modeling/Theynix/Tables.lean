import Theynix.LoadProgram

/-!
# `Theynix.Tables`: what is in a region 1 table

`Theynix.Frames` says which frames a table holds. This module says which pages are valid
after the functions that map pages: `mapNewRegion1Pages` when it fails, the growing stack of
`TrapMemory`, the copy of a table, and `LoadProgram`.

* `Isolated.growLoop`: `TrapMemory` maps every page down to the fault, or runs out of frames.
* `Isolated.copyRegion1_valid`: the copy of a table has the valid pages of the source.
* `Isolated.commitProgram_valid`: the valid pages of a new program are its text, its data
  and its stack.
-/

set_option autoImplicit false

namespace Theynix

open Theynix.Lib (bind_eq_ok ite_eq_ok)

namespace Machine

section
variable {m m' : Machine} {own : PteRef → Bool} {free : List Nat} {pid : Nat}

/-! ## Mapping that fails -/

/-- A page that is valid after a failed `mapNewRegion1Pages` was valid before, and the loop
had not mapped it. -/
theorem Isolated.mapLoop_error {start p n prot : Nat} (h : m.Isolated own free)
    (hown : ∀ i < NUM_PAGES_REG_1, own ⟨.region1 pid, i⟩) (hstart : start ≤ p)
    (hok : m.mapNewRegion1PagesLoop pid start prot p n = .ok (ERROR, m')) {i : Nat}
    (hi : (m'.pte (.region1 pid) i).valid = true) :
    (m.pte (.region1 pid) i).valid = true ∧ ¬ (start ≤ i ∧ i < p) := by
  induction n generalizing m free p with
  | zero => cases hok
  | succ n ih =>
      obtain ⟨_, hp, hok⟩ := bind_eq_ok.mp hok
      obtain ⟨_, -, hok⟩ := bind_eq_ok.mp hok
      have hp' : p < 128 := of_decide_eq_true (cAssert_eq_ok hp)
      cases free with
      | nil =>
          rw [getUnusedFrame_nil h.list] at hok
          obtain ⟨m₁, hun, hret⟩ := bind_eq_ok.mp hok
          cases hret
          have hcount : pagesFrom start (p - start) = p - start := by
            unfold pagesFrom
            omega
          rw [unmapRegion1Pages, hcount] at hun
          obtain ⟨-, -, -, -, hin, hout⟩ := h.unmapLoop hown hun
          by_cases hrange : start ≤ i ∧ i < p
          · rw [(hin i hrange.1 (by omega)).2.2] at hi
            cases hi
          · rw [hout i (by omega)] at hi
            exact ⟨hi, hrange⟩
      | cons f free =>
          obtain ⟨m₁, m₂, hget, hm₂, hiso, -, -, hpte⟩ := h.mapStep p prot
          rw [hget] at hok
          simp only [show ¬ SUCCESS = ERROR by decide, if_false, ← hm₂] at hok
          obtain ⟨hvalid, hrange⟩ := ih hiso (by omega) hok
          rw [hpte, setPte_pte_of_ne _ _ fun he => absurd he.2 (by omega)] at hvalid
          exact ⟨hvalid, by omega⟩

/-! ## Stack growth -/

/-- What the loop of `TrapMemory` does, on pages of the table that are unmapped. It maps all
of them to free frames, or runs out of frames. -/
inductive Grown (m m' : Machine) (free free' : List Nat) (pid addrPage n : Nat) : Int → Prop
  | success (enough : n ≤ free.length) (rest : free' = free.drop n)
      (mapped : ∀ i, addrPage ≤ i → i < addrPage + n → ∃ f ∈ free,
        m'.pte (.region1 pid) i = { valid := true, prot := PROT_READ ||| PROT_WRITE, pfn := f }) :
      Grown m m' free free' pid addrPage n SUCCESS
  | error (few : free.length < n) : Grown m m' free free' pid addrPage n ERROR

/-- The loop of `TrapMemory` ends, and its `assert` does not fail. -/
theorem Isolated.growLoop (pid : Pid) (addrPage : Nat) {n : Nat} (h : m.Isolated own free)
    (hpos : 0 < addrPage)
    (hun : ∀ i, addrPage ≤ i → i < addrPage + n → (m.pte (.region1 pid) i).valid = false) :
    ∃ rc m' free', m.growStack pid addrPage n = .ok (rc, m') ∧ m'.Isolated own free' ∧
      OnlyTable (.region1 pid) m m' ∧ m'.frame = m.frame ∧
      (∀ i, ¬ (addrPage ≤ i ∧ i < addrPage + n) →
        m'.pte (.region1 pid) i = m.pte (.region1 pid) i) ∧
      Grown m m' free free' pid addrPage n rc := by
  induction n generalizing m free with
  | zero =>
      refine ⟨SUCCESS, m, free, ?_, h, .refl, rfl, fun _ _ => rfl,
        .success (Nat.zero_le _) rfl fun i hi hi' => by omega⟩
      exact if_neg (Nat.ne_of_gt hpos)
  | succ n ih =>
      cases free with
      | nil =>
          refine ⟨ERROR, m, [], ?_, h, .refl, rfl, fun _ _ => rfl, .error (Nat.succ_pos n)⟩
          simp only [Machine.growStack, getUnusedFrame_nil h.list, if_true]
          rfl
      | cons f free =>
          obtain ⟨m₁, m₂, hget, hself, hm₂, hiso, honly, hframe, hpte⟩ := h.getUnusedFrame
            ⟨.region1 pid, addrPage + n⟩ (PROT_READ ||| PROT_WRITE)
            (m.pte (.region1 pid) (addrPage + n))
          rw [setPte_self] at hget
          have hfresh : (m₁.pte (.region1 pid) (addrPage + n)).valid = false := by
            rw [hself]
            exact hun (addrPage + n) (by omega) (by omega)
          have htop : m₂.pte (.region1 pid) (addrPage + n)
              = { valid := true, prot := PROT_READ ||| PROT_WRITE, pfn := f } := by
            rw [hpte, setPte_pte_self]
          have hrest : ∀ i, i ≠ addrPage + n →
              m₂.pte (.region1 pid) i = m.pte (.region1 pid) i := by
            intro i hne
            rw [hpte, setPte_pte_of_ne _ _ fun he => hne he.2]
          obtain ⟨rc, m', free', hrun, hiso', honly', hframe', hout, hgrown⟩ := ih hiso
            fun i hi hi' => by
              rw [hrest i (by omega)]
              exact hun i hi (by omega)
          refine ⟨rc, m', free', ?_, hiso', honly.trans honly', hframe'.trans hframe,
            fun i hi => ?_, ?_⟩
          · simp only [Machine.growStack, hget, show ¬ SUCCESS = ERROR by decide, if_false,
              hfresh, Bool.not_false, cAssert, if_true, Lib.ok_bind, ← hm₂]
            exact hrun
          · rw [hout i (by omega), hrest i (by omega)]
          · cases hgrown with
            | success enough rest mapped =>
                refine .success (Nat.succ_le_succ enough) (by rw [rest]; rfl) fun i hi hi' => ?_
                by_cases hin : i = addrPage + n
                · rw [hin, hout (addrPage + n) (by omega), htop]
                  exact ⟨f, List.mem_cons_self, rfl⟩
                · obtain ⟨g, hg, hentry⟩ := mapped i hi (by omega)
                  exact ⟨g, List.mem_cons_of_mem f hg, hentry⟩
            | error few => exact .error (Nat.succ_lt_succ few)

/-! ## The copy of a table -/

/-- The allocating loop of the copy makes the pages valid that are valid in the source. -/
theorem Isolated.allocRegion1Copy_valid {source dest i n : Nat} (h : m.Isolated own free)
    (hne : source ≠ dest) (hok : m.allocRegion1Copy source dest i n = (SUCCESS, m')) :
    OnlyTable (.region1 dest) m m' ∧ ∀ j, (m'.pte (.region1 dest) j).valid
      = ((m.pte (.region1 dest) j).valid ||
          decide (i ≤ j ∧ j < i + n) && (m.pte (.region1 source) j).valid) := by
  have htables : PageTable.region1 source ≠ .region1 dest := fun he => hne (by cases he; rfl)
  induction n generalizing m free i with
  | zero =>
      cases hok
      refine ⟨.refl, fun j => ?_⟩
      have hempty : ¬ (i ≤ j ∧ j < i + 0) := by omega
      rw [decide_eq_false hempty, Bool.false_and, Bool.or_false]
  | succ n ih =>
      -- Page `i`, and then the rest of the range.
      have hsplit : ∀ j, decide (i ≤ j ∧ j < i + (n + 1))
          = (decide (j = i) || decide (i + 1 ≤ j ∧ j < i + 1 + n)) := by
        intro j
        rw [← Bool.decide_or, decide_eq_decide]
        omega
      unfold Machine.allocRegion1Copy at hok
      split at hok
      case isFalse hv =>
          obtain ⟨honly, hvalid⟩ := ih h hok
          refine ⟨honly, fun j => ?_⟩
          rw [hvalid, hsplit]
          by_cases hji : j = i
          · subst hji
            simp [hv]
          · simp [hji]
      case isTrue hv =>
          cases free with
          | nil =>
              have hnil : (m.modifyPte (.region1 dest) i fun e =>
                  { e with valid := true, prot := PROT_WRITE }).FreeList [] := h.list.setPte _ _ _
              simp only [getUnusedFrame_nil hnil, if_true] at hok
              cases hok
          | cons f free =>
              obtain ⟨m₁, m₂, hget, hself, hm₂, hiso, honly, -, hpte⟩ := h.getUnusedFrame
                ⟨.region1 dest, i⟩ PROT_WRITE
                { m.pte (.region1 dest) i with valid := true, prot := PROT_WRITE }
              have hm : m₂ = m₁ := by
                rw [hm₂, modifyPte, hself]
                exact (congrArg (m₁.setPte (.region1 dest) i) hself.symm).trans (setPte_self _ _ _)
              have hget' : (m.modifyPte (.region1 dest) i fun e =>
                  { e with valid := true, prot := PROT_WRITE }).getUnusedFrame ⟨.region1 dest, i⟩
                  = (SUCCESS, m₁) := hget
              simp only [hget', show ¬ SUCCESS = ERROR by decide, if_false] at hok
              subst hm
              obtain ⟨honly', hvalid⟩ := ih hiso hok
              refine ⟨honly.trans honly', fun j => ?_⟩
              rw [hvalid, hsplit, honly.pte htables]
              by_cases hji : j = i
              · subst hji
                simp [hpte, hv]
              · rw [hpte, setPte_pte_of_ne _ _ fun he => hji he.2]
                simp [hji]

/-- The last loop of the copy changes permissions only. -/
theorem copyRegion1Prot_valid (m : Machine) (source dest i n : Nat) :
    OnlyTable (.region1 dest) m (m.copyRegion1Prot source dest i n) ∧
      ∀ j, ((m.copyRegion1Prot source dest i n).pte (.region1 dest) j).valid
        = (m.pte (.region1 dest) j).valid := by
  induction n generalizing m i with
  | zero => exact ⟨.refl, fun _ => rfl⟩
  | succ n ih =>
      simp only [Machine.copyRegion1Prot]
      split
      case isFalse => exact ih m (i + 1)
      case isTrue =>
          obtain ⟨honly, hvalid⟩ := ih (m.modifyPte (.region1 dest) i fun e =>
            { e with prot := (m.pte (.region1 source) i).prot }) (i + 1)
          refine ⟨(OnlyTable.setPte i _).trans honly, fun j => (hvalid j).trans ?_⟩
          by_cases hji : j = i
          · subst hji
            simp [modifyPte]
          · rw [modifyPte, setPte_pte_of_ne _ _ fun he => hji he.2]

/-- Copying a page through the temporary table changes that table only. -/
theorem copyThroughTemp_onlyTable {e : Pte} {j k : Nat}
    (hok : ((m.setPte .tempRegion1 j e).flushPage j).copyRegion1PageData k j = .ok m') :
    OnlyTable .tempRegion1 m m' := by
  have hsame := copyPage_sameTables hok
  have hset : OnlyTable .tempRegion1 m
      ((((m.setPte .tempRegion1 j e).flushPage j).access k).access j) :=
    (OnlyTable.setPte j e).trans ⟨fun _ _ => rfl, rfl, rfl, rfl⟩
  exact hset.trans (.of_sameTables hsame)

theorem copyRegion1Data_onlyTable {dest i : Nat} (hok : m.copyRegion1Data dest i = .ok m') :
    OnlyTable .tempRegion1 m m' := by
  induction i generalizing m with
  | zero =>
      cases hok
      exact .refl
  | succ i ih =>
      simp only [Machine.copyRegion1Data] at hok
      split at hok
      · obtain ⟨m₁, hcopy, hrest⟩ := bind_eq_ok.mp hok
        exact (copyThroughTemp_onlyTable hcopy).trans (ih hrest)
      · exact ih hok

theorem copyLastRegion1Page_onlyTable {dest : Nat} (hok : m.copyLastRegion1Page dest = .ok m') :
    OnlyTable .tempRegion1 m m' := by
  unfold Machine.copyLastRegion1Page at hok
  split at hok
  · exact copyThroughTemp_onlyTable hok
  · cases hok
    exact .refl

/-- The allocating loop of the copy ends with `SUCCESS` or `ERROR`. -/
theorem allocRegion1Copy_result (m : Machine) (source dest i n : Nat) :
    (m.allocRegion1Copy source dest i n).1 = ERROR ∨
      (m.allocRegion1Copy source dest i n).1 = SUCCESS := by
  induction n generalizing m i with
  | zero => exact .inr rfl
  | succ n ih =>
      simp only [Machine.allocRegion1Copy]
      split
      · split
        · exact .inl rfl
        · exact ih _ _
      · exact ih _ _

/-- The copy of a table, into a table that was empty, has the valid pages of the source. No
table of another process changes. -/
theorem Isolated.copyRegion1_valid {source dest : Nat} (h : m.Isolated own free)
    (hne : source ≠ dest)
    (hok : m.copyRegion1PageTableAndData source dest = .ok (SUCCESS, m')) :
    (∀ t, t ≠ .region1 dest → t ≠ .tempRegion1 → m'.pte t = m.pte t) ∧
      ∀ j, j < NUM_PAGES_REG_1 → (m.pte (.region1 dest) j).valid = false →
        (m'.pte (.region1 dest) j).valid = (m.pte (.region1 source) j).valid := by
  unfold Machine.copyRegion1PageTableAndData at hok
  generalize halloc : m.allocRegion1Copy source dest 0 NUM_PAGES_REG_1 = alloc at hok
  obtain ⟨rc, m₁⟩ := alloc
  rcases ite_eq_ok hok with ⟨hrc, hok⟩ | ⟨hrc, hok⟩
  · cases hok
  obtain ⟨m₂, hlast, hok⟩ := bind_eq_ok.mp hok
  obtain ⟨m₃, hdata, hret⟩ := bind_eq_ok.mp hok
  obtain rfl : rc = SUCCESS := by
    have hresult := m.allocRegion1Copy_result source dest 0 NUM_PAGES_REG_1
    rw [halloc] at hresult
    exact hresult.resolve_left hrc
  obtain ⟨honly₁, hvalid₁⟩ := h.allocRegion1Copy_valid hne halloc
  obtain ⟨honly₄, hvalid₄⟩ := m₃.copyRegion1Prot_valid source dest 0 NUM_PAGES_REG_1
  generalize m₃.copyRegion1Prot source dest 0 NUM_PAGES_REG_1 = m₄ at hret honly₄ hvalid₄
  simp only [Lib.pure_eq_ok, Except.ok.injEq, Prod.mk.injEq, true_and] at hret
  subst hret
  -- In between only the temporary table changes.
  have hmiddle : ∀ t, t ≠ .tempRegion1 → m₃.pte t = m₁.pte t := by
    intro t ht
    funext j
    refine ((copyRegion1Data_onlyTable hdata).pte ht j).trans ?_
    refine (setPte_pte_of_ne _ _ fun he => ht he.1).trans ?_
    refine ((copyLastRegion1Page_onlyTable hlast).pte ht j).trans ?_
    simp [Machine.useTempRegion1, ht]
  refine ⟨fun t ht ht' => ?_, fun j hj hblank => ?_⟩
  · funext j
    refine (honly₄.pte ht j).trans ?_
    rw [hmiddle t ht', honly₁.pte ht]
  · refine (hvalid₄ j).trans ?_
    rw [hmiddle _ (by simp), hvalid₁, hblank]
    simp [hj]

/-! ## Loading a program -/

/-- Page `j` is one of the `num` pages from `start` on, as the loops of `VMem.c` count them. -/
def InPages (start num j : Nat) : Prop := start ≤ j ∧ j < start + pagesFrom start num

instance (start num j : Nat) : Decidable (InPages start num j) :=
  inferInstanceAs (Decidable (_ ∧ _))

/-- The pages that `mapNewRegion1Pages` makes valid, when it does not fail. -/
theorem Isolated.mapPages_valid {p n prot : Nat} {rc : Int} (h : m.Isolated own free)
    (hown : ∀ i < NUM_PAGES_REG_1, own ⟨.region1 pid, i⟩) (hrc : rc ≠ ERROR)
    (hok : m.mapNewRegion1Pages pid p n prot = .ok (rc, m')) :
    ∃ free', m'.Isolated own free' ∧ ∀ j, (m'.pte (.region1 pid) j).valid = true ↔
      InPages p n j ∨ (m.pte (.region1 pid) j).valid = true := by
  obtain ⟨free', hiso, -, hmapped⟩ := h.mapNewRegion1Pages hown hok
  refine ⟨free', hiso, fun j => ?_⟩
  cases hmapped with
  | error _ _ _ => exact absurd rfl hrc
  | success _ _ _ _ hin hout =>
      by_cases hj : InPages p n j
      · exact iff_of_true (hin j hj.1 hj.2).1 (.inl hj)
      · rw [hout j hj, or_iff_right hj]

/-- The valid pages after `mapProgram`: text, data and stack, and those that were valid. -/
theorem Isolated.mapProgram_valid {li : LoadInfo} {args : List (List Byte)} {rc : Int}
    (h : m.Isolated own free) (hown : ∀ i < NUM_PAGES_REG_1, own ⟨.region1 pid, i⟩)
    (hrc : rc ≠ ERROR) (hok : m.mapProgram pid li args = .ok (rc, m')) (j : Nat) :
    (m'.pte (.region1 pid) j).valid = true ↔
      InPages (asUnsigned (addrToPage VMEM_1_LIMIT - stackNpg args - addrToPage VMEM_1_BASE))
          (asUnsigned (stackNpg args)) j ∨
        InPages li.dataPg1 (asUnsigned li.dataNpg) j ∨ InPages li.textPg1 li.tNpg j ∨
        (m.pte (.region1 pid) j).valid = true := by
  obtain ⟨⟨rc₁, m₁⟩, htext, hok⟩ := bind_eq_ok.mp hok
  rcases ite_eq_ok hok with ⟨-, hok⟩ | ⟨hrc₁, hok⟩
  · exact absurd (congrArg Prod.fst (Except.ok.inj hok)).symm hrc
  obtain ⟨⟨rc₂, m₂⟩, hdata, hok⟩ := bind_eq_ok.mp hok
  rcases ite_eq_ok hok with ⟨-, hok⟩ | ⟨hrc₂, hok⟩
  · exact absurd (congrArg Prod.fst (Except.ok.inj hok)).symm hrc
  obtain ⟨free₁, hiso₁, hvalid₁⟩ := h.mapPages_valid hown hrc₁ htext
  obtain ⟨free₂, hiso₂, hvalid₂⟩ := hiso₁.mapPages_valid hown hrc₂ hdata
  obtain ⟨free₃, hiso₃, hvalid₃⟩ := hiso₂.mapPages_valid hown hrc hok
  rw [hvalid₃, hvalid₂, hvalid₁]

theorem flushRegion1_sameTables (m : Machine) : SameTables m m.flushRegion1 :=
  ⟨rfl, rfl, rfl, rfl⟩

/-- The tables are the same when the kernel stores bytes of the program. -/
theorem readFile_sameTables {bytes : Option (List Byte)} {addr size : Nat} {rc : Int}
    (hok : m.readFile bytes addr size = .ok (rc, m')) : SameTables m m' := by
  cases bytes with
  | none =>
      cases hok
      exact .refl _
  | some bytes =>
      obtain ⟨m₁, hstore, hret⟩ := bind_eq_ok.mp hok
      cases hret
      exact storeBytes_sameTables hstore

theorem storeArgs_sameTables {cpp cp cpp' : Nat} {args : List (List Byte)}
    (hok : m.storeArgs cpp cp args = .ok (cpp', m')) : SameTables m m' := by
  induction args generalizing m cpp cp with
  | nil =>
      cases hok
      exact .refl _
  | cons arg args ih =>
      obtain ⟨m₁, hword, hrest⟩ := bind_eq_ok.mp hok
      obtain ⟨m₂, hbytes, hrest⟩ := bind_eq_ok.mp hrest
      exact ((storeBytes_sameTables hword).trans (storeBytes_sameTables hbytes)).trans (ih hrest)

/-- The arguments are stored where `cpp` is an address of region 1, and nowhere else. -/
theorem buildArgs_sameTables {args : List (List Byte)} (hok : m.buildArgs args = .ok m') :
    SameTables m m' ∧ VMEM_1_BASE ≤ argPointers args ∧ argPointers args < VMEM_1_LIMIT := by
  obtain ⟨m₁, hzero, hrest⟩ := bind_eq_ok.mp hok
  obtain ⟨m₂, hargc, hrest⟩ := bind_eq_ok.mp hrest
  obtain ⟨⟨cpp, m₃⟩, hargs, hrest⟩ := bind_eq_ok.mp hrest
  obtain ⟨m₄, hnull, hnull'⟩ := bind_eq_ok.mp hrest
  rw [storeZeros_eq] at hzero
  refine ⟨?_, ?_⟩
  · exact ((((storeBytes_sameTables hzero).trans (storeBytes_sameTables hargc)).trans
      (storeArgs_sameTables hargs)).trans (storeBytes_sameTables hnull)).trans
      (storeBytes_sameTables hnull')
  · obtain ⟨_, hbyte, -⟩ := bind_eq_ok.mp hargc
    obtain ⟨_, htranslate, -⟩ := bind_eq_ok.mp hbyte
    rcases ite_eq_ok htranslate with ⟨hrange, -⟩ | ⟨-, herr⟩
    · exact hrange
    · cases herr

/-- `changeProtRegion1Pages` keeps the valid pages. -/
theorem changeProtLoop_valid {p n prot : Nat}
    (hok : m.changeProtRegion1PagesLoop pid prot p n = .ok m') :
    OnlyTable (.region1 pid) m m' ∧
      ∀ j, (m'.pte (.region1 pid) j).valid = (m.pte (.region1 pid) j).valid := by
  induction n generalizing m p with
  | zero =>
      cases hok
      exact ⟨.refl, fun _ => rfl⟩
  | succ n ih =>
      obtain ⟨_, -, hok⟩ := bind_eq_ok.mp hok
      obtain ⟨_, -, hok⟩ := bind_eq_ok.mp hok
      obtain ⟨honly, hvalid⟩ := ih hok
      refine ⟨(OnlyTable.setPte p _).trans honly, fun j => (hvalid j).trans ?_⟩
      by_cases hj : j = p
      · subst hj
        simp [modifyPte]
      · rw [modifyPte, setPte_pte_of_ne _ _ fun he => hj he.2]

/-- Filling the pages of a program keeps them valid. When it succeeds, the new stack pointer
is in region 1. -/
theorem fillProgram_valid {file : Executable} {li : LoadInfo} {args : List (List Byte)} {rc : Int}
    (hok : m.fillProgram pid file li args = .ok (rc, m')) :
    OnlyTable (.region1 pid) m m' ∧
      (∀ j, (m'.pte (.region1 pid) j).valid = (m.pte (.region1 pid) j).valid) ∧
      (rc = KILL ∨ VMEM_1_BASE ≤ argPointers args ∧ argPointers args < VMEM_1_LIMIT) := by
  obtain ⟨⟨got₁, m₁⟩, htext, hok⟩ := bind_eq_ok.mp hok
  have hsame₁ := readFile_sameTables htext
  rcases ite_eq_ok hok with ⟨-, hok⟩ | ⟨-, hok⟩
  · cases hok
    exact ⟨.of_sameTables hsame₁, fun j => by rw [hsame₁.pte], .inl rfl⟩
  obtain ⟨⟨got₂, m₂⟩, hdata, hok⟩ := bind_eq_ok.mp hok
  have hsame₂ := hsame₁.trans (readFile_sameTables hdata)
  rcases ite_eq_ok hok with ⟨-, hok⟩ | ⟨-, hok⟩
  · cases hok
    exact ⟨.of_sameTables hsame₂, fun j => by rw [hsame₂.pte], .inl rfl⟩
  obtain ⟨m₃, hprot, hok⟩ := bind_eq_ok.mp hok
  obtain ⟨honly₃, hvalid₃⟩ := changeProtLoop_valid hprot
  obtain ⟨m₄, hzero, hok⟩ := bind_eq_ok.mp hok
  rw [storeZeros_eq] at hzero
  obtain ⟨m₅, hbuild, hret⟩ := bind_eq_ok.mp hok
  cases hret
  obtain ⟨hsame₅, hrange⟩ := buildArgs_sameTables hbuild
  have hsame : SameTables m₃ m' :=
    ((flushRegion1_sameTables m₃).trans (storeBytes_sameTables hzero)).trans hsame₅
  refine ⟨((OnlyTable.of_sameTables hsame₂).trans honly₃).trans (.of_sameTables hsame),
    fun j => ?_, .inr hrange⟩
  rw [hsame.pte, hvalid₃, hsame₂.pte]

/-- `LoadProgram` changes the table of its process only. When it succeeds, the valid pages are
those of the new program. -/
theorem Isolated.commitProgram_valid {live : Nat → Bool} {space : Space} {file : Executable}
    {li : LoadInfo} {args : List (List Byte)} {r : LoadResult}
    (h : m.Isolated (ownedBy live) free) (hlive : live pid = true)
    (hok : Theynix.commitProgram m pid space file li args = .ok r) :
    OnlyTable (.region1 pid) m r.machine ∧ (r.rc = SUCCESS →
      VMEM_1_BASE ≤ argPointers args ∧ argPointers args < VMEM_1_LIMIT ∧
        r.space.userBrkPage = li.dataPg1 + li.dataNpg ∧
        r.space.lowestUserStackPage
          = (addrToPage space.userContext.sp : Int) - addrToPage VMEM_1_BASE ∧
        ∀ j < NUM_PAGES_REG_1, (r.machine.pte (.region1 pid) j).valid = true ↔
          InPages (asUnsigned (addrToPage VMEM_1_LIMIT - stackNpg args - addrToPage VMEM_1_BASE))
              (asUnsigned (stackNpg args)) j ∨
            InPages li.dataPg1 (asUnsigned li.dataNpg) j ∨ InPages li.textPg1 li.tNpg j) := by
  obtain ⟨free₀, hiso₀, honly₀, -, hempty⟩ := h.freeRegion1PageTable hlive
  obtain ⟨⟨rc₁, m₁⟩, hmap, hok⟩ := bind_eq_ok.mp hok
  obtain ⟨free₁, hiso₁, honly₁⟩ := hiso₀.mapProgram hlive hmap
  rcases ite_eq_ok hok with ⟨-, hok⟩ | ⟨hrc₁, hok⟩
  · cases hok
    exact ⟨honly₀.trans honly₁, fun hrc => absurd (show ERROR = SUCCESS from hrc) (by decide)⟩
  obtain ⟨⟨rc₂, m₂⟩, hfill, hok⟩ := bind_eq_ok.mp hok
  obtain ⟨honly₂, hvalid₂, hrange⟩ := fillProgram_valid hfill
  have honly := ((honly₀.trans honly₁).trans (.of_sameTables (flushRegion1_sameTables m₁))).trans
    honly₂
  rcases ite_eq_ok hok with ⟨-, hok⟩ | ⟨hrc₂, hok⟩
  · cases hok
    exact ⟨honly, fun hrc => absurd (show KILL = SUCCESS from hrc) (by decide)⟩
  cases hok
  obtain ⟨hbase, hlimit⟩ := hrange.resolve_left hrc₂
  refine ⟨honly, fun _ => ⟨hbase, hlimit, rfl, rfl, fun j hj => ?_⟩⟩
  rw [hvalid₂, flushRegion1_pte, hiso₀.mapProgram_valid (ownedBy_region1 hlive) hrc₁ hmap,
    hempty j hj]
  simp

end

end Machine

end Theynix
