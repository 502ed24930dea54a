import Theynix.UserMemory

/-!
# `Theynix.UserString`: the scan of a user string

`ValidateUserString` reads a string byte by byte and checks each page when it steps onto
it. `scanUserString` is the same scan with a record of what it looks at: the page table
entries and the bytes, in order (`scanUserString_answer`). `Watched` is the monitor for such
a record: an index outside the table is never consulted, and a byte is read only on a page
that was consulted before and found readable.

The principal result is `validateUserString_exact_iff`. The scan gives the right answer, and
the monitor stays silent, unless the readable bytes go on to the end of region 1 without a
NUL: then the scan steps onto `VMEM_1_LIMIT` and consults the entry behind the table.
-/

set_option autoImplicit false

namespace Theynix

/-! ## The scan and its record -/

/-- What the scan looks at. -/
inductive ScanEvent where
  /-- `ValidatePage` looks at an entry of the page table. -/
  | consult (page : Nat)
  /-- The kernel reads the byte at an address. -/
  | read (addr : Nat)
deriving DecidableEq, Repr

/-- `validateUserStringLoop` with its record. -/
def scanUserStringLoop (m : Machine) (pid str : Nat) :
    Nat → Except Stop Bool × List ScanEvent
  | 0 => (.error .hang, [])
  | fuel + 1 =>
    match m.loadByte str with
    | .error stop => (.error stop, [.read str])
    | .ok c =>
      if c = 0 then (.ok true, [.read str])
      else
        let page := addrToPage (str + 1 - VMEM_1_BASE)
        if !validatePage (m.pte (.region1 pid)) page PROT_READ then
          (.ok false, [.read str, .consult page])
        else
          let (answer, events) := scanUserStringLoop m pid (str + 1) fuel
          (answer, .read str :: .consult page :: events)

/-- `validateUserString` with its record. -/
def scanUserString (m : Machine) (pid str : Nat) : Except Stop Bool × List ScanEvent :=
  if str ≥ VMEM_1_LIMIT then (.ok false, [])
  else if str < VMEM_1_BASE then (.ok false, [])
  else
    let page := addrToPage (str - VMEM_1_BASE)
    if !validatePage (m.pte (.region1 pid)) page PROT_READ then (.ok false, [.consult page])
    else
      let (answer, events) := scanUserStringLoop m pid str VMEM_1_LIMIT
      (answer, .consult page :: events)

/-- The monitor of a record, with the pages that were found readable so far. -/
def Watched (table : Nat → Pte) : List Nat → List ScanEvent → Prop
  | _, [] => True
  | found, .consult page :: events =>
    page < NUM_PAGES_REG_1 ∧
      Watched table (if validatePage table page PROT_READ then page :: found else found) events
  | found, .read addr :: events =>
    VMEM_1_BASE ≤ addr ∧ addrToPage (addr - VMEM_1_BASE) ∈ found ∧ Watched table found events

section
variable {m : Machine} {pid str : Nat}

/-- The record does not change the answer of the loop. -/
theorem scanUserStringLoop_answer (fuel : Nat) :
    (scanUserStringLoop m pid str fuel).1 = validateUserStringLoop m pid str fuel := by
  induction fuel generalizing str with
  | zero => rfl
  | succ fuel ih =>
      unfold scanUserStringLoop validateUserStringLoop
      cases hload : m.loadByte str with
      | error stop => rfl
      | ok c =>
          show _ = if c = 0 then _ else _
          by_cases hc : c = 0
          · simp only [if_pos hc]
            rfl
          · simp only [if_neg hc, ← ih]
            split <;> rfl

/-- The record does not change the answer. -/
theorem scanUserString_answer :
    (scanUserString m pid str).1 = validateUserString m pid str := by
  unfold scanUserString validateUserString
  simp only [← scanUserStringLoop_answer]
  repeat' split
  all_goals rfl

end

/-! ## What the check is for -/

/-- The byte that the region 1 table of `pid` maps at an address. -/
def Machine.userByte (m : Machine) (pid a : Nat) : Byte :=
  m.frame (m.pte (.region1 pid) (addrToPage (a - VMEM_1_BASE))).pfn (a % PAGESIZE)

/-- There is a NUL in region 1, and every byte up to it is readable. -/
def UserString (m : Machine) (pid str : Nat) : Prop :=
  VMEM_1_BASE ≤ str ∧ str < VMEM_1_LIMIT ∧
    ∃ a, str ≤ a ∧ a < VMEM_1_LIMIT ∧ m.userByte pid a = 0 ∧
      RangeGranted (m.pte (.region1 pid)) str (a - str + 1) PROT_READ

/-- All bytes up to the end of region 1 are readable, and none is a NUL. -/
def RunsOff (m : Machine) (pid str : Nat) : Prop :=
  VMEM_1_BASE ≤ str ∧ str < VMEM_1_LIMIT ∧
    ∀ a, str ≤ a → a < VMEM_1_LIMIT →
      (m.pte (.region1 pid) (addrToPage (a - VMEM_1_BASE))).Grants PROT_READ ∧
        m.userByte pid a ≠ 0

/-- `ValidateUserString` returns, gives the right answer and stays inside region 1. -/
def UserStringExact (m : Machine) (pid str : Nat) : Prop :=
  (∃ answer, validateUserString m pid str = .ok answer ∧
      (answer = true ↔ UserString m pid str)) ∧
    Watched (m.pte (.region1 pid)) [] (scanUserString m pid str).2

/-! ## One turn -/

section
variable {m : Machine} {pid str : Nat}

/-- A byte on a readable page of the current process is read. -/
theorem loadByte_of_grants (hptbr : m.ptbr1 = .region1 pid) (hlo : VMEM_1_BASE ≤ str)
    (hhi : str < VMEM_1_LIMIT)
    (hpage : (m.pte (.region1 pid) (addrToPage (str - VMEM_1_BASE))).Grants PROT_READ) :
    m.loadByte str = .ok (m.userByte pid str) := by
  have htranslate : m.translate PROT_READ str =
      .ok ((m.pte (.region1 pid) (addrToPage (str - VMEM_1_BASE))).pfn, str % PAGESIZE) := by
    unfold Machine.translate
    rw [if_pos ⟨hlo, hhi⟩, hptbr]
    exact if_pos hpage
  unfold Machine.loadByte
  rw [htranslate]
  rfl

/-- The string ends at once. -/
theorem userString_of_nul (hlo : VMEM_1_BASE ≤ str) (hhi : str < VMEM_1_LIMIT)
    (hpage : (m.pte (.region1 pid) (addrToPage (str - VMEM_1_BASE))).Grants PROT_READ)
    (hnul : m.userByte pid str = 0) : UserString m pid str := by
  refine ⟨hlo, hhi, str, Nat.le_refl str, hhi, hnul, fun a ha ha' => ?_⟩
  obtain rfl : a = str := by omega
  exact ⟨hlo, hhi, hpage⟩

/-- A string goes on behind a byte that is not its NUL. -/
theorem userString_succ (hlo : VMEM_1_BASE ≤ str) (hhi : str + 1 < VMEM_1_LIMIT)
    (hpage : (m.pte (.region1 pid) (addrToPage (str - VMEM_1_BASE))).Grants PROT_READ)
    (hbyte : m.userByte pid str ≠ 0) :
    UserString m pid str ↔ UserString m pid (str + 1) := by
  constructor
  · rintro ⟨-, -, a, ha, ha', hnul, hrange⟩
    have hne : a ≠ str := by
      rintro rfl
      exact hbyte hnul
    exact ⟨by omega, hhi, a, by omega, ha', hnul,
      fun b hb hb' => hrange b (by omega) (by omega)⟩
  · rintro ⟨-, -, a, ha, ha', hnul, hrange⟩
    refine ⟨hlo, by omega, a, by omega, ha', hnul, fun b hb hb' => ?_⟩
    by_cases hb'' : b = str
    · rw [hb'']
      exact ⟨hlo, by omega, hpage⟩
    · exact hrange b (by omega) (by omega)

/-- A string starts on a readable page. -/
theorem UserString.grants (h : UserString m pid str) :
    (m.pte (.region1 pid) (addrToPage (str - VMEM_1_BASE))).Grants PROT_READ := by
  obtain ⟨-, -, a, ha, -, -, hrange⟩ := h
  exact (hrange str (Nat.le_refl str) (by omega)).2.2

/-- Running off the end from the next byte is running off the end. -/
theorem RunsOff.of_succ (hlo : VMEM_1_BASE ≤ str)
    (hpage : (m.pte (.region1 pid) (addrToPage (str - VMEM_1_BASE))).Grants PROT_READ)
    (hbyte : m.userByte pid str ≠ 0) (h : RunsOff m pid (str + 1)) : RunsOff m pid str := by
  obtain ⟨-, hhi, hall⟩ := h
  refine ⟨hlo, by omega, fun a ha ha' => ?_⟩
  by_cases hstr : a = str
  · rw [hstr]
    exact ⟨hpage, hbyte⟩
  · exact hall a (by omega) ha'

/-- The page of an address inside region 1 is inside the table. -/
theorem addrToPage_lt (hhi : str < VMEM_1_LIMIT) :
    addrToPage (str - VMEM_1_BASE) < NUM_PAGES_REG_1 := by
  have hhi' : str < 0x200000 := hhi
  rw [addrToPage_eq]
  show (str - 0x100000) / 8192 < 128
  omega

/-! ## The loop -/

/-- The loop is exact when it cannot run off the end. -/
theorem scanUserStringLoop_exact (found : List Nat) (hptbr : m.ptbr1 = .region1 pid) (fuel : Nat)
    (hlo : VMEM_1_BASE ≤ str) (hhi : str < VMEM_1_LIMIT) (hfuel : VMEM_1_LIMIT ≤ str + fuel)
    (hpage : (m.pte (.region1 pid) (addrToPage (str - VMEM_1_BASE))).Grants PROT_READ)
    (hfound : addrToPage (str - VMEM_1_BASE) ∈ found) (hends : ¬ RunsOff m pid str) :
    (∃ answer, (scanUserStringLoop m pid str fuel).1 = .ok answer ∧
        (answer = true ↔ UserString m pid str)) ∧
      Watched (m.pte (.region1 pid)) found (scanUserStringLoop m pid str fuel).2 := by
  induction fuel generalizing str found with
  | zero => omega
  | succ fuel ih =>
      unfold scanUserStringLoop
      rw [loadByte_of_grants hptbr hlo hhi hpage]
      by_cases hnul : m.userByte pid str = 0
      · simp only [if_pos hnul]
        exact ⟨⟨true, rfl, iff_of_true rfl (userString_of_nul hlo hhi hpage hnul)⟩,
          hlo, hfound, trivial⟩
      · simp only [if_neg hnul]
        have hnext : str + 1 < VMEM_1_LIMIT := by
          by_contra hlast
          refine hends ⟨hlo, hhi, fun a ha ha' => ?_⟩
          obtain rfl : a = str := by omega
          exact ⟨hpage, hnul⟩
        cases hvalid : validatePage (m.pte (.region1 pid))
            (addrToPage (str + 1 - VMEM_1_BASE)) PROT_READ with
        | false =>
            -- The string runs into a hole.
            simp only [Bool.not_false, if_true]
            refine ⟨⟨false, rfl, iff_of_false Bool.false_ne_true fun hstring => ?_⟩,
              hlo, hfound, addrToPage_lt hnext, trivial⟩
            have hgrants := ((userString_succ hlo hnext hpage hnul).mp hstring).grants
            rw [← validatePage_eq_true, hvalid] at hgrants
            cases hgrants
        | true =>
            simp only [Bool.not_true, Bool.false_eq_true, if_false]
            obtain ⟨⟨answer, hrun, hanswer⟩, hwatched⟩ := ih
              (addrToPage (str + 1 - VMEM_1_BASE) :: found) (by omega) hnext (by omega)
              (validatePage_eq_true.mp hvalid) List.mem_cons_self
              fun hoff => hends (hoff.of_succ hlo hpage hnul)
            refine ⟨⟨answer, hrun, hanswer.trans (userString_succ hlo hnext hpage hnul).symm⟩,
              hlo, hfound, addrToPage_lt hnext, ?_⟩
            rw [if_pos hvalid]
            exact hwatched

/-- The loop that runs off the end consults an entry behind the table. -/
theorem scanUserStringLoop_runsOff {found : List Nat} (hptbr : m.ptbr1 = .region1 pid)
    (fuel : Nat) (hfuel : VMEM_1_LIMIT ≤ str + fuel) (hoff : RunsOff m pid str) :
    ¬ Watched (m.pte (.region1 pid)) found (scanUserStringLoop m pid str fuel).2 := by
  obtain ⟨hlo, hhi, hall⟩ := hoff
  induction fuel generalizing str found with
  | zero => omega
  | succ fuel ih =>
      obtain ⟨hpage, hbyte⟩ := hall str (Nat.le_refl str) hhi
      unfold scanUserStringLoop
      rw [loadByte_of_grants hptbr hlo hhi hpage]
      simp only [if_neg hbyte]
      by_cases hnext : str + 1 < VMEM_1_LIMIT
      · have hvalid := validatePage_eq_true.mpr (hall (str + 1) (by omega) hnext).1
        simp only [hvalid, Bool.not_true, Bool.false_eq_true, if_false]
        rintro ⟨-, -, -, hwatched⟩
        exact ih (by omega) (by omega) hnext (fun a ha ha' => hall a (by omega) ha') hwatched
      · -- The next address is `VMEM_1_LIMIT`, and its page is not in the table.
        have hlast : ¬ addrToPage (str + 1 - VMEM_1_BASE) < NUM_PAGES_REG_1 := by
          have hnext' : ¬ str + 1 < 0x200000 := hnext
          rw [addrToPage_eq]
          show ¬ (str + 1 - 0x100000) / 8192 < 128
          omega
        split
        · exact fun hwatched => hlast hwatched.2.2.1
        · exact fun hwatched => hlast hwatched.2.2.1

end

/-! ## The check -/

/-- The answer is right, and the scan stays inside region 1, unless it runs off the end. -/
theorem validateUserString_exact_iff (m : Machine) (pid str : Nat)
    (hptbr : m.ptbr1 = .region1 pid) :
    UserStringExact m pid str ↔ ¬ RunsOff m pid str := by
  unfold UserStringExact
  rw [← scanUserString_answer]
  unfold scanUserString
  by_cases hhi : str ≥ VMEM_1_LIMIT
  · rw [if_pos hhi]
    exact iff_of_true ⟨⟨false, rfl, iff_of_false Bool.false_ne_true
      fun h => absurd h.2.1 (Nat.not_lt_of_le hhi)⟩, trivial⟩
      fun h => absurd h.2.1 (Nat.not_lt_of_le hhi)
  by_cases hlo : str < VMEM_1_BASE
  · rw [if_neg hhi, if_pos hlo]
    exact iff_of_true ⟨⟨false, rfl, iff_of_false Bool.false_ne_true
      fun h => absurd h.1 (Nat.not_le_of_lt hlo)⟩, trivial⟩
      fun h => absurd h.1 (Nat.not_le_of_lt hlo)
  have hlo' : VMEM_1_BASE ≤ str := Nat.le_of_not_lt hlo
  have hhi' : str < VMEM_1_LIMIT := Nat.lt_of_not_le hhi
  rw [if_neg hhi, if_neg hlo]
  cases hvalid : validatePage (m.pte (.region1 pid)) (addrToPage (str - VMEM_1_BASE))
      PROT_READ with
  | false =>
      have hrefused : ¬ (m.pte (.region1 pid) (addrToPage (str - VMEM_1_BASE))).Grants
          PROT_READ := by
        rw [← validatePage_eq_true, hvalid]
        exact Bool.false_ne_true
      simp only [hvalid, Bool.not_false, if_true]
      exact iff_of_true ⟨⟨false, rfl, iff_of_false Bool.false_ne_true
        fun h => hrefused h.grants⟩, addrToPage_lt hhi', trivial⟩
        fun h => hrefused (h.2.2 str (Nat.le_refl str) hhi').1
  | true =>
      simp only [hvalid, Bool.not_true, Bool.false_eq_true, if_false]
      constructor
      · rintro ⟨-, -, hwatched⟩ hoff
        exact scanUserStringLoop_runsOff hptbr VMEM_1_LIMIT (Nat.le_add_left _ _) hoff hwatched
      · intro hends
        obtain ⟨hanswer, hwatched⟩ := scanUserStringLoop_exact
          [addrToPage (str - VMEM_1_BASE)] hptbr VMEM_1_LIMIT hlo' hhi'
          (Nat.le_add_left _ _) (validatePage_eq_true.mp hvalid) List.mem_cons_self hends
        refine ⟨hanswer, addrToPage_lt hhi', ?_⟩
        rw [if_pos hvalid]
        exact hwatched

/-- A machine whose process 1 has one readable page, the last one of region 1, with a
given byte all over its frame. -/
def lastPageMachine (c : Byte) : Machine where
  frame _ _ := c
  pte t i :=
    if t = .region1 1 ∧ i = 127 then { valid := true, prot := PROT_READ, pfn := 7 } else {}
  ptbr1 := .region1 1
  freeFramesHead := -1
  freeFramesTail := -1
  kernelBrkPage := 110
  virtualMemoryEnabled := true

/-- The last byte of region 1 is readable and not a NUL: the scan steps onto
`VMEM_1_LIMIT` and consults the entry 128. -/
theorem validateUserString_runsOff : ¬ UserStringExact (lastPageMachine 0x41) 1 0x1FFFFF := by
  rintro ⟨-, hwatched⟩
  have hevents : (scanUserString (lastPageMachine 0x41) 1 0x1FFFFF).2
      = [.consult 127, .read 0x1FFFFF, .consult 128] := by decide +kernel
  rw [hevents] at hwatched
  exact absurd hwatched.2.2.2.1 (by decide)

/-- With a NUL at the last byte the check is exact. -/
theorem validateUserString_lastByte :
    UserStringExact (lastPageMachine 0) 1 0x1FFFFF ↔ ¬ RunsOff (lastPageMachine 0) 1 0x1FFFFF :=
  validateUserString_exact_iff (lastPageMachine 0) 1 0x1FFFFF rfl

end Theynix
