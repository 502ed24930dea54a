import Mathlib.Algebra.GroupWithZero.Nat
import Theynix.VMem

/-!
# `Theynix.UserMemory`: checking what a process passes in

`ValidatePage`, `ValidateUserArg` and `ValidateUserString`, and the first half of
`KernelExec`, which checks the file name and the argument vector and copies them.

`validateUserArg` also returns the page table indices it consulted. The principal result is
`validateUserArg_exact_iff`: exactly when the answer is the right one and every consulted
index is inside the table. The last page the code looks at is computed from the length
alone, without the offset of the argument in its first page.
-/

set_option autoImplicit false

namespace Theynix

/-! ## The source -/

/-- `ValidatePage`, on the region 1 table of the current process. -/
def validatePage (table : Nat → Pte) (page permissions : Nat) : Bool :=
  (table page).valid && ((table page).prot &&& permissions == permissions)

/-- The loop of `ValidateUserArg`, from page `i` with `n` pages left: the answer, and the
indices consulted. -/
def validatePages (table : Nat → Pte) (permissions i : Nat) : Nat → Bool × List Nat
  | 0 => (true, [])
  | n + 1 =>
    if !validatePage table i permissions then (false, [i])
    else
      let (answer, consulted) := validatePages table permissions (i + 1) n
      (answer, i :: consulted)

/-- `ValidateUserArg`: the answer, and the indices consulted. -/
def validateUserArg (table : Nat → Pte) (arg : Nat) (numBytes : Int) (permissions : Nat) :
    Bool × List Nat :=
  if arg ≥ VMEM_1_LIMIT then (false, [])
  else if arg < VMEM_1_BASE then (false, [])
  else
    let startPage := addrToPage (arg - VMEM_1_BASE)
    -- The offset of `arg` in its page does not count.
    let finishPage : Int := startPage + (numBytes >>> PAGESHIFT)
    validatePages table permissions startPage (finishPage + 1 - startPage).toNat

/-- The loop of `ValidateUserString`. The address grows with each turn and a read at
`VMEM_1_LIMIT` faults, so `VMEM_1_LIMIT` is fuel enough. -/
def validateUserStringLoop (m : Machine) (pid str : Nat) : Nat → Except Stop Bool
  | 0 => .error .hang
  | fuel + 1 => do
    let c ← m.loadByte str
    if c = 0 then return true
    else
      let str := str + 1
      if !validatePage (m.pte (.region1 pid)) (addrToPage (str - VMEM_1_BASE)) PROT_READ then
        return false
      else validateUserStringLoop m pid str fuel

/-- `ValidateUserString`. -/
def validateUserString (m : Machine) (pid str : Nat) : Except Stop Bool :=
  if str ≥ VMEM_1_LIMIT then .ok false
  else if str < VMEM_1_BASE then .ok false
  else if !validatePage (m.pte (.region1 pid)) (addrToPage (str - VMEM_1_BASE)) PROT_READ then
    .ok false
  else validateUserStringLoop m pid str VMEM_1_LIMIT

/-- The bytes of a string, without the NUL: what `strlen` and `strncpy` read. -/
def loadString (m : Machine) (str : Nat) : Nat → Except Stop (List Byte)
  | 0 => .error .hang
  | fuel + 1 => do
    let c ← m.loadByte str
    if c = 0 then return []
    else
      let rest ← loadString m (str + 1) fuel
      return c :: rest

/-- The loop of `KernelExec` over the argument vector: its pointers up to the null pointer,
`none` when a word of it is not readable. -/
def loadArgvec (m : Machine) (pid argvecPtr : Nat) : Nat → Except Stop (Option (List Nat))
  | 0 => .error .hang
  | fuel + 1 => do
    if !(validateUserArg (m.pte (.region1 pid)) argvecPtr 4 PROT_READ).1 then return none
    else
      let arg ← m.loadWord argvecPtr
      if arg = 0 then return some []
      else
        let rest ← loadArgvec m pid (argvecPtr + 4) fuel
        return rest.map fun args => arg :: args

/-- Checks every string of the argument vector. -/
def validateArgs (m : Machine) (pid : Nat) : List Nat → Except Stop Bool
  | [] => .ok true
  | arg :: args => do
    let ok ← validateUserString m pid arg
    if !ok then return false else validateArgs m pid args

/-- Copies the strings of the argument vector. -/
def copyArgs (m : Machine) : List Nat → Except Stop (List (List Byte))
  | [] => .ok []
  | arg :: args => do
    let s ← loadString m arg VMEM_1_LIMIT
    let rest ← copyArgs m args
    return s :: rest

/-- The bytes the copies of a file name and of the arguments take, with their NULs. -/
def stringBytes (strings : List (List Byte)) : Nat := (strings.map fun s => s.length + 1).sum

/-- The first half of `KernelExec`: the file name and the arguments in the kernel heap,
`none` when one of the checks fails. The kernel heap has room for `heapBytes` bytes. A copy
that does not fit is written through the null pointer that `calloc` returns. -/
def execArgs (m : Machine) (pid filename argvec heapBytes : Nat) :
    Except Stop (Option (List Byte × Option (List (List Byte)))) := do
  let ok ← validateUserString m pid filename
  if !ok then return none
  else
    let name ← loadString m filename VMEM_1_LIMIT
    if heapBytes < stringBytes [name] then .error .fault
    else if argvec = 0 then return some (name, none)
    else
      let pointers ← loadArgvec m pid argvec VMEM_1_LIMIT
      match pointers with
      | none => return none
      | some pointers =>
        let ok ← validateArgs m pid pointers
        if !ok then return none
        else
          let args ← copyArgs m pointers
          if heapBytes < stringBytes (name :: args) then .error .fault
          else return some (name, some args)

/-! ## The page range of `ValidateUserArg` -/

section
variable {table : Nat → Pte} {permissions : Nat}

/-- The loop accepts when it accepts every page. -/
theorem validatePages_eq_true {i n : Nat} :
    (validatePages table permissions i n).1 = true ↔
      ∀ p, i ≤ p → p < i + n → validatePage table p permissions = true := by
  induction n generalizing i with
  | zero =>
      refine ⟨fun _ p hp hp' => ?_, fun _ => rfl⟩
      omega
  | succ n ih =>
      cases hv : validatePage table i permissions with
      | false =>
          simp only [validatePages, hv, Bool.not_false, if_true, Bool.false_eq_true, false_iff]
          intro h
          rw [h i (Nat.le_refl i) (by omega)] at hv
          cases hv
      | true =>
          simp only [validatePages, hv, Bool.not_true, Bool.false_eq_true, if_false]
          rw [ih]
          constructor
          · intro h p hp hp'
            by_cases hpi : p = i
            · rw [hpi, hv]
            · exact h p (by omega) (by omega)
          · intro h p hp hp'
            exact h p (by omega) (by omega)

/-- The loop consults a page when it accepts every page before. -/
theorem mem_validatePages {i n x : Nat} :
    x ∈ (validatePages table permissions i n).2 ↔
      i ≤ x ∧ x < i + n ∧ ∀ p, i ≤ p → p < x → validatePage table p permissions = true := by
  induction n generalizing i with
  | zero =>
      simp only [validatePages, List.not_mem_nil, false_iff]
      omega
  | succ n ih =>
      cases hv : validatePage table i permissions with
      | false =>
          simp only [validatePages, hv, Bool.not_false, if_true, List.mem_singleton]
          constructor
          · rintro rfl
            exact ⟨Nat.le_refl x, by omega, fun p hp hp' => by omega⟩
          · rintro ⟨hix, -, h⟩
            by_contra hne
            rw [h i (Nat.le_refl i) (by omega)] at hv
            cases hv
      | true =>
          simp only [validatePages, hv, Bool.not_true, Bool.false_eq_true, if_false,
            List.mem_cons, ih]
          constructor
          · rintro (rfl | ⟨h₁, h₂, h₃⟩)
            · exact ⟨Nat.le_refl x, by omega, fun p hp hp' => by omega⟩
            · refine ⟨by omega, by omega, fun p hp hp' => ?_⟩
              by_cases hpi : p = i
              · rw [hpi, hv]
              · exact h₃ p (by omega) hp'
          · rintro ⟨h₁, h₂, h₃⟩
            by_cases hxi : x = i
            · exact .inl hxi
            · exact .inr ⟨by omega, by omega, fun p hp hp' => h₃ p (by omega) hp'⟩

theorem validateUserArg_eq {arg : Nat} (n : Nat) (h : VMEM_1_BASE ≤ arg) (h' : arg < VMEM_1_LIMIT) :
    validateUserArg table arg n permissions
      = validatePages table permissions ((arg - VMEM_1_BASE) / 8192) (n / 8192 + 1) := by
  have hcount : (((((arg - VMEM_1_BASE) / 8192 : Nat) : Int) + ((n : Int) >>> PAGESHIFT) + 1)
      - (((arg - VMEM_1_BASE) / 8192 : Nat) : Int)).toNat = n / 8192 + 1 := by
    rw [Int.shiftRight_eq_div_pow, show (((2 ^ PAGESHIFT : Nat)) : Int) = 8192 by rfl]
    omega
  simp only [validateUserArg, addrToPage_eq, if_neg (Nat.not_le_of_lt h'),
    if_neg (Nat.not_lt_of_le h)]
  rw [hcount]

/-! ## What the check is for -/

/-- The entry is valid and grants the permissions. -/
def Pte.Grants (e : Pte) (permissions : Nat) : Prop :=
  e.valid = true ∧ e.prot &&& permissions = permissions

theorem validatePage_eq_true {page : Nat} :
    validatePage table page permissions = true ↔ (table page).Grants permissions := by
  simp only [validatePage, Pte.Grants, Bool.and_eq_true, beq_iff_eq]

/-- Every byte of `[arg, arg + n)` lies in region 1, on a page that grants the permissions. -/
def RangeGranted (table : Nat → Pte) (arg n permissions : Nat) : Prop :=
  ∀ a, arg ≤ a → a < arg + n →
    VMEM_1_BASE ≤ a ∧ a < VMEM_1_LIMIT ∧
      (table (addrToPage (a - VMEM_1_BASE))).Grants permissions

/-- `ValidateUserArg` gives the right answer, and consults no index outside the table. -/
def UserArgExact (table : Nat → Pte) (arg n permissions : Nat) : Prop :=
  ((validateUserArg table arg n permissions).1 = true ↔ RangeGranted table arg n permissions) ∧
    ∀ i ∈ (validateUserArg table arg n permissions).2, i < NUM_PAGES_REG_1

/-- The pages `startPage`, ..., the smaller one of `lastPage` and the last page of the table,
do not all grant the permissions. -/
def SomePageRefuses (table : Nat → Pte) (permissions startPage lastPage : Nat) : Prop :=
  ∃ p, startPage ≤ p ∧ p ≤ lastPage ∧ p < NUM_PAGES_REG_1 ∧ ¬ (table p).Grants permissions

/-- The condition under which `ValidateUserArg` is exact. The page of the first byte is
`s`, the page of the last byte is `e`, and the code looks at the pages from `s` to `f`. -/
def UserArgHarmless (table : Nat → Pte) (arg n permissions : Nat) : Prop :=
  let s := addrToPage (arg - VMEM_1_BASE)
  let f := s + addrToPage n
  let e := addrToPage (arg - VMEM_1_BASE + n - 1)
  arg < VMEM_1_BASE ∨ VMEM_1_LIMIT ≤ arg ∨
    SomePageRefuses table permissions s (min e f) ∨
    max e f < NUM_PAGES_REG_1 ∧ (e = f ∨ (table (max e f)).Grants permissions)

/-- The byte range is granted when its pages are. -/
theorem rangeGranted_iff {arg n : Nat} (h : VMEM_1_BASE ≤ arg) (hn : 1 ≤ n) :
    RangeGranted table arg n permissions ↔
      (arg - VMEM_1_BASE + n - 1) / 8192 < NUM_PAGES_REG_1 ∧
        ∀ p, (arg - VMEM_1_BASE) / 8192 ≤ p → p ≤ (arg - VMEM_1_BASE + n - 1) / 8192 →
          (table p).Grants permissions := by
  simp only [RangeGranted, addrToPage_eq, VMEM_1_BASE, VMEM_1_LIMIT, NUM_PAGES_REG_1] at h ⊢
  constructor
  · intro hall
    have hlast := (hall (arg + n - 1) (by omega) (by omega)).2.1
    refine ⟨by omega, fun p hp hp' => ?_⟩
    -- The first byte of the range on page `p`.
    have hbyte := (hall (max arg (0x100000 + p * 8192)) (by omega) (by omega)).2.2
    have hpage : (max arg (0x100000 + p * 8192) - 0x100000) / 8192 = p := by omega
    rwa [hpage] at hbyte
  · rintro ⟨hlast, hall⟩ a ha ha'
    exact ⟨by omega, by omega, hall _ (by omega) (by omega)⟩

/-- Looking at the pages from `s` to `f` instead of those from `s` to `e`. -/
theorem pages_exact_iff {grants : Nat → Prop} {s e f : Nat} (hse : s ≤ e) (hsf : s ≤ f)
    (hef : e ≤ f + 1) (hfe : f ≤ e + 1) (hs : s < 128) :
    ((∀ p, s ≤ p → p ≤ f → grants p) ↔ e < 128 ∧ ∀ p, s ≤ p → p ≤ e → grants p) ∧
        (∀ x, s ≤ x → x ≤ f → (∀ p, s ≤ p → p < x → grants p) → x < 128) ↔
      (∃ p, s ≤ p ∧ p ≤ min e f ∧ p < 128 ∧ ¬ grants p) ∨
        max e f < 128 ∧ (e = f ∨ grants (max e f)) := by
  by_cases hall : ∃ p, s ≤ p ∧ p ≤ min e f ∧ p < 128 ∧ ¬ grants p
  · -- Both ranges contain the bad page, and the loop stops there at the latest.
    refine ⟨fun _ => .inl hall, fun _ => ?_⟩
    obtain ⟨p, hsp, hp, hp128, hbad⟩ := hall
    refine ⟨⟨fun h => absurd (h p hsp (by omega)) hbad,
      fun h => absurd (h.2 p hsp (by omega)) hbad⟩, fun x _ _ hx => ?_⟩
    by_contra hx128
    exact hbad (hx p hsp (by omega))
  · have hgood : ∀ p, s ≤ p → p ≤ min e f → p < 128 → grants p := by
      intro p h₁ h₂ h₃
      by_contra hbad
      exact hall ⟨p, h₁, h₂, h₃, hbad⟩
    constructor
    · rintro ⟨hiff, hseen⟩
      have hf : f < 128 := by
        by_contra hf
        have := hseen 128 (by omega) (by omega) fun p h₁ h₂ => hgood p h₁ (by omega) h₂
        omega
      refine .inr ?_
      rcases Nat.lt_trichotomy e f with hlt | heq | hgt
      · -- The loop looks at one page too many.
        have hcode := hiff.mpr ⟨by omega, fun p h₁ h₂ => hgood p h₁ (by omega) (by omega)⟩
        exact ⟨by omega, .inr (by rw [Nat.max_eq_right (by omega)]; exact hcode f hsf (by omega))⟩
      · exact ⟨by omega, .inl heq⟩
      · -- The loop misses the last page.
        obtain ⟨he, hspec⟩ := hiff.mp fun p h₁ h₂ => hgood p h₁ (by omega) (by omega)
        exact ⟨by omega, .inr (by rw [Nat.max_eq_left (by omega)]; exact hspec e hse (by omega))⟩
    · rintro (h | ⟨hmax, hlast⟩)
      · exact absurd h hall
      · have hpages : ∀ p, s ≤ p → p ≤ max e f → grants p := by
          intro p h₁ h₂
          by_cases hp : p ≤ min e f
          · exact hgood p h₁ hp (by omega)
          · rcases hlast with heq | hlast
            · omega
            · rwa [show p = max e f by omega]
        exact ⟨⟨fun _ => ⟨by omega, fun p h₁ h₂ => hpages p h₁ (by omega)⟩,
          fun _ p h₁ h₂ => hpages p h₁ (by omega)⟩, fun x _ hx _ => by omega⟩

/-- The answer is right, and no index outside the table is consulted, in exactly the
harmless cases. -/
theorem validateUserArg_exact_iff (table : Nat → Pte) (arg n permissions : Nat) (hn : 1 ≤ n) :
    UserArgExact table arg n permissions ↔ UserArgHarmless table arg n permissions := by
  have hn' : 0 < n := hn
  by_cases hlo : arg < VMEM_1_BASE
  · have hcode : validateUserArg table arg n permissions = (false, []) := by
      simp only [validateUserArg]
      rw [if_pos hlo, ite_self]
    refine ⟨fun _ => .inl hlo, fun _ => ?_⟩
    simp only [UserArgExact, hcode, List.not_mem_nil, Bool.false_eq_true, false_iff]
    exact ⟨fun h => absurd (h arg (Nat.le_refl arg) (by omega)).1 (Nat.not_le_of_lt hlo),
      fun i hi => by cases hi⟩
  by_cases hhi : VMEM_1_LIMIT ≤ arg
  · have hcode : validateUserArg table arg n permissions = (false, []) := by
      simp only [validateUserArg]
      rw [if_pos hhi]
    refine ⟨fun _ => .inr (.inl hhi), fun _ => ?_⟩
    simp only [UserArgExact, hcode, List.not_mem_nil, Bool.false_eq_true, false_iff]
    exact ⟨fun h => absurd (h arg (Nat.le_refl arg) (by omega)).2.1 (Nat.not_lt_of_le hhi),
      fun i hi => by cases hi⟩
  have hlo' : VMEM_1_BASE ≤ arg := Nat.le_of_not_lt hlo
  have hhi' : arg < VMEM_1_LIMIT := Nat.lt_of_not_le hhi
  have hcode : UserArgExact table arg n permissions ↔
      ((∀ p, (arg - VMEM_1_BASE) / 8192 ≤ p → p ≤ (arg - VMEM_1_BASE) / 8192 + n / 8192 →
          (table p).Grants permissions) ↔
        (arg - VMEM_1_BASE + n - 1) / 8192 < 128 ∧
          ∀ p, (arg - VMEM_1_BASE) / 8192 ≤ p → p ≤ (arg - VMEM_1_BASE + n - 1) / 8192 →
            (table p).Grants permissions) ∧
      ∀ x, (arg - VMEM_1_BASE) / 8192 ≤ x → x ≤ (arg - VMEM_1_BASE) / 8192 + n / 8192 →
        (∀ p, (arg - VMEM_1_BASE) / 8192 ≤ p → p < x → (table p).Grants permissions) →
          x < 128 := by
    simp only [UserArgExact, validateUserArg_eq n hlo' hhi', validatePages_eq_true,
      mem_validatePages, rangeGranted_iff hlo' hn, validatePage_eq_true]
    refine and_congr (iff_congr (forall_congr' fun p => ?_) Iff.rfl) (forall_congr' fun x => ?_)
    · rw [show p < (arg - VMEM_1_BASE) / 8192 + (n / 8192 + 1) ↔
        p ≤ (arg - VMEM_1_BASE) / 8192 + n / 8192 by omega]
    · rw [show x < (arg - VMEM_1_BASE) / 8192 + (n / 8192 + 1) ↔
        x ≤ (arg - VMEM_1_BASE) / 8192 + n / 8192 by omega]
      exact ⟨fun h h₁ h₂ h₃ => h ⟨h₁, h₂, h₃⟩, fun h h₁ => h h₁.1 h₁.2.1 h₁.2.2⟩
  have hs : (arg - VMEM_1_BASE) / 8192 < 128 := by
    have h₁ : 0x100000 ≤ arg := hlo'
    have h₂ : arg < 0x200000 := hhi'
    show (arg - 0x100000) / 8192 < 128
    omega
  rw [hcode, pages_exact_iff (by omega) (by omega) (by omega) (by omega) hs]
  simp only [UserArgHarmless, addrToPage_eq, hlo, hhi, false_or]
  rfl

/-- A region 1 table with page 0 mapped, readable and writable. -/
def onePageTable (i : Nat) : Pte :=
  if i = 0 then { valid := true, prot := PROT_READ ||| PROT_WRITE, pfn := 7 } else {}

/-- A word that starts two bytes before the end of the last mapped page: the code accepts
it, and its last two bytes are not mapped. -/
theorem validateUserArg_straddle : ¬ UserArgExact onePageTable 0x101FFE 4 PROT_WRITE := by
  intro h
  have hgranted := h.1.mp (by decide) 0x102000 (by decide) (by decide)
  exact absurd hgranted.2.2.1 (by decide)

/-- A word on the mapped page is handled right. -/
theorem validateUserArg_exact_inPage :
    1 ≤ 4 ∧ (UserArgExact onePageTable 0x100000 4 PROT_WRITE ↔
      UserArgHarmless onePageTable 0x100000 4 PROT_WRITE) :=
  ⟨by decide, validateUserArg_exact_iff onePageTable 0x100000 4 PROT_WRITE (by decide)⟩

end

end Theynix
