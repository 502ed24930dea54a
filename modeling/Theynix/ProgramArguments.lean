import Theynix.AddressSpace
import Theynix.UserBytes

/-!
# `Theynix.ProgramArguments`: the arguments on the stack of a new program

`LoadProgram` measures the arguments, throws the old program away and builds the argument list
at the top of region 1: `argc`, the pointers, two null pointers, zeros, and the strings.

`Machine.ArgsOnStack` is that list as the new program finds it, and `Machine.decodeArgs` reads
it as the start code of a program does. Both are about the memory of the process.

* `program_arguments`: a program that has been loaded finds its arguments.
-/

set_option autoImplicit false

namespace Theynix

open Theynix.Lib (bind_eq_ok ite_eq_ok)
open Machine (ownedBy)

namespace Machine

/-! ## Reading the arguments -/

/-- The byte that process `pid` finds at an address. -/
def byteAt (m : Machine) (pid : Pid) (va : Nat) : Option Byte := (m.memoryOf pid va).map Prod.snd

/-- The 32-bit word that process `pid` finds at an address. -/
def wordAt (m : Machine) (pid : Pid) (va : Nat) : Option Nat := do
  let b0 ← m.byteAt pid va
  let b1 ← m.byteAt pid (va + 1)
  let b2 ← m.byteAt pid (va + 2)
  let b3 ← m.byteAt pid (va + 3)
  return wordOfBytes b0 b1 b2 b3

/-- The string that process `pid` finds at an address, if it ends within `n` bytes. -/
def stringAt (m : Machine) (pid : Pid) (va : Nat) : Nat → Option (List Byte)
  | 0 => none
  | n + 1 => do
    let b ← m.byteAt pid va
    if b = 0 then return []
    else
      let rest ← m.stringAt pid (va + 1) n
      return b :: rest

/-- The strings to which `n` pointers from an address upwards lead. -/
def stringsAt (m : Machine) (pid : Pid) (va : Nat) : Nat → Option (List (List Byte))
  | 0 => some []
  | n + 1 => do
    let ptr ← m.wordAt pid va
    let arg ← m.stringAt pid ptr (VMEM_1_LIMIT - ptr)
    let args ← m.stringsAt pid (va + 4) n
    return arg :: args

/-- The arguments that a program finds when it starts with this stack pointer. -/
def decodeArgs (m : Machine) (pid : Pid) (sp : Nat) : Option (List (List Byte)) := do
  let argc ← m.wordAt pid sp
  m.stringsAt pid (sp + 4) argc

/-- The arguments as a program finds them: `argc` and the pointers, two null pointers, zeros,
and above them the strings. -/
structure ArgsOnStack (m : Machine) (pid : Pid) (sp : Nat) (args : List (List Byte)) : Prop where
  aligned : sp % 8 = 0
  argc : m.Holds pid sp (wordBytes args.length)
  argv : ∀ (i : Nat) (arg : List Byte), args[i]? = some arg → ∃ ptr,
    m.Holds pid (sp + 4 + 4 * i) (wordBytes ptr) ∧ m.Holds pid ptr (arg ++ [0]) ∧
      sp + 4 * (args.length + 3 + POST_ARGV_NULL_SPACE) ≤ ptr ∧
      ptr + (arg.length + 1) ≤ VMEM_1_LIMIT
  nulls : m.Holds pid (sp + 4 + 4 * args.length) (wordBytes 0) ∧
    m.Holds pid (sp + 8 + 4 * args.length) (wordBytes 0)
  space : m.Holds pid (sp + 12 + 4 * args.length) (List.replicate (4 * POST_ARGV_NULL_SPACE) 0)

section
variable {m : Machine} {pid : Pid} {va : Nat} {arg : List Byte} {args : List (List Byte)}

theorem wordAt_of_holds {u : Nat} (h : m.Holds pid va (wordBytes u)) (hu : u < 0x100000000) :
    m.wordAt pid va = some u := by
  obtain ⟨h₀, h⟩ := holds_cons.mp h
  obtain ⟨h₁, h⟩ := holds_cons.mp h
  obtain ⟨h₂, h⟩ := holds_cons.mp h
  obtain ⟨h₃, -⟩ := holds_cons.mp h
  have hword := congrArg some (wordOfBytes_wordBytes hu)
  simpa [wordAt, byteAt, h₀, h₁, h₂, h₃] using hword

theorem stringAt_of_holds {n : Nat} (h : m.Holds pid va (arg ++ [0])) (hzero : (0 : Byte) ∉ arg)
    (hn : arg.length < n) : m.stringAt pid va n = some arg := by
  induction arg generalizing va n with
  | nil =>
      obtain ⟨n, rfl⟩ := Nat.exists_eq_add_of_lt hn
      obtain ⟨hbyte, -⟩ := holds_cons.mp h
      simp [stringAt, byteAt, hbyte]
  | cons b arg ih =>
      obtain ⟨n, rfl⟩ : ∃ n', n = n' + 1 := ⟨n - 1, by omega⟩
      obtain ⟨hbyte, hrest⟩ := holds_cons.mp h
      obtain ⟨hb, hzero⟩ := not_or.mp (List.mem_cons.not.mp hzero)
      have hstring := ih hrest hzero (Nat.lt_of_succ_lt_succ hn)
      have hb' : b ≠ 0 := fun he => hb he.symm
      simp [stringAt, byteAt, hbyte, hb', hstring]

theorem stringsAt_of_argv
    (h : ∀ (i : Nat) (arg : List Byte), args[i]? = some arg → ∃ ptr,
      m.Holds pid (va + 4 * i) (wordBytes ptr) ∧ m.Holds pid ptr (arg ++ [0]) ∧
        ptr + (arg.length + 1) ≤ VMEM_1_LIMIT)
    (hzero : ∀ arg ∈ args, (0 : Byte) ∉ arg) : m.stringsAt pid va args.length = some args := by
  induction args generalizing va with
  | nil => rfl
  | cons arg args ih =>
      obtain ⟨ptr, hptr, hstring, hend⟩ := h 0 arg rfl
      have hlimit : ptr + (arg.length + 1) ≤ 0x200000 := hend
      have hword := wordAt_of_holds hptr (by omega)
      have harg := stringAt_of_holds hstring (hzero arg List.mem_cons_self)
        (show arg.length < VMEM_1_LIMIT - ptr from Nat.lt_sub_of_add_lt (by omega))
      have hrest : m.stringsAt pid (va + 4) args.length = some args := by
        refine ih (fun i arg hi => ?_) fun arg hmem => hzero arg (List.mem_cons_of_mem _ hmem)
        obtain ⟨ptr, hptr, hrest⟩ := h (i + 1) arg hi
        refine ⟨ptr, ?_, hrest⟩
        rwa [show va + 4 + 4 * i = va + 4 * (i + 1) by omega]
      rw [Nat.mul_zero, Nat.add_zero] at hword
      simp [stringsAt, hword, harg, hrest]

/-- A program reads the arguments that are on its stack. -/
theorem ArgsOnStack.decode {sp : Nat} (h : m.ArgsOnStack pid sp args)
    (hlength : args.length < 0x100000000) (hzero : ∀ arg ∈ args, (0 : Byte) ∉ arg) :
    m.decodeArgs pid sp = some args := by
  have hargc := wordAt_of_holds h.argc hlength
  have hargv : m.stringsAt pid (sp + 4) args.length = some args := by
    refine stringsAt_of_argv (fun i arg hi => ?_) hzero
    obtain ⟨ptr, hptr, hstring, -, hend⟩ := h.argv i arg hi
    exact ⟨ptr, hptr, hstring, hend⟩
  simp [decodeArgs, hargc, hargv]

end

/-! ## Building the arguments -/

/-- A byte is stored at an address from `low` up to `high`. -/
def StoreIn (low high : Nat) (m m' : Machine) : Prop :=
  ∃ va b, (low ≤ va ∧ va < high) ∧ m.storeByte va b = .ok m'

section
variable {m m' : Machine} {pid : Pid} {va va' low high : Nat} {bytes : List Byte}
  {args : List (List Byte)}

theorem storeBytes_storesIn (h : m.storeBytes va bytes = .ok m') (hlow : low ≤ va)
    (hhigh : va + bytes.length ≤ high) : Relation.ReflTransGen (StoreIn low high) m m' := by
  induction bytes generalizing m va with
  | nil =>
      cases h
      exact .refl
  | cons b bytes ih =>
      obtain ⟨m₁, hstore, hrest⟩ := bind_eq_ok.mp h
      rw [List.length_cons] at hhigh
      exact .head ⟨va, b, ⟨hlow, by omega⟩, hstore⟩ (ih hrest (by omega) (by omega))

/-- Bytes that are stored elsewhere leave what is in a range. -/
theorem Holds.storeBytes {bytes' : List Byte} (h : m.Holds pid va' bytes')
    (hptbr : m.ptbr1 = .region1 pid) (hown : m.OwnFrames pid)
    (hok : m.storeBytes va bytes = .ok m')
    (haway : va' + bytes'.length ≤ va ∨ va + bytes.length ≤ va') : m'.Holds pid va' bytes' :=
  h.congr fun i hi => storeBytes_memoryOf hptbr hown hok (by omega)

/-- A part of a range of zeros. -/
theorem Holds.zeros {n n' : Nat} (h : m.Holds pid va (List.replicate n 0)) (hlow : va ≤ va')
    (hhigh : va' + n' ≤ va + n) : m.Holds pid va' (List.replicate n' 0) := by
  intro i hi
  rw [List.length_replicate] at hi
  have hbyte := h (va' - va + i) (by rw [List.length_replicate]; omega)
  rw [show va + (va' - va + i) = va' + i by omega] at hbyte
  rw [hbyte, List.getElem?_replicate_of_lt (by omega), List.getElem?_replicate_of_lt hi]

/-- The loop stores the pointers in a row and the strings in a row. -/
theorem storeArgs_holds {cpp cp cpp' : Nat} (hptbr : m.ptbr1 = .region1 pid)
    (hown : m.OwnFrames pid) (hok : m.storeArgs cpp cp args = .ok (cpp', m'))
    (hsep : cpp + 4 * args.length ≤ cp) :
    cpp' = cpp + 4 * args.length ∧
      (∀ va, va < cpp ∨ cpp + 4 * args.length ≤ va ∧ va < cp ∨ cp + stringBytes args ≤ va →
        m'.memoryOf pid va = m.memoryOf pid va) ∧
      ∀ (i : Nat) (arg : List Byte), args[i]? = some arg → ∃ ptr,
        m'.Holds pid (cpp + 4 * i) (wordBytes ptr) ∧ m'.Holds pid ptr (arg ++ [0]) ∧
          cp ≤ ptr ∧ ptr + (arg.length + 1) ≤ cp + stringBytes args := by
  induction args generalizing m cpp cp with
  | nil =>
      cases hok
      exact ⟨rfl, fun _ _ => rfl, fun i arg hi => by cases hi⟩
  | cons arg args ih =>
      obtain ⟨m₁, hword, hrest⟩ := bind_eq_ok.mp hok
      obtain ⟨m₂, hbytes, hrest⟩ := bind_eq_ok.mp hrest
      have hsame₁ := storeBytes_sameTables hword
      have hsame₂ := hsame₁.trans (storeBytes_sameTables hbytes)
      have hptbr₁ := hsame₁.ptbr1.trans hptbr
      have hptbr₂ := hsame₂.ptbr1.trans hptbr
      have hown₁ := hown.congr hsame₁.pte
      have hown₂ := hown.congr hsame₂.pte
      have hsize : stringBytes (arg :: args) = arg.length + 1 + stringBytes args := rfl
      have hlen : (arg ++ [0]).length = arg.length + 1 := List.length_append
      have hfour : (wordBytes cp).length = 4 := rfl
      rw [List.length_cons] at hsep ⊢
      rw [hsize]
      obtain ⟨hcpp, hframe, hargv⟩ := ih hptbr₂ hown₂ hrest (by omega)
      -- The loop goes on behind the pointer and behind the string that have been stored.
      have hkept : ∀ va bytes, m₂.Holds pid va bytes →
          va + bytes.length ≤ cpp + 4 ∨ cp ≤ va ∧ va + bytes.length ≤ cp + arg.length + 1 →
          m'.Holds pid va bytes := fun va bytes h hva => h.congr fun i hi => hframe _ (by omega)
      refine ⟨by omega, fun va hva => ?_, fun i arg' hi => ?_⟩
      · rw [hframe va (by omega), storeBytes_memoryOf hptbr₁ hown₁ hbytes (by omega),
          storeBytes_memoryOf hptbr hown hword (by omega)]
      · cases i with
        | zero =>
            cases hi
            have hptr := (storeBytes_holds hptbr hown hword).storeBytes hptbr₁ hown₁ hbytes
              (.inl (by omega))
            have hstring := storeBytes_holds hptbr₁ hown₁ hbytes
            refine ⟨cp, hkept _ _ hptr (.inl (by omega)), hkept _ _ hstring (.inr (by omega)),
              Nat.le_refl _, by omega⟩
        | succ i =>
            obtain ⟨ptr, hptr, hstring, hlow, hhigh⟩ := hargv i arg' hi
            refine ⟨ptr, ?_, hstring, by omega, by omega⟩
            rwa [show cpp + 4 * (i + 1) = cpp + 4 + 4 * i by omega]

theorem storeArgs_storesIn {cpp cp cpp' : Nat} (hok : m.storeArgs cpp cp args = .ok (cpp', m'))
    (hlow : low ≤ cpp) (hsep : cpp + 4 * args.length ≤ cp) (hhigh : cp + stringBytes args ≤ high) :
    Relation.ReflTransGen (StoreIn low high) m m' := by
  induction args generalizing m cpp cp with
  | nil =>
      cases hok
      exact .refl
  | cons arg args ih =>
      obtain ⟨m₁, hword, hrest⟩ := bind_eq_ok.mp hok
      obtain ⟨m₂, hbytes, hrest⟩ := bind_eq_ok.mp hrest
      have hsize : stringBytes (arg :: args) = arg.length + 1 + stringBytes args := rfl
      have hlen : (arg ++ [0]).length = arg.length + 1 := List.length_append
      have hfour : (wordBytes cp).length = 4 := rfl
      rw [List.length_cons] at hsep
      have hpointer : Relation.ReflTransGen (StoreIn low high) m m₁ :=
        storeBytes_storesIn hword hlow (by omega)
      have hstring : Relation.ReflTransGen (StoreIn low high) m₁ m₂ :=
        storeBytes_storesIn hbytes (by omega) (by omega)
      exact (hpointer.trans hstring).trans (ih hrest (by omega) (by omega) (by omega))

/-- A string takes one byte at least. -/
theorem length_le_stringBytes (args : List (List Byte)) : args.length ≤ stringBytes args := by
  induction args with
  | nil => exact Nat.le_refl 0
  | cons arg args ih =>
      have hsize : stringBytes (arg :: args) = arg.length + 1 + stringBytes args := rfl
      rw [List.length_cons]
      omega

/-- Arguments that have been built fit below `VMEM_1_LIMIT`. -/
theorem argSpace_of_buildArgs (hok : m.buildArgs args = .ok m')
    (hsize : stringBytes args < 0x80000000) : argSpace args ≤ VMEM_1_LIMIT := by
  obtain ⟨-, -, hlimit⟩ := buildArgs_sameTables hok
  -- The first string is stored in region 1.
  have hbytes : stringBytes args ≤ 0x100000 := by
    obtain ⟨m₁, -, hrest⟩ := bind_eq_ok.mp hok
    obtain ⟨m₂, -, hrest⟩ := bind_eq_ok.mp hrest
    obtain ⟨⟨_, m₃⟩, hargs, -⟩ := bind_eq_ok.mp hrest
    cases args with
    | nil => exact Nat.zero_le _
    | cons arg args =>
        obtain ⟨m₄, -, hrest⟩ := bind_eq_ok.mp hargs
        obtain ⟨m₅, hstring, -⟩ := bind_eq_ok.mp hrest
        have hrange : VMEM_1_BASE ≤ argStrings (arg :: args) ∧
            argStrings (arg :: args) < VMEM_1_LIMIT := by
          have hfirst : ∃ b rest, arg ++ [0] = b :: rest := List.exists_cons_of_ne_nil (by simp)
          obtain ⟨b, rest, hcons⟩ := hfirst
          rw [hcons] at hstring
          obtain ⟨_, hbyte, -⟩ := bind_eq_ok.mp hstring
          obtain ⟨_, htranslate, -⟩ := bind_eq_ok.mp hbyte
          rcases ite_eq_ok htranslate with ⟨hrange, -⟩ | ⟨-, herr⟩
          · exact hrange
          · cases herr
        unfold argStrings at hrange
        simp only [VMEM_1_BASE, VMEM_1_LIMIT] at hrange
        clear hlimit hstring
        generalize stringBytes (arg :: args) = size at hrange hsize ⊢
        omega
  by_contra hfits
  have hlength := length_le_stringBytes args
  have hspace : argSpace args < 0x80000000 := by
    unfold argSpace
    simp only [POST_ARGV_NULL_SPACE]
    generalize stringBytes args = size at hbytes hlength ⊢
    omega
  obtain ⟨hlow, -⟩ := argPointers_wraps (Nat.lt_of_not_le hfits) hspace
  simp only [VMEM_1_LIMIT] at hlimit
  generalize argPointers args = pointers at hlimit hlow
  omega

/-- What `buildArgs` leaves on the stack. -/
theorem buildArgs_onStack (hptbr : m.ptbr1 = .region1 pid) (hown : m.OwnFrames pid)
    (hok : m.buildArgs args = .ok m') (hsize : stringBytes args < 0x80000000) :
    m'.ArgsOnStack pid (argPointers args) args ∧
      Relation.ReflTransGen (StoreIn (argPointers args) VMEM_1_LIMIT) m m' := by
  have hfits := argSpace_of_buildArgs hok hsize
  obtain ⟨hstrings, hpointers⟩ := argPointers_eq hfits
  obtain ⟨m₁, hzero, hrest⟩ := bind_eq_ok.mp hok
  obtain ⟨m₂, hargc, hrest⟩ := bind_eq_ok.mp hrest
  obtain ⟨⟨cpp, m₃⟩, hargs, hrest⟩ := bind_eq_ok.mp hrest
  obtain ⟨m₄, hnull, hnull'⟩ := bind_eq_ok.mp hrest
  rw [storeZeros_eq] at hzero
  have hsame₁ := storeBytes_sameTables hzero
  have hsame₂ := hsame₁.trans (storeBytes_sameTables hargc)
  have hsame₃ := hsame₂.trans (storeArgs_sameTables hargs)
  have hsame₄ := hsame₃.trans (storeBytes_sameTables hnull)
  have hptbr₁ := hsame₁.ptbr1.trans hptbr
  have hptbr₂ := hsame₂.ptbr1.trans hptbr
  have hptbr₃ := hsame₃.ptbr1.trans hptbr
  have hptbr₄ := hsame₄.ptbr1.trans hptbr
  have hown₁ := hown.congr hsame₁.pte
  have hown₂ := hown.congr hsame₂.pte
  have hown₃ := hown.congr hsame₃.pte
  have hown₄ := hown.congr hsame₄.pte
  -- The pointers and the zeros end where the strings begin.
  have hspace : argSpace args = stringBytes args + (args.length + 35) * 4 := rfl
  have hroom : argPointers args + 4 * (args.length + 35) ≤ argStrings args ∧
      argStrings args + stringBytes args = VMEM_1_LIMIT ∧ argPointers args % 8 = 0 := by
    rw [hspace] at hfits hpointers
    simp only [VMEM_1_LIMIT] at hfits hpointers hstrings ⊢
    generalize argStrings args = cp at hstrings ⊢
    generalize argPointers args = cpp at hpointers ⊢
    generalize stringBytes args = size at hfits hpointers hstrings ⊢
    omega
  clear hspace hfits hstrings hpointers hsize
  obtain ⟨hsep, hend, haligned⟩ := hroom
  have hwords : ∀ u, (wordBytes u).length = 4 := fun _ => rfl
  have hn : (wordBytes args.length).length = 4 := hwords _
  have hz : (wordBytes 0).length = 4 := hwords _
  have hzeros : (List.replicate (VMEM_1_LIMIT - argPointers args) (0 : Byte)).length
      = VMEM_1_LIMIT - argPointers args := List.length_replicate
  obtain ⟨rfl, hframe, hargv⟩ := storeArgs_holds hptbr₂ hown₂ hargs (by omega)
  -- The null pointers are stored behind the pointers and below the strings.
  have hkept : ∀ va bytes, m₃.Holds pid va bytes →
      va + bytes.length ≤ argPointers args + 4 + 4 * args.length ∨
        argPointers args + 12 + 4 * args.length ≤ va → m'.Holds pid va bytes := by
    intro va bytes h hva
    have h₄ := h.storeBytes hptbr₃ hown₃ hnull (by omega)
    exact h₄.storeBytes hptbr₄ hown₄ hnull' (by omega)
  refine ⟨⟨haligned, ?_, fun i arg hi => ?_, ⟨?_, ?_⟩, ?_⟩, ?_⟩
  · have h₂ := storeBytes_holds hptbr₁ hown₁ hargc
    have h₃ : m₃.Holds pid (argPointers args) (wordBytes args.length) :=
      h₂.congr fun i hi => hframe _ (by omega)
    exact hkept _ _ h₃ (.inl (by omega))
  · obtain ⟨ptr, hptr, hstring, hlow, hhigh⟩ := hargv i arg hi
    have hlt : i < args.length := (List.getElem?_eq_some_iff.mp hi).1
    have hpost : POST_ARGV_NULL_SPACE = 32 := rfl
    exact ⟨ptr, hkept _ _ hptr (.inl (by rw [hwords]; omega)), hkept _ _ hstring (.inr (by omega)),
      by omega, by omega⟩
  · exact (storeBytes_holds hptbr₃ hown₃ hnull).storeBytes hptbr₄ hown₄ hnull' (.inl (by omega))
  · have hsecond := storeBytes_holds hptbr₄ hown₄ hnull'
    rwa [show argPointers args + 4 + 4 * args.length + 4 = argPointers args + 8 + 4 * args.length
      by omega] at hsecond
  · have hpost : POST_ARGV_NULL_SPACE = 32 := rfl
    have h₁ : m₁.Holds pid (argPointers args + 12 + 4 * args.length)
        (List.replicate (4 * POST_ARGV_NULL_SPACE) 0) :=
      (storeBytes_holds hptbr hown hzero).zeros (by omega) (by omega)
    have hlen : (List.replicate (4 * POST_ARGV_NULL_SPACE) (0 : Byte)).length
        = 4 * POST_ARGV_NULL_SPACE := List.length_replicate
    have h₂ := h₁.storeBytes hptbr₁ hown₁ hargc (.inr (by omega))
    have h₃ : m₃.Holds pid _ _ := h₂.congr fun i hi => hframe _ (by omega)
    exact hkept _ _ h₃ (.inr (by omega))
  · refine ((((storeBytes_storesIn hzero ?_ ?_).trans (storeBytes_storesIn hargc ?_ ?_)).trans
      (storeArgs_storesIn hargs ?_ ?_ ?_)).trans (storeBytes_storesIn hnull ?_ ?_)).trans
      (storeBytes_storesIn hnull' ?_ ?_) <;> omega

end

section
variable {m m' : Machine} {pid : Pid} {file : Executable} {li : LoadInfo}
  {args : List (List Byte)}

/-- The arguments are built last. -/
theorem fillProgram_built {rc : Int} (hok : m.fillProgram pid file li args = .ok (rc, m'))
    (hrc : rc ≠ KILL) : ∃ m₁ : Machine, m₁.buildArgs args = .ok m' := by
  obtain ⟨⟨got₁, m₁⟩, -, hok⟩ := bind_eq_ok.mp hok
  rcases ite_eq_ok hok with ⟨-, hok⟩ | ⟨-, hok⟩
  · exact absurd (congrArg Prod.fst (Except.ok.inj hok)).symm hrc
  obtain ⟨⟨got₂, m₂⟩, -, hok⟩ := bind_eq_ok.mp hok
  rcases ite_eq_ok hok with ⟨-, hok⟩ | ⟨-, hok⟩
  · exact absurd (congrArg Prod.fst (Except.ok.inj hok)).symm hrc
  obtain ⟨m₃, -, hok⟩ := bind_eq_ok.mp hok
  obtain ⟨m₄, -, hok⟩ := bind_eq_ok.mp hok
  obtain ⟨m₅, hbuild, hret⟩ := bind_eq_ok.mp hok
  cases hret
  exact ⟨m₄, hbuild⟩

end

end Machine

/-! ## The arguments of a program that has been loaded -/

/-- The arguments are on the stack pages of the new program, and nothing else was stored when
they were built. -/
structure LoadResult.HasArguments (r : LoadResult) (pid : Pid) (args : List (List Byte)) :
    Prop where
  onStack : r.machine.ArgsOnStack pid r.space.userContext.sp args
  built : ∃ m : Machine, m.buildArgs args = .ok r.machine ∧
    Relation.ReflTransGen (Machine.StoreIn r.space.userContext.sp VMEM_1_LIMIT) m r.machine
  lowest : r.space.lowestUserStackPage + stackNpg args = NUM_PAGES_REG_1
  mapped : ∀ page : Nat, r.space.lowestUserStackPage ≤ page → page < NUM_PAGES_REG_1 →
    (r.machine.pte (.region1 pid) page).valid = true
  within : ∀ va, r.space.userContext.sp ≤ va → va < VMEM_1_LIMIT → VMEM_1_BASE ≤ va ∧
    r.space.lowestUserStackPage ≤ addrToPage (va - VMEM_1_BASE) ∧
      addrToPage (va - VMEM_1_BASE) < NUM_PAGES_REG_1

section
variable {m : Machine} {live : Nat → Bool} {free : List Nat} {pid : Pid} {space : Space}
  {r : LoadResult}

theorem commitProgram_built {file : Executable} {li : LoadInfo} {args : List (List Byte)}
    (hok : commitProgram m pid space file li args = .ok r) (hrc : r.rc = SUCCESS) :
    (∃ m₁ : Machine, m₁.buildArgs args = .ok r.machine) ∧
      r.space.userContext.sp = space.userContext.sp := by
  obtain ⟨⟨rc₁, m₁⟩, -, hok⟩ := bind_eq_ok.mp hok
  rcases ite_eq_ok hok with ⟨-, hok⟩ | ⟨-, hok⟩
  · cases hok
    exact absurd (show ERROR = SUCCESS from hrc) (by decide)
  obtain ⟨⟨rc₂, m₂⟩, hfill, hok⟩ := bind_eq_ok.mp hok
  rcases ite_eq_ok hok with ⟨-, hok⟩ | ⟨hkill, hok⟩
  · cases hok
    exact absurd (show KILL = SUCCESS from hrc) (by decide)
  cases hok
  exact ⟨Machine.fillProgram_built hfill hkill, rfl⟩

/-- The new stack takes the last `stack_npg` pages of region 1. -/
theorem stackPages_of_commitProgram {file : Executable} {li : LoadInfo}
    {args : List (List Byte)} (h : m.Isolated (ownedBy live) free) (hlive : live pid = true)
    (hsp : space.userContext.sp = newStackPointer args)
    (hok : commitProgram m pid space file li args = .ok r) (hrc : r.rc = SUCCESS) :
    r.space.lowestUserStackPage = stackPg args ∧ stackPg args + stackNpg args = NUM_PAGES_REG_1 ∧
      (∀ page, stackPg args ≤ page → page < NUM_PAGES_REG_1 →
        (r.machine.pte (.region1 pid) page).valid = true) ∧
      VMEM_1_BASE ≤ argPointers args := by
  obtain ⟨-, hsuccess⟩ := h.commitProgram_valid hlive hok
  obtain ⟨hbase, hlimit, -, hlowest, hvalid⟩ := hsuccess hrc
  obtain ⟨htop, hnpg, hfirst⟩ := stackNpg_eq hbase hlimit
  have hbasePage : (addrToPage VMEM_1_BASE : Int) = 128 := congrArg Nat.cast (addrToPage_eq _)
  rw [hsp, hbasePage, hfirst] at hlowest
  refine ⟨hlowest, ?_, fun page hlow hhigh => ?_, hbase⟩
  · rw [hnpg]
    show (_ : Int) = ((128 : Nat) : Int)
    generalize stackPg args = page at htop ⊢
    omega
  · exact (hvalid page hhigh).mpr (.inl ((stackPages_iff hbase hlimit page).mpr ⟨hlow, hhigh⟩))

/-- A program that has been loaded finds its arguments on its stack, and reads from there what
`LoadProgram` was given. The arguments are strings of C: no byte in them is zero. -/
theorem program_arguments {file : Option Executable} {args : Option (List (List Byte))}
    {argbufOk : Bool} (h : m.Isolated (ownedBy live) free) (hlive : live pid = true)
    (hptbr1 : m.ptbr1 = .region1 pid) (hsize : stringBytes (args.getD []) < 0x80000000)
    (hstrings : ∀ arg ∈ args.getD [], (0 : Byte) ∉ arg)
    (hok : loadProgram m pid space file args argbufOk = .ok r) (hrc : r.rc = SUCCESS) :
    r.HasArguments pid (args.getD []) ∧
      r.machine.decodeArgs pid r.space.userContext.sp = some (args.getD []) := by
  obtain ⟨free', hiso, hptbr⟩ := h.loadProgram hlive hptbr1 hok
  have hown := hiso.ownFrames hlive
  have herror : ERROR ≠ SUCCESS := by decide
  unfold loadProgram at hok
  dsimp only at hok
  generalize args.getD [] = args at hok hsize hstrings ⊢
  split at hok
  · cases hok
    exact absurd hrc herror
  rename_i f li hfile
  rcases ite_eq_ok hok with ⟨-, hok⟩ | ⟨-, hok⟩
  · cases hok
    exact absurd hrc herror
  obtain ⟨hlowest, hpages, hmapped, hbase⟩ := stackPages_of_commitProgram h hlive rfl hok hrc
  obtain ⟨⟨m₁, hbuild⟩, hsp⟩ := commitProgram_built hok hrc
  have hsame := (Machine.buildArgs_sameTables hbuild).1
  have hown₁ : m₁.OwnFrames pid := hown.congr hsame.pte.symm
  obtain ⟨hstack, hstores⟩ := Machine.buildArgs_onStack (hsame.ptbr1.symm.trans hptbr) hown₁
    hbuild hsize
  have hsp' : r.space.userContext.sp = argPointers args := hsp.trans (Nat.sub_zero _)
  rw [← hsp'] at hstack hstores hbase
  refine ⟨⟨hstack, ⟨m₁, hbuild, hstores⟩, ?_, fun page hlow => ?_,
    fun va hlow hhigh => ?_⟩, hstack.decode ?_ hstrings⟩
  · rw [hlowest]
    exact hpages
  · rw [hlowest] at hlow
    exact hmapped page (Int.ofNat_le.mp hlow)
  · have hva : VMEM_1_BASE ≤ va := Nat.le_trans hbase hlow
    refine ⟨hva, ?_, ?_⟩
    · rw [hlowest, addrToPage_eq]
      unfold stackPg newStackPointer
      rw [← hsp']
      simp only [VMEM_1_BASE, INITIAL_STACK_FRAME_SIZE] at hbase hva ⊢
      clear hok hpages hlowest
      omega
    · rw [addrToPage_eq]
      show (va - 0x100000) / 8192 < 128
      simp only [VMEM_1_LIMIT] at hhigh
      omega
  · exact Nat.lt_of_le_of_lt (Machine.length_le_stringBytes args) (Nat.lt_trans hsize (by decide))

/-- Init loads the empty program with the arguments `ab`, the empty string and `c`. -/
theorem program_arguments_three :
    ∃ k r, Kernel.run smallImage initRuns = some k ∧
      loadProgram k.machine INIT_PID (k.space INIT_PID) (some emptyProgram)
        (some [[97, 98], [], [99]]) true = .ok r ∧ r.rc = SUCCESS ∧
      r.HasArguments INIT_PID [[97, 98], [], [99]] ∧
      r.machine.decodeArgs INIT_PID r.space.userContext.sp = some [[97, 98], [], [99]] := by
  have hrun : (Kernel.run smallImage initRuns).map (fun k =>
      (k.currentProc, k.live INIT_PID,
        (loadProgram k.machine INIT_PID (k.space INIT_PID) (some emptyProgram)
          (some [[97, 98], [], [99]]) true).toOption.map (·.rc)))
        = some (INIT_PID, true, some SUCCESS) := by decide +kernel
  obtain ⟨k, hk, hstate⟩ := Option.map_eq_some_iff.mp hrun
  simp only [Prod.mk.injEq] at hstate
  obtain ⟨hcur, hlive, hload⟩ := hstate
  obtain ⟨r, hr, hrc⟩ := Option.map_eq_some_iff.mp hload
  have hok := Except.toOption_eq_some hr
  have hapart := reachable_apart (.of_run hk)
  obtain ⟨free, hiso⟩ := hapart.isolated
  have hptbr1 : k.machine.ptbr1 = .region1 INIT_PID := hcur ▸ hapart.ptbr1
  obtain ⟨harguments, hdecode⟩ :=
    program_arguments hiso hlive hptbr1 (by decide) (by decide) hok hrc
  exact ⟨k, r, hk, hok, hrc, harguments, hdecode⟩

end

end Theynix
