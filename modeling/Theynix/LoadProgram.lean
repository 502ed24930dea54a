import Theynix.KernelMemory
import Theynix.Process
import Theynix.UserMemory

/-!
# `Theynix.LoadProgram`: loading a program (`LoadProgram.c`)

`loadProgram` works on the table of one process, the fields of `Space` of its PCB, and
memory. What the host gives it, the open file, what `LoadInfo` finds in it and the bytes
its two reads deliver, is the argument `file`.

The source returns `ERROR` both before and after it has thrown the old region 1 away, and
`KILL` only after. `LoadResult.committed` records which side of that point the return is on.
-/

set_option autoImplicit false

namespace Theynix

open Theynix.Lib (bind_eq_ok)

/-- The fields of `struct load_info` that `LoadProgram` uses in its computations. -/
structure LoadInfo where
  entry : Nat
  tVaddr : Nat
  tNpg : Nat
  idVaddr : Nat
  idNpg : Nat
  idEnd : Nat
  udNpg : Nat
  udEnd : Nat
deriving DecidableEq, Repr

/-- An open file: what `LoadInfo` returns (`none` is an error code), and the bytes from the
offsets `t_faddr` and `id_faddr` on (`none` when `read` fails). -/
structure Executable where
  loadInfo : Option LoadInfo
  text : Option (List Byte)
  data : Option (List Byte)

/-- The result of `LoadProgram`. -/
structure LoadResult where
  rc : Int
  /-- Whether the old region 1 has been thrown away. -/
  committed : Bool
  machine : Machine
  space : Space

namespace LoadInfo

/-- `text_pg1`. -/
def textPg1 (li : LoadInfo) : Nat :=
  addrToPage ((li.tVaddr + 0x100000000 - VMEM_1_BASE) % 0x100000000)

/-- `data_pg1`. -/
def dataPg1 (li : LoadInfo) : Nat :=
  addrToPage ((li.idVaddr + 0x100000000 - VMEM_1_BASE) % 0x100000000)

/-- `data_npg`. -/
def dataNpg (li : LoadInfo) : Int := asInt (li.idNpg + li.udNpg)

end LoadInfo

/-! ## The layout of the new stack -/

/-- `cp`: where the argument strings go. -/
def argStrings (args : List (List Byte)) : Nat :=
  (VMEM_1_LIMIT + 0x100000000 - stringBytes args % 0x100000000) % 0x100000000

/-- `cpp`: where `argc` and the argument pointers go. -/
def argPointers (args : List (List Byte)) : Nat :=
  (argStrings args + 0x100000000 - (args.length + 3 + POST_ARGV_NULL_SPACE) * 4 % 0x100000000)
    % 0x100000000 / 8 * 8

/-- `cp2`: the new stack pointer. -/
def newStackPointer (args : List (List Byte)) : Nat := argPointers args - INITIAL_STACK_FRAME_SIZE

/-- `stack_npg`. -/
def stackNpg (args : List (List Byte)) : Int :=
  (VMEM_1_LIMIT - asInt (newStackPointer args) / PAGESIZE * PAGESIZE) / PAGESIZE

namespace Machine

/-- `read(fd, addr, size)`: the number of bytes read, and memory. -/
def readFile (m : Machine) (bytes : Option (List Byte)) (addr size : Nat) :
    Except Stop (Int × Machine) :=
  match bytes with
  | none => .ok (-1, m)
  | some bytes => do
    let got := bytes.take size
    let m ← m.storeBytes addr got
    return (got.length, m)

/-- The loop that copies the arguments and sets `argv`, from `cpp` and `cp` on. -/
def storeArgs (m : Machine) (cpp cp : Nat) : List (List Byte) → Except Stop (Nat × Machine)
  | [] => .ok (cpp, m)
  | arg :: args => do
    let m ← m.storeWord cpp cp
    let m ← m.storeBytes cp (arg ++ [0])
    m.storeArgs (cpp + 4) (cp + arg.length + 1) args

/-- Builds the argument list on the new stack. -/
def buildArgs (m : Machine) (args : List (List Byte)) : Except Stop Machine := do
  let cpp := argPointers args
  -- Everything from the argument list up is cleared first.
  let m ← m.storeZeros cpp (VMEM_1_LIMIT - cpp)
  let m ← m.storeWord cpp args.length
  let (cpp, m) ← m.storeArgs (cpp + 4) (argStrings args) args
  let m ← m.storeWord cpp 0
  m.storeWord (cpp + 4) 0

/-- The pages of the new program, in the table that has been emptied: `ERROR` when the
frames run out. -/
def mapProgram (m : Machine) (pid : Nat) (li : LoadInfo) (args : List (List Byte)) :
    Except Stop (Int × Machine) := do
  let (rc, m) ← m.mapNewRegion1Pages pid li.textPg1 li.tNpg (PROT_READ ||| PROT_WRITE)
  if rc = ERROR then return (ERROR, m)
  else
    let (rc, m) ← m.mapNewRegion1Pages pid li.dataPg1 (asUnsigned li.dataNpg)
      (PROT_READ ||| PROT_WRITE)
    if rc = ERROR then return (ERROR, m)
    else
      let bottomStackPage := asUnsigned (addrToPage VMEM_1_LIMIT - stackNpg args
        - addrToPage VMEM_1_BASE)
      m.mapNewRegion1Pages pid bottomStackPage (asUnsigned (stackNpg args))
        (PROT_READ ||| PROT_WRITE)

/-- Fills the pages of the new program: `KILL` when a read is short. -/
def fillProgram (m : Machine) (pid : Nat) (file : Executable) (li : LoadInfo)
    (args : List (List Byte)) : Except Stop (Int × Machine) := do
  let segmentSize := li.tNpg <<< PAGESHIFT % 0x100000000
  let (got, m) ← m.readFile file.text li.tVaddr segmentSize
  if got ≠ segmentSize then return (KILL, m)
  else
    let segmentSize := li.idNpg <<< PAGESHIFT % 0x100000000
    let (got, m) ← m.readFile file.data li.idVaddr segmentSize
    if got ≠ segmentSize then return (KILL, m)
    else
      let m ← m.changeProtRegion1Pages pid li.textPg1 li.tNpg (PROT_READ ||| PROT_EXEC)
      let m ← m.flushRegion1.storeZeros li.idEnd ((li.udEnd + 0x100000000 - li.idEnd) % 0x100000000)
      let m ← m.buildArgs args
      return (SUCCESS, m)

end Machine

/-- The check before `LoadProgram` commits itself: at least one page is left between heap
and stack. -/
def LoadInfo.leavesBlankPage (li : LoadInfo) (args : List (List Byte)) : Bool :=
  stackNpg args + li.dataPg1 + li.dataNpg < MAX_PT_LEN

/-- The checks of `LoadProgram`: the file and its load information, `none` when it returns
`ERROR` before it commits itself. -/
def admittedFile (file : Option Executable) (args : List (List Byte)) :
    Option (Executable × LoadInfo) :=
  match file with
  | none => none
  | some file =>
    match file.loadInfo with
    | none => none
    | some li =>
      if li.entry < VMEM_1_BASE then none
      else if !li.leavesBlankPage args then none
      else some (file, li)

/-- The part of `LoadProgram` that is committed to loading or killing the process. -/
def commitProgram (m : Machine) (pid : Nat) (space : Space) (file : Executable) (li : LoadInfo)
    (args : List (List Byte)) : Except Stop LoadResult := do
  let (rc, m) ← (m.freeRegion1PageTable pid).mapProgram pid li args
  -- The old program is gone, and `KernelExec` returns `ERROR` to it.
  if rc = ERROR then return { rc := ERROR, committed := true, machine := m, space := space }
  else
    let (rc, m) ← m.flushRegion1.fillProgram pid file li args
    if rc = KILL then return { rc := KILL, committed := true, machine := m, space := space }
    else
      -- The lowest stack page is the one the stack pointer is in.
      let lowest := (addrToPage space.userContext.sp : Int) - addrToPage VMEM_1_BASE
      let space :=
        { userContext := { space.userContext with pc := li.entry }
          lowestUserStackPage := lowest
          userBrkPage := li.dataPg1 + li.dataNpg }
      return { rc := SUCCESS, committed := true, machine := m, space := space }

/-- `LoadProgram`. A null `args` and an empty one are treated alike. -/
def loadProgram (m : Machine) (pid : Nat) (space : Space) (file : Option Executable)
    (args : Option (List (List Byte))) (argbufOk : Bool) : Except Stop LoadResult :=
  let args := args.getD []
  match admittedFile file args with
  | none => .ok { rc := ERROR, committed := false, machine := m, space := space }
  | some (file, li) =>
    let space :=
      { space with userContext := { space.userContext with sp := newStackPointer args } }
    -- No room for the copy of the arguments.
    if !argbufOk then .ok { rc := ERROR, committed := false, machine := m, space := space }
    else commitProgram m pid space file li args

/-! ## Loading keeps frames apart -/

namespace Machine

section
variable {m m' : Machine} {live : Nat → Bool} {free : List Nat} {pid : Nat}

theorem Isolated.readFile {bytes : Option (List Byte)} {addr size : Nat} {rc : Int}
    (h : m.Isolated (ownedBy live) free) (hlive : live pid = true)
    (hptbr1 : m.ptbr1 = .region1 pid) (hok : m.readFile bytes addr size = .ok (rc, m')) :
    m'.Isolated (ownedBy live) free ∧ SameTables m m' := by
  cases bytes with
  | none =>
      cases hok
      exact ⟨h, .refl _⟩
  | some bytes =>
      obtain ⟨m₁, hstore, hret⟩ := bind_eq_ok.mp hok
      cases hret
      exact h.storeBytes hlive hptbr1 hstore

theorem Isolated.storeArgs {cpp cp cpp' : Nat} {args : List (List Byte)}
    (h : m.Isolated (ownedBy live) free) (hlive : live pid = true)
    (hptbr1 : m.ptbr1 = .region1 pid) (hok : m.storeArgs cpp cp args = .ok (cpp', m')) :
    m'.Isolated (ownedBy live) free ∧ SameTables m m' := by
  induction args generalizing m cpp cp with
  | nil =>
      cases hok
      exact ⟨h, .refl _⟩
  | cons arg args ih =>
      obtain ⟨m₁, hword, hrest⟩ := bind_eq_ok.mp hok
      obtain ⟨m₂, hbytes, hrest⟩ := bind_eq_ok.mp hrest
      obtain ⟨hiso₁, hsame₁⟩ := h.storeBytes hlive hptbr1 hword
      obtain ⟨hiso₂, hsame₂⟩ := hiso₁.storeBytes hlive (hsame₁.ptbr1.trans hptbr1) hbytes
      have hsame := hsame₁.trans hsame₂
      obtain ⟨hiso₃, hsame₃⟩ := ih hiso₂ (hsame.ptbr1.trans hptbr1) hrest
      exact ⟨hiso₃, hsame.trans hsame₃⟩

theorem Isolated.buildArgs {args : List (List Byte)} (h : m.Isolated (ownedBy live) free)
    (hlive : live pid = true) (hptbr1 : m.ptbr1 = .region1 pid)
    (hok : m.buildArgs args = .ok m') : m'.Isolated (ownedBy live) free ∧ SameTables m m' := by
  obtain ⟨m₁, hzero, hrest⟩ := bind_eq_ok.mp hok
  obtain ⟨m₂, hargc, hrest⟩ := bind_eq_ok.mp hrest
  obtain ⟨⟨cpp, m₃⟩, hargs, hrest⟩ := bind_eq_ok.mp hrest
  obtain ⟨m₄, hnull, hnull'⟩ := bind_eq_ok.mp hrest
  rw [storeZeros_eq] at hzero
  obtain ⟨hiso₁, hsame₁⟩ := h.storeBytes hlive hptbr1 hzero
  obtain ⟨hiso₂, hsame₂⟩ := hiso₁.storeBytes hlive (hsame₁.ptbr1.trans hptbr1) hargc
  have hsame := hsame₁.trans hsame₂
  obtain ⟨hiso₃, hsame₃⟩ := hiso₂.storeArgs hlive (hsame.ptbr1.trans hptbr1) hargs
  have hsame := hsame.trans hsame₃
  obtain ⟨hiso₄, hsame₄⟩ := hiso₃.storeBytes hlive (hsame.ptbr1.trans hptbr1) hnull
  have hsame := hsame.trans hsame₄
  obtain ⟨hiso₅, hsame₅⟩ := hiso₄.storeBytes hlive (hsame.ptbr1.trans hptbr1) hnull'
  exact ⟨hiso₅, hsame.trans hsame₅⟩

theorem Isolated.mapProgram {li : LoadInfo} {args : List (List Byte)} {rc : Int}
    (h : m.Isolated (ownedBy live) free) (hlive : live pid = true)
    (hok : m.mapProgram pid li args = .ok (rc, m')) :
    ∃ free', m'.Isolated (ownedBy live) free' ∧ OnlyTable (.region1 pid) m m' := by
  have hown := ownedBy_region1 hlive
  obtain ⟨⟨rc₁, m₁⟩, htext, hrest⟩ := bind_eq_ok.mp hok
  obtain ⟨free₁, hiso₁, honly₁, -⟩ := h.mapNewRegion1Pages hown htext
  dsimp only at hrest
  split at hrest
  · cases hrest
    exact ⟨free₁, hiso₁, honly₁⟩
  obtain ⟨⟨rc₂, m₂⟩, hdata, hrest⟩ := bind_eq_ok.mp hrest
  obtain ⟨free₂, hiso₂, honly₂, -⟩ := hiso₁.mapNewRegion1Pages hown hdata
  dsimp only at hrest
  split at hrest
  · cases hrest
    exact ⟨free₂, hiso₂, honly₁.trans honly₂⟩
  obtain ⟨free₃, hiso₃, honly₃, -⟩ := hiso₂.mapNewRegion1Pages hown hrest
  exact ⟨free₃, hiso₃, (honly₁.trans honly₂).trans honly₃⟩

theorem Isolated.fillProgram {file : Executable} {li : LoadInfo} {args : List (List Byte)}
    {rc : Int} (h : m.Isolated (ownedBy live) free) (hlive : live pid = true)
    (hptbr1 : m.ptbr1 = .region1 pid) (hok : m.fillProgram pid file li args = .ok (rc, m')) :
    m'.Isolated (ownedBy live) free ∧ m'.ptbr1 = .region1 pid := by
  obtain ⟨⟨got₁, m₁⟩, htext, hrest⟩ := bind_eq_ok.mp hok
  obtain ⟨hiso₁, hsame₁⟩ := h.readFile hlive hptbr1 htext
  have hptbr₁ := hsame₁.ptbr1.trans hptbr1
  dsimp only at hrest
  split at hrest
  · cases hrest
    exact ⟨hiso₁, hptbr₁⟩
  obtain ⟨⟨got₂, m₂⟩, hdata, hrest⟩ := bind_eq_ok.mp hrest
  obtain ⟨hiso₂, hsame₂⟩ := hiso₁.readFile hlive hptbr₁ hdata
  have hptbr₂ := hsame₂.ptbr1.trans hptbr₁
  dsimp only at hrest
  split at hrest
  · cases hrest
    exact ⟨hiso₂, hptbr₂⟩
  obtain ⟨m₃, hprot, hrest⟩ := bind_eq_ok.mp hrest
  obtain ⟨hiso₃, honly₃, -⟩ := hiso₂.changeProtLoop hprot
  have hptbr₃ := honly₃.ptbr1.trans hptbr₂
  obtain ⟨m₄, hzero, hrest⟩ := bind_eq_ok.mp hrest
  rw [storeZeros_eq] at hzero
  obtain ⟨hiso₄, hsame₄⟩ := hiso₃.flushRegion1.storeBytes hlive hptbr₃ hzero
  have hptbr₄ := hsame₄.ptbr1.trans hptbr₃
  obtain ⟨m₅, hbuild, hret⟩ := bind_eq_ok.mp hrest
  obtain ⟨hiso₅, hsame₅⟩ := hiso₄.buildArgs hlive hptbr₄ hbuild
  cases hret
  exact ⟨hiso₅, hsame₅.ptbr1.trans hptbr₄⟩

theorem Isolated.commitProgram {space : Space} {file : Executable} {li : LoadInfo}
    {args : List (List Byte)} {r : LoadResult} (h : m.Isolated (ownedBy live) free)
    (hlive : live pid = true) (hptbr1 : m.ptbr1 = .region1 pid)
    (hok : Theynix.commitProgram m pid space file li args = .ok r) :
    ∃ free', r.machine.Isolated (ownedBy live) free' ∧ r.machine.ptbr1 = .region1 pid := by
  obtain ⟨free₀, hiso₀, honly₀, -⟩ := h.freeRegion1PageTable hlive
  obtain ⟨⟨rc₁, m₁⟩, hmap, hrest⟩ := bind_eq_ok.mp hok
  obtain ⟨free₁, hiso₁, honly₁⟩ := hiso₀.mapProgram hlive hmap
  have hptbr₁ : m₁.ptbr1 = .region1 pid := honly₁.ptbr1.trans (honly₀.ptbr1.trans hptbr1)
  dsimp only at hrest
  split at hrest
  · cases hrest
    exact ⟨free₁, hiso₁, hptbr₁⟩
  obtain ⟨⟨rc₂, m₂⟩, hfill, hrest⟩ := bind_eq_ok.mp hrest
  obtain ⟨hiso₂, hptbr₂⟩ := hiso₁.flushRegion1.fillProgram hlive hptbr₁ hfill
  dsimp only at hrest
  split at hrest <;> cases hrest <;> exact ⟨free₁, hiso₂, hptbr₂⟩

/-- However `LoadProgram` returns, no frame is in two places. -/
theorem Isolated.loadProgram {space : Space} {file : Option Executable}
    {args : Option (List (List Byte))} {argbufOk : Bool} {r : LoadResult}
    (h : m.Isolated (ownedBy live) free) (hlive : live pid = true)
    (hptbr1 : m.ptbr1 = .region1 pid)
    (hok : Theynix.loadProgram m pid space file args argbufOk = .ok r) :
    ∃ free', r.machine.Isolated (ownedBy live) free' ∧ r.machine.ptbr1 = .region1 pid := by
  simp only [Theynix.loadProgram] at hok
  split at hok
  · cases hok
    exact ⟨free, h, hptbr1⟩
  · split at hok
    · cases hok
      exact ⟨free, h, hptbr1⟩
    · exact h.commitProgram hlive hptbr1 hok

end

end Machine

end Theynix
