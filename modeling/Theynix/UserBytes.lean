import Theynix.FrameIsolation

/-!
# `Theynix.UserBytes`: the bytes that a process finds at an address

`Machine.memoryOf` is the memory of a process as its region 1 table maps it, byte by byte, and
`Machine.Holds` says which bytes are there from an address upwards. What the kernel reads for
a process is there (`loadBytes_holds`). What it writes is there afterwards
(`storeBytes_holds`), because no two pages of a live process share a frame.
-/

set_option autoImplicit false

namespace Theynix

open Theynix.Lib (bind_eq_ok)
open Machine (ownedBy)

namespace Machine

/-- What process `pid` finds at an address: the permissions and the byte, if there is a page. -/
def memoryOf (m : Machine) (pid : Pid) (va : Nat) : Option (Nat × Byte) :=
  let e := m.pte (.region1 pid) (addrToPage (va - VMEM_1_BASE))
  if (VMEM_1_BASE ≤ va ∧ va < VMEM_1_LIMIT) ∧ e.valid = true then
    some (e.prot, m.frame e.pfn (va % PAGESIZE))
  else none

/-- Process `pid` finds these bytes from `va` upwards. -/
def Holds (m : Machine) (pid : Pid) (va : Nat) (bytes : List Byte) : Prop :=
  ∀ i < bytes.length, (m.memoryOf pid (va + i)).map Prod.snd = bytes[i]?

/-- No two pages of a process share a frame. -/
def OwnFrames (m : Machine) (pid : Pid) : Prop :=
  ∀ i j, i < NUM_PAGES_REG_1 → j < NUM_PAGES_REG_1 → (m.pte (.region1 pid) i).valid = true →
    (m.pte (.region1 pid) j).valid = true →
    (m.pte (.region1 pid) i).pfn = (m.pte (.region1 pid) j).pfn → i = j

instance (m : Machine) (pid : Pid) (va : Nat) (bytes : List Byte) :
    Decidable (m.Holds pid va bytes) :=
  inferInstanceAs (Decidable (∀ i < bytes.length, _))

section
variable {m m' : Machine} {pid : Pid} {va : Nat} {b : Byte} {bytes : List Byte}

theorem Holds.nil : m.Holds pid va [] := fun _ hi => absurd hi (Nat.not_lt_zero _)

/-- Bytes in a row: the first one and the others. -/
theorem holds_cons :
    m.Holds pid va (b :: bytes) ↔
      (m.memoryOf pid va).map Prod.snd = some b ∧ m.Holds pid (va + 1) bytes := by
  constructor
  · intro h
    refine ⟨h 0 (Nat.zero_lt_succ _), fun i hi => ?_⟩
    have hnext := h (i + 1) (Nat.succ_lt_succ hi)
    rwa [← Nat.add_assoc, Nat.add_right_comm, List.getElem?_cons_succ] at hnext
  · rintro ⟨hfirst, hrest⟩ i hi
    cases i with
    | zero => exact hfirst
    | succ i =>
        rw [List.getElem?_cons_succ, ← hrest i (Nat.lt_of_succ_lt_succ hi)]
        congr 2
        omega

/-- A prefix of what is there is there. -/
theorem Holds.take (h : m.Holds pid va bytes) (n : Nat) : m.Holds pid va (bytes.take n) := by
  intro i hi
  have hlen := hi
  rw [List.length_take] at hlen
  rw [h i (by omega), List.getElem?_take_of_lt (by omega)]

/-- What is there depends on what the process finds in the range only. -/
theorem Holds.congr (h : m.Holds pid va bytes)
    (hsame : ∀ i < bytes.length, m'.memoryOf pid (va + i) = m.memoryOf pid (va + i)) :
    m'.Holds pid va bytes := by
  intro i hi
  rw [hsame i hi]
  exact h i hi

/-! ## Reads and writes of the kernel -/

/-- An address that the running process may use is one of its own pages. -/
theorem translate_eq_ok {prot f off : Nat} (hptbr : m.ptbr1 = .region1 pid)
    (h : m.translate prot va = .ok (f, off)) :
    (VMEM_1_BASE ≤ va ∧ va < VMEM_1_LIMIT) ∧
      (m.pte (.region1 pid) (addrToPage (va - VMEM_1_BASE))).valid = true ∧
      f = (m.pte (.region1 pid) (addrToPage (va - VMEM_1_BASE))).pfn ∧ off = va % PAGESIZE := by
  unfold translate at h
  split at h
  case isFalse => cases h
  case isTrue hva =>
      dsimp only at h
      split at h
      case isFalse => cases h
      case isTrue hvalid =>
          cases h
          rw [hptbr] at hvalid ⊢
          exact ⟨hva, hvalid.1, rfl, rfl⟩

/-- A byte that is read is what the process finds. -/
theorem loadByte_memoryOf (hptbr : m.ptbr1 = .region1 pid) (h : m.loadByte va = .ok b) :
    (m.memoryOf pid va).map Prod.snd = some b := by
  obtain ⟨⟨f, off⟩, htranslate, hret⟩ := bind_eq_ok.mp h
  cases hret
  obtain ⟨hva, hvalid, rfl, rfl⟩ := translate_eq_ok hptbr htranslate
  simp only [memoryOf, if_pos (And.intro hva hvalid), Option.map_some]

/-- Bytes that are read are what the process finds. -/
theorem loadBytes_holds {n : Nat} (hptbr : m.ptbr1 = .region1 pid)
    (h : m.loadBytes va n = .ok bytes) : m.Holds pid va bytes := by
  induction n generalizing va bytes with
  | zero =>
      cases h
      exact .nil
  | succ n ih =>
      obtain ⟨b, hload, h⟩ := bind_eq_ok.mp h
      obtain ⟨rest, hrest, hret⟩ := bind_eq_ok.mp h
      cases hret
      exact holds_cons.mpr ⟨loadByte_memoryOf hptbr hload, ih hrest⟩

/-- The page and the offset determine an address in region 1. -/
theorem eq_of_page_offset {va va' : Nat} (h : VMEM_1_BASE ≤ va) (h' : VMEM_1_BASE ≤ va')
    (hpage : addrToPage (va' - VMEM_1_BASE) = addrToPage (va - VMEM_1_BASE))
    (hoff : va' % PAGESIZE = va % PAGESIZE) : va' = va := by
  rw [addrToPage_eq, addrToPage_eq] at hpage
  change 0x100000 ≤ va at h
  change 0x100000 ≤ va' at h'
  change (va' - 0x100000) / 8192 = (va - 0x100000) / 8192 at hpage
  change va' % 8192 = va % 8192 at hoff
  omega

/-- After a byte has been written, the process finds it there, and elsewhere what it found
before. -/
theorem storeByte_memoryOf (hptbr : m.ptbr1 = .region1 pid) (hown : m.OwnFrames pid)
    (h : m.storeByte va b = .ok m') (va' : Nat) :
    m'.memoryOf pid va' =
      if va' = va then (m.memoryOf pid va).map fun x => (x.1, b) else m.memoryOf pid va' := by
  obtain ⟨⟨f, off⟩, htranslate, hret⟩ := bind_eq_ok.mp h
  cases hret
  obtain ⟨hva, hvalid, rfl, rfl⟩ := translate_eq_ok hptbr htranslate
  have hpage : ∀ va, VMEM_1_BASE ≤ va ∧ va < VMEM_1_LIMIT →
      addrToPage (va - VMEM_1_BASE) < NUM_PAGES_REG_1 := by
    rintro va ⟨-, hlimit⟩
    rw [addrToPage_eq]
    change va < 0x200000 at hlimit
    show (va - 0x100000) / 8192 < 128
    omega
  simp only [memoryOf, access_pte, setByte_pte, access_frame]
  by_cases he : va' = va
  · subst he
    simp [hva, hvalid, setByte]
  rw [if_neg he]
  by_cases hfound : (VMEM_1_BASE ≤ va' ∧ va' < VMEM_1_LIMIT) ∧
      (m.pte (.region1 pid) (addrToPage (va' - VMEM_1_BASE))).valid = true
  · -- Another address is another page, or another place in the page.
    have hne : ¬ ((m.pte (.region1 pid) (addrToPage (va' - VMEM_1_BASE))).pfn
          = (m.pte (.region1 pid) (addrToPage (va - VMEM_1_BASE))).pfn ∧
        va' % PAGESIZE = va % PAGESIZE) := by
      rintro ⟨hframe, hoff⟩
      refine he (eq_of_page_offset hva.1 hfound.1.1 ?_ hoff)
      exact hown _ _ (hpage _ hfound.1) (hpage _ hva) hfound.2 hvalid hframe
    simp only [if_pos hfound, setByte, if_neg hne]
  · exact (if_neg hfound).trans (if_neg hfound).symm

theorem OwnFrames.congr (h : m.OwnFrames pid) (hpte : m'.pte = m.pte) : m'.OwnFrames pid := by
  unfold OwnFrames
  rw [hpte]
  exact h

/-- Outside the range that is written the process finds what it found before. -/
theorem storeBytes_memoryOf (hptbr : m.ptbr1 = .region1 pid) (hown : m.OwnFrames pid)
    (h : m.storeBytes va bytes = .ok m') {va' : Nat} (hva' : va' < va ∨ va + bytes.length ≤ va') :
    m'.memoryOf pid va' = m.memoryOf pid va' := by
  induction bytes generalizing m va with
  | nil =>
      cases h
      rfl
  | cons b bytes ih =>
      obtain ⟨m₁, hstore, hrest⟩ := bind_eq_ok.mp h
      have hsame := storeByte_sameTables hstore
      rw [List.length_cons] at hva'
      rw [ih (hsame.ptbr1.trans hptbr) (hown.congr hsame.pte) hrest (by omega),
        storeByte_memoryOf hptbr hown hstore, if_neg (by omega)]

/-- After bytes have been written, the process finds them there. -/
theorem storeBytes_holds (hptbr : m.ptbr1 = .region1 pid) (hown : m.OwnFrames pid)
    (h : m.storeBytes va bytes = .ok m') : m'.Holds pid va bytes := by
  induction bytes generalizing m va with
  | nil => exact .nil
  | cons b bytes ih =>
      obtain ⟨m₁, hstore, hrest⟩ := bind_eq_ok.mp h
      have hsame := storeByte_sameTables hstore
      have hptbr₁ := hsame.ptbr1.trans hptbr
      have hown₁ := hown.congr hsame.pte
      refine holds_cons.mpr ⟨?_, ih hptbr₁ hown₁ hrest⟩
      rw [storeBytes_memoryOf hptbr₁ hown₁ hrest (.inl (Nat.lt_succ_self va)),
        storeByte_memoryOf hptbr hown hstore, if_pos rfl]
      obtain ⟨⟨f, off⟩, htranslate, -⟩ := bind_eq_ok.mp hstore
      obtain ⟨hva, hvalid, -⟩ := translate_eq_ok hptbr htranslate
      simp only [memoryOf, if_pos (And.intro hva hvalid), Option.map_some]

end

/-- No two pages of a live process share a frame. -/
theorem Isolated.ownFrames {m : Machine} {live : Nat → Bool} {free : List Nat} {pid : Pid}
    (h : m.Isolated (ownedBy live) free) (hlive : live pid = true) : m.OwnFrames pid := by
  intro i j hi hj hvi hvj hpfn
  have hheld : ∀ n, n < NUM_PAGES_REG_1 → (m.pte (.region1 pid) n).valid = true →
      m.held (ownedBy live) ⟨.region1 pid, n⟩ = some (m.pte (.region1 pid) n).pfn :=
    fun n hn hv => held_eq_some.mpr ⟨ownedBy_region1 hlive n hn, hv, rfl⟩
  have hsame := h.exclusive.inj (hheld i hi hvi) (hpfn ▸ hheld j hj hvj)
  exact congrArg PteRef.index hsame

end Machine

theorem Kernel.Apart.ownFrames {k : Kernel} {p : Pid} (h : k.Apart) (hp : k.live p = true) :
    k.machine.OwnFrames p := by
  obtain ⟨free, hiso⟩ := h.isolated
  exact hiso.ownFrames hp

section
variable {k : Kernel} {m : Machine} {va : Nat} {bytes : List Byte}

/-- What the kernel reads for the running process is in the memory of that process. -/
theorem Kernel.Apart.loadBytes_holds {n : Nat} (h : k.Apart)
    (hok : k.machine.loadBytes va n = .ok bytes) : k.machine.Holds k.currentProc va bytes :=
  Machine.loadBytes_holds h.ptbr1 hok

/-- What the kernel writes for the running process is in the memory of that process. -/
theorem Kernel.Apart.storeBytes_holds (h : k.Apart) (hlive : k.live k.currentProc = true)
    (hok : k.machine.storeBytes va bytes = .ok m) : m.Holds k.currentProc va bytes :=
  Machine.storeBytes_holds h.ptbr1 (h.ownFrames hlive) hok

end

end Theynix
