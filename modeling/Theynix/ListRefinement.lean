import Theynix.ListChains
import Theynix.SystemCalls

/-!
# `Theynix.ListRefinement`: the kernel's lists are sequences

The kernel keeps many lists on one heap, and makes and destroys them as it runs. `ListStore`
is that heap with the lists that exist, and `ListCall` a call on one of them. `SeqList` is what
a list is for: a sequence of ids and data, which `SeqList.call` changes as the header says. A
list with a hash table is only used with distinct ids, which is a field of `SeqList`.

`lists_refine_sequences` runs both: for every sequence of calls on any lists that keeps to the
rules, the calls on the heap never fault, always end, and return what the calls on the
sequences return. The nodes in use are then exactly those of the lists that exist, each in one
list, so that nothing is left when the last list is destroyed.

`list_refines_sequence` is about one list and plain sequences, and compares a list that has a
hash table with one that has none.

`listFindFirstLessThanIdAndRemove_eq` connects this with the queues of the kernel model, which
are sequences already.
-/

set_option autoImplicit false

namespace Theynix

open Theynix.Lib

/-! ## Calls -/

/-- A call on a list. One that allocates carries the address that `calloc` returns to it. -/
inductive ListCall
  | newList (sentinel : Addr) (hashTableSize : Nat)
  | destroy
  | push (ln data : Addr) (id : Nat)
  | append (ln data : Addr) (id : Nat)
  | enqueue (ln data : Addr) (id : Nat)
  | dequeue
  | findById (id : Nat)
  | removeById (id : Nat)
  | findFirstLessThanIdAndRemove (id : Nat)
  | isEmpty
  | map
  | peak

/-- What a call returns; for `ListMap`, what the function is called with. -/
inductive ListResult
  | void
  | data (d : Addr)
  | bool (b : Bool)
  | passed (ds : List Addr)
deriving DecidableEq

/-- The address that `calloc` returns to the call. -/
def ListCall.allocates : ListCall → Option Addr
  | .newList a _ | .push a _ _ | .append a _ _ | .enqueue a _ _ => some a
  | _ => none

/-- A call on the list `l` of the heap, which a destroyed list is no longer. -/
def Heap.call (h : Heap) : Option LinkedList → ListCall →
    Except Stop (ListResult × Heap × Option LinkedList)
  | _, .newList s n => .ok (.void, (h.listNewList s n).1, some (h.listNewList s n).2)
  | none, _ => .error .fault
  | some l, .destroy => do
    let h ← h.listDestroy l
    return (.void, h, none)
  | some l, .push ln d i => do
    let (h, l) ← h.listPush l ln d i
    return (.void, h, some l)
  | some l, .append ln d i => do
    let (h, l) ← h.listAppend l ln d i
    return (.void, h, some l)
  | some l, .enqueue ln d i => do
    let (h, l) ← h.listEnqueue l ln d i
    return (.void, h, some l)
  | some l, .dequeue => do
    let (d, h, l) ← h.listDequeue l
    return (.data d, h, some l)
  | some l, .findById i => do
    let d ← h.listFindById l i
    return (.data d, h, some l)
  | some l, .removeById i => do
    let (d, h, l) ← h.listRemoveById l i
    return (.data d, h, some l)
  | some l, .findFirstLessThanIdAndRemove i => do
    let (d, h, l) ← h.listFindFirstLessThanIdAndRemove l i
    return (.data d, h, some l)
  | some l, .isEmpty => .ok (.bool (Heap.listEmpty l), h, some l)
  | some l, .map => do
    let ds ← h.listMap l
    return (.passed ds, h, some l)
  | some l, .peak => do
    let d ← h.listPeak l
    return (.data d, h, some l)

/-! ## Sequences -/

/-- A list as a sequence. The ids in a list with a hash table are distinct. -/
structure SeqList where
  hashTableSize : Nat
  entries : List Entry
  distinct : hashTableSize ≠ 0 → (entries.map Prod.fst).Nodup

namespace SeqList

/-- An entry with the id may be added. -/
def admits (q : SeqList) (i : Nat) : Bool :=
  q.hashTableSize == 0 || q.entries.all fun e => e.1 != i

theorem admits_notMem {q : SeqList} {i : Nat} (h : q.admits i = true)
    (hsize : q.hashTableSize ≠ 0) : i ∉ q.entries.map Prod.fst := by
  intro hm
  obtain ⟨e, he, rfl⟩ := List.mem_map.mp hm
  unfold admits at h
  rcases (Bool.or_eq_true _ _).mp h with h | h
  · exact hsize (beq_iff_eq.mp h)
  · have hne := List.all_eq_true.mp h e he
    rw [bne_self_eq_false] at hne
    cases hne

/-- A new first entry. -/
def front (q : SeqList) (e : Entry) (h : q.admits e.1 = true) : SeqList where
  hashTableSize := q.hashTableSize
  entries := e :: q.entries
  distinct hsize := List.nodup_cons.mpr ⟨admits_notMem h hsize, q.distinct hsize⟩

/-- A new last entry. -/
def back (q : SeqList) (e : Entry) (h : q.admits e.1 = true) : SeqList where
  hashTableSize := q.hashTableSize
  entries := q.entries ++ [e]
  distinct hsize := by
    rw [List.map_append]
    refine List.nodup_append.mpr ⟨q.distinct hsize, List.nodup_singleton _, ?_⟩
    intro i hi j hj he
    have hj' : j = e.1 := List.mem_singleton.mp hj
    exact admits_notMem h hsize (hj' ▸ he ▸ hi)

/-- The sequence without its first entry. -/
def rest (q : SeqList) : SeqList where
  hashTableSize := q.hashTableSize
  entries := q.entries.tail
  distinct hsize := (q.distinct hsize).sublist ((List.tail_sublist _).map _)

/-- The sequence without the first entry that has the property. -/
def without (q : SeqList) (p : Entry → Bool) : SeqList where
  hashTableSize := q.hashTableSize
  entries := q.entries.eraseP p
  distinct hsize := (q.distinct hsize).sublist (List.eraseP_sublist.map _)

/-- A call on a sequence. The rules are that the list exists, that `ListDestroy` gets an empty
list, and that a list with a hash table gets no second entry with an id. -/
def call : Option SeqList → ListCall → Option (ListResult × Option SeqList)
  | none, .newList _ n => some (.void, some ⟨n, [], fun _ => List.nodup_nil⟩)
  | some q, .destroy => if q.entries.isEmpty = true then some (.void, none) else none
  | some q, .push _ d i =>
    if h : q.admits i = true then some (.void, some (q.front (i, d) h)) else none
  | some q, .append _ d i =>
    if h : q.admits i = true then some (.void, some (q.back (i, d) h)) else none
  | some q, .enqueue _ d i =>
    if h : q.admits i = true then some (.void, some (q.back (i, d) h)) else none
  | some q, .dequeue => some (.data (Heap.headData q.entries), some q.rest)
  | some q, .findById i =>
    some (.data (Heap.firstData (fun e => decide (e.1 = i)) q.entries), some q)
  | some q, .removeById i =>
    some (.data (Heap.firstData (fun e => decide (e.1 = i)) q.entries),
      some (q.without fun e => decide (e.1 = i)))
  | some q, .findFirstLessThanIdAndRemove i =>
    some (.data (Heap.firstData (fun e => decide (e.1 ≤ i)) q.entries),
      some (q.without fun e => decide (e.1 ≤ i)))
  | some q, .isEmpty => some (.bool q.entries.isEmpty, some q)
  | some q, .map => some (.passed ((q.entries.map Prod.snd).filter (· ≠ NULL)), some q)
  | some q, .peak => some (.data (Heap.headData q.entries), some q)
  | _, _ => none

end SeqList

/-! ## One list -/

/-- The list `l`, if it exists, stands for the sequence `q`, and its nodes and its sentinel are
`foot`. -/
inductive Stands (h : Heap) : Option LinkedList → List Addr → Option SeqList → Prop
  | gone : Stands h none [] none
  | list {l : LinkedList} {ns : List Addr} {q : SeqList} (holds : h.Holds l ns q.entries)
      (size : l.hashTableSize = q.hashTableSize) :
      Stands h (some l) (ns ++ [l.sentinel]) (some q)

/-- A conditional with a result took its first branch, when the second has none. -/
theorem ite_some {α : Type} {p : Prop} [Decidable p] {x : Option α} {a : α}
    (h : (if p then x else none) = some a) : p ∧ x = some a := by
  by_cases hp : p
  · rw [if_pos hp] at h
    exact ⟨hp, h⟩
  · rw [if_neg hp] at h
    cases h

theorem dite_some {α : Type} {p : Prop} [Decidable p] {x : p → Option α} {a : α}
    (h : (if hp : p then x hp else none) = some a) : ∃ hp, x hp = some a := by
  by_cases hp : p
  · rw [dif_pos hp] at h
    exact ⟨hp, h⟩
  · rw [dif_neg hp] at h
    cases h

section
variable {h h' : Heap} {l : Option LinkedList} {foot : List Addr} {q q' : Option SeqList}
  {c : ListCall} {r : ListResult}

theorem Stands.node (hl : Stands h l foot q) {a : Addr} (ha : a ∈ foot) :
    ∃ n, h.node a = some n := by
  cases hl with
  | gone => cases ha
  | list holds _ => exact holds.node ha

theorem Stands.congr (hl : Stands h l foot q) (hnode : ∀ a ∈ foot, h'.node a = h.node a) :
    Stands h' l foot q := by
  cases hl with
  | gone => exact .gone
  | list holds size => exact .list (holds.congr hnode) size

/-- A call that turns the list into another one ends with that one. -/
theorem Heap.Becomes.call {l l' : LinkedList} {ns ns' : List Addr} {q : SeqList}
    (hb : Heap.Becomes h l ns h' l' ns' q.entries) (hsize : l.hashTableSize = q.hashTableSize)
    (hok : h.call (some l) c = .ok (r, h', some l')) :
    ∃ h' l' foot', h.call (some l) c = .ok (r, h', l') ∧ Stands h' l' foot' (some q) ∧
      Heap.Moves h h' (ns ++ [l.sentinel]) foot' := by
  refine ⟨h', some l', ns' ++ [l'.sentinel], hok, .list hb.holds (hb.size.trans hsize), ?_⟩
  rw [hb.sentinel]
  exact hb.moves

/-- A call that keeps to the rules does on the heap what it does on the sequence. -/
theorem Stands.call (hl : Stands h l foot q) (hcall : SeqList.call q c = some (r, q'))
    (hfresh : ∀ a, c.allocates = some a → a ≠ NULL ∧ h.node a = none) :
    ∃ h' l' foot', h.call l c = .ok (r, h', l') ∧ Stands h' l' foot' q' ∧
      Heap.Moves h h' foot foot' := by
  cases hl with
  | gone =>
      cases c with
      | newList s n =>
          cases hcall
          obtain ⟨h0, hs⟩ := hfresh s rfl
          obtain ⟨hholds, hmoves⟩ := Heap.listNewList_holds (k := n) hs h0
          exact ⟨_, _, _, rfl, .list hholds rfl, hmoves⟩
      | _ => cases hcall
  | @list l ns q holds size =>
      have hdistinct : l.hashTableSize ≠ 0 → (q.entries.map Prod.fst).Nodup := by
        rw [size]
        exact q.distinct
      -- The calls that only read leave the list as it is.
      have hsame := Heap.Becomes.refl holds
      cases c with
      | newList s n => cases hcall
      | destroy =>
          rcases ite_some hcall with ⟨hempty, he⟩
          cases he
          have hnil : q.entries = [] := List.isEmpty_iff.mp hempty
          rw [hnil] at holds
          obtain ⟨h', hok, hmoves⟩ := holds.listDestroy
          refine ⟨h', none, [], ?_, .gone, hmoves⟩
          simp only [Heap.call, hok, ok_bind, pure_eq_ok]
      | push ln d i =>
          obtain ⟨hadmits, he⟩ := dite_some hcall
          cases he
          obtain ⟨h0, hln⟩ := hfresh ln rfl
          obtain ⟨h', l', hok, hbecomes⟩ := holds.listPush (i := i) (d := d) hln h0
          refine hbecomes.call (q := q.front (i, d) hadmits) size ?_
          simp only [Heap.call, hok, ok_bind, pure_eq_ok]
      | append ln d i =>
          obtain ⟨hadmits, he⟩ := dite_some hcall
          cases he
          obtain ⟨h0, hln⟩ := hfresh ln rfl
          obtain ⟨h', l', ns', hok, hbecomes⟩ := holds.listAppend (i := i) (d := d) hln h0
          refine hbecomes.call (q := q.back (i, d) hadmits) size ?_
          simp only [Heap.call, hok, ok_bind, pure_eq_ok]
      | enqueue ln d i =>
          obtain ⟨hadmits, he⟩ := dite_some hcall
          cases he
          obtain ⟨h0, hln⟩ := hfresh ln rfl
          obtain ⟨h', l', ns', hok, hbecomes⟩ := holds.listAppend (i := i) (d := d) hln h0
          refine hbecomes.call (q := q.back (i, d) hadmits) size ?_
          simp only [Heap.call, Heap.listEnqueue, hok, ok_bind, pure_eq_ok]
      | dequeue =>
          cases hcall
          obtain ⟨h', l', ns', hok, hbecomes⟩ := holds.listDequeue hdistinct
          refine hbecomes.call (q := q.rest) size ?_
          simp only [Heap.call, hok, ok_bind, pure_eq_ok]
      | findById i =>
          cases hcall
          refine hsame.call size ?_
          simp only [Heap.call, holds.listFindById hdistinct, ok_bind, pure_eq_ok]
      | removeById i =>
          cases hcall
          obtain ⟨h', l', ns', hok, hbecomes⟩ := holds.listRemoveById (i := i) hdistinct
          refine hbecomes.call (q := q.without fun e => decide (e.1 = i)) size ?_
          simp only [Heap.call, hok, ok_bind, pure_eq_ok]
      | findFirstLessThanIdAndRemove i =>
          cases hcall
          obtain ⟨h', l', ns', hok, hbecomes⟩ :=
            holds.listFindFirstLessThanIdAndRemove (i := i) hdistinct
          refine hbecomes.call (q := q.without fun e => decide (e.1 ≤ i)) size ?_
          simp only [Heap.call, hok, ok_bind, pure_eq_ok]
      | isEmpty =>
          cases hcall
          have hempty : Heap.listEmpty l = q.entries.isEmpty := by
            rw [Bool.eq_iff_iff, holds.listEmpty_iff_entries, List.isEmpty_iff]
          refine hsame.call size ?_
          simp only [Heap.call, hempty]
      | map =>
          cases hcall
          refine hsame.call size ?_
          simp only [Heap.call, holds.listMap, ok_bind, pure_eq_ok]
      | peak =>
          cases hcall
          refine hsame.call size ?_
          simp only [Heap.call, holds.listPeak, ok_bind, pure_eq_ok]

end

/-! ## All lists -/

section
variable {ι : Type}

/-- The heap and the lists that exist. -/
structure ListStore (ι : Type) where
  heap : Heap
  lists : ι → Option LinkedList

/-- The sequences that the lists stand for. -/
abbrev SeqStore (ι : Type) := ι → Option SeqList

/-- No list has been made. -/
def ListStore.empty : ListStore ι := ⟨.empty, fun _ => none⟩

def SeqStore.empty : SeqStore ι := fun _ => none

/-- Each list stands for its sequence, no node is in two lists, and every node in use is in one. -/
structure ListStore.Represents (s : ListStore ι) (foot : ι → List Addr) (t : SeqStore ι) :
    Prop where
  stands : ∀ i, Stands s.heap (s.lists i) (foot i) (t i)
  apart : ∀ i j a, i ≠ j → a ∈ foot i → a ∉ foot j
  owned : ∀ a n, s.heap.node a = some n → ∃ i, a ∈ foot i

theorem ListStore.empty_represents :
    (ListStore.empty : ListStore ι).Represents (fun _ => []) SeqStore.empty where
  stands _ := .gone
  apart _ _ _ _ ha := by cases ha
  owned _ _ hn := by cases hn

variable [DecidableEq ι]

/-- A call on list `i`. -/
def ListStore.call (s : ListStore ι) (i : ι) (c : ListCall) :
    Except Stop (ListResult × ListStore ι) := do
  let (r, h, l) ← s.heap.call (s.lists i) c
  return (r, ⟨h, fun j => if j = i then l else s.lists j⟩)

def SeqStore.call (t : SeqStore ι) (i : ι) (c : ListCall) : Option (ListResult × SeqStore ι) :=
  (SeqList.call (t i) c).map fun x => (x.1, fun j => if j = i then x.2 else t j)

/-- Calls on any lists, one after another, and what they return. -/
def ListStore.run (s : ListStore ι) :
    List (ι × ListCall) → Except Stop (List ListResult × ListStore ι)
  | [] => .ok ([], s)
  | (i, c) :: calls => do
    let (r, s) ← s.call i c
    let (rs, s) ← s.run calls
    return (r :: rs, s)

def SeqStore.run (t : SeqStore ι) : List (ι × ListCall) → Option (List ListResult × SeqStore ι)
  | [] => some ([], t)
  | (i, c) :: calls => do
    let (r, t) ← SeqStore.call t i c
    let (rs, t) ← SeqStore.run t calls
    return (r :: rs, t)

/-- Every address that `calloc` returns in a run is one that is not in use. -/
def ListStore.allocatesFresh (s : ListStore ι) : List (ι × ListCall) → Bool
  | [] => true
  | (i, c) :: calls =>
    (match c.allocates with
      | some a => a != NULL && (s.heap.node a).isNone
      | none => true) &&
    (match s.call i c with
      | .ok (_, s) => s.allocatesFresh calls
      | .error _ => true)

variable {s : ListStore ι} {t t' : SeqStore ι} {foot : ι → List Addr} {i : ι} {c : ListCall}
  {r : ListResult}

/-- A call that keeps to the rules does in the store what it does to the sequences. -/
theorem ListStore.Represents.call (hs : s.Represents foot t)
    (hcall : SeqStore.call t i c = some (r, t'))
    (hfresh : ∀ a, c.allocates = some a → a ≠ NULL ∧ s.heap.node a = none) :
    ∃ s' foot', s.call i c = .ok (r, s') ∧ s'.Represents foot' t' := by
  obtain ⟨⟨r', q'⟩, hq, he⟩ := Option.map_eq_some_iff.mp hcall
  cases he
  obtain ⟨h', l', f', hok, hstands, hmoves⟩ := (hs.stands i).call hq hfresh
  -- What the list gains was not in use, so it is in no other list.
  have hgain : ∀ a ∈ f', a ∉ foot i → ∀ j, a ∉ foot j := by
    intro a ha hnot j hj
    obtain ⟨n, hn⟩ := (hs.stands j).node hj
    rw [hmoves.fresh a ha hnot] at hn
    cases hn
  have hother : ∀ j, j ≠ i → ∀ a ∈ foot j, a ∉ foot i ∧ a ∉ f' := by
    intro j hj a ha
    have hnot : a ∉ foot i := hs.apart j i a hj ha
    exact ⟨hnot, fun ha' => hgain a ha' hnot j ha⟩
  refine ⟨⟨h', fun j => if j = i then l' else s.lists j⟩,
    fun j => if j = i then f' else foot j, ?_, fun j => ?_, fun j k a hjk ha ha' => ?_,
    fun a n hn => ?_⟩
  · unfold ListStore.call
    simp only [hok, ok_bind, pure_eq_ok]
  · by_cases hj : j = i
    · subst hj
      simp only [if_true]
      exact hstands
    · simp only [if_neg hj]
      refine (hs.stands j).congr fun a ha => ?_
      obtain ⟨hnot, hnot'⟩ := hother j hj a ha
      exact hmoves.frame a hnot hnot'
  · by_cases hj : j = i
    · have hk : k ≠ i := fun hk => hjk (hj.trans hk.symm)
      rw [if_pos hj] at ha
      rw [if_neg hk] at ha'
      exact (hother k hk a ha').2 ha
    · rw [if_neg hj] at ha
      by_cases hk : k = i
      · rw [if_pos hk] at ha'
        exact (hother j hj a ha).2 ha'
      · rw [if_neg hk] at ha'
        exact hs.apart j k a hjk ha ha'
  · by_cases hnew : a ∈ f'
    · exact ⟨i, by rw [if_pos rfl]; exact hnew⟩
    · have hold : a ∉ foot i := by
        intro ha
        have hfreed : h'.node a = none := hmoves.freed a ha hnew
        rw [hfreed] at hn
        cases hn
      obtain ⟨j, hj⟩ := hs.owned a n ((hmoves.frame a hold hnew).symm.trans hn)
      have hne : j ≠ i := fun he => hold (he ▸ hj)
      exact ⟨j, by rw [if_neg hne]; exact hj⟩

/-- A run of calls that keeps to the rules does in the store what it does to the sequences. -/
theorem ListStore.Represents.run {calls : List (ι × ListCall)} {results : List ListResult}
    (hs : s.Represents foot t) (hcalls : SeqStore.run t calls = some (results, t'))
    (hfresh : s.allocatesFresh calls = true) :
    ∃ s' foot', s.run calls = .ok (results, s') ∧ s'.Represents foot' t' := by
  induction calls generalizing s t foot results with
  | nil =>
      cases hcalls
      exact ⟨s, foot, rfl, hs⟩
  | cons x calls ih =>
      obtain ⟨i, c⟩ := x
      obtain ⟨⟨r, t₁⟩, hcall, hrest⟩ := Option.bind_eq_some_iff.mp hcalls
      obtain ⟨⟨rs, t₂⟩, hrun, he⟩ := Option.bind_eq_some_iff.mp hrest
      cases he
      obtain ⟨hfirst, hlater⟩ := (Bool.and_eq_true _ _).mp hfresh
      have haddress : ∀ a, c.allocates = some a → a ≠ NULL ∧ s.heap.node a = none := by
        intro a ha
        rw [ha] at hfirst
        obtain ⟨h0, hnone⟩ := (Bool.and_eq_true _ _).mp hfirst
        exact ⟨bne_iff_ne.mp h0, Option.isNone_iff_eq_none.mp hnone⟩
      obtain ⟨s₁, foot₁, hok, hs₁⟩ := hs.call hcall haddress
      rw [hok] at hlater
      obtain ⟨s', foot', hok', hs'⟩ := ih hs₁ hrun hlater
      refine ⟨s', foot', ?_, hs'⟩
      simp only [ListStore.run, hok, hok', ok_bind, pure_eq_ok]

/-- The lists of `List.c` are sequences: whatever calls are made on whatever lists, as long as
they keep to the rules, none of them faults or goes on for ever, and each returns what it
returns on the sequences. The nodes in use at the end are those of the lists that exist. -/
theorem lists_refine_sequences {calls : List (ι × ListCall)} {results : List ListResult}
    (hcalls : SeqStore.run SeqStore.empty calls = some (results, t))
    (hfresh : (ListStore.empty : ListStore ι).allocatesFresh calls = true) :
    ∃ s foot, (ListStore.empty : ListStore ι).run calls = .ok (results, s) ∧
      s.Represents foot t :=
  ListStore.empty_represents.run hcalls hfresh

/-- Two lists with and without a hash table, whose calls are interleaved: an id is removed from
the middle and the head, and the nodes are reused. -/
theorem lists_refine_sequences_two :
    ∃ t s foot, (ListStore.empty : ListStore Bool).run
        [(false, .newList 1 0), (true, .newList 2 10), (true, .append 3 70 7),
          (false, .push 4 80 8), (true, .append 5 71 17), (true, .push 6 72 27),
          (false, .enqueue 7 81 8), (true, .removeById 7), (true, .findById 17),
          (true, .append 3 73 7), (false, .removeById 8), (true, .dequeue), (true, .map),
          (false, .findFirstLessThanIdAndRemove 9), (false, .isEmpty), (false, .destroy),
          (true, .peak)]
      = .ok ([.void, .void, .void, .void, .void, .void, .void, .data 70, .data 71, .void,
          .data 80, .data 72, .passed [71, 73], .data 81, .bool true, .void, .data 71], s) ∧
      s.Represents foot t := by
  have hsome : ((SeqStore.run SeqStore.empty
      [(false, .newList 1 0), (true, .newList 2 10), (true, .append 3 70 7),
        (false, .push 4 80 8), (true, .append 5 71 17), (true, .push 6 72 27),
        (false, .enqueue 7 81 8), (true, .removeById 7), (true, .findById 17),
        (true, .append 3 73 7), (false, .removeById 8), (true, .dequeue), (true, .map),
        (false, .findFirstLessThanIdAndRemove 9), (false, .isEmpty), (false, .destroy),
        (true, .peak)] : Option (List ListResult × SeqStore Bool)).map Prod.fst)
      = some [.void, .void, .void, .void, .void, .void, .void, .data 70, .data 71, .void,
          .data 80, .data 72, .passed [71, 73], .data 81, .bool true, .void, .data 71] := by
    decide +kernel
  obtain ⟨⟨results, t⟩, hcalls, rfl⟩ := Option.map_eq_some_iff.mp hsome
  exact ⟨t, lists_refine_sequences hcalls (by decide +kernel)⟩

end

/-! ## One list, with and without a hash table -/

/-- A call on a list that exists. -/
inductive ListOp
  | push (data : Addr) (id : Nat)
  | append (data : Addr) (id : Nat)
  | enqueue (data : Addr) (id : Nat)
  | dequeue
  | findById (id : Nat)
  | removeById (id : Nat)
  | findFirstLessThanIdAndRemove (id : Nat)
  | peak
  | isEmpty
deriving DecidableEq

namespace ListOp

/-- The call, when `calloc` returns `ln` to it. -/
def call (ln : Addr) : ListOp → ListCall
  | .push d i => .push ln d i
  | .append d i => .append ln d i
  | .enqueue d i => .enqueue ln d i
  | .dequeue => .dequeue
  | .findById i => .findById i
  | .removeById i => .removeById i
  | .findFirstLessThanIdAndRemove i => .findFirstLessThanIdAndRemove i
  | .peak => .peak
  | .isEmpty => .isEmpty

/-- The call on a plain sequence: what it returns, and the sequence afterwards. -/
def onSequence (es : List Entry) : ListOp → ListResult × List Entry
  | .push d i => (.void, (i, d) :: es)
  | .append d i => (.void, es ++ [(i, d)])
  | .enqueue d i => (.void, es ++ [(i, d)])
  | .dequeue => (.data (Heap.headData es), es.tail)
  | .findById i => (.data (Heap.firstData (fun e => decide (e.1 = i)) es), es)
  | .removeById i =>
    (.data (Heap.firstData (fun e => decide (e.1 = i)) es), es.eraseP fun e => decide (e.1 = i))
  | .findFirstLessThanIdAndRemove i =>
    (.data (Heap.firstData (fun e => decide (e.1 ≤ i)) es), es.eraseP fun e => decide (e.1 ≤ i))
  | .peak => (.data (Heap.headData es), es)
  | .isEmpty => (.bool es.isEmpty, es)

/-- Calls on a plain sequence, one after another. -/
def runOnSequence (es : List Entry) : List ListOp → List ListResult × List Entry
  | [] => ([], es)
  | op :: ops =>
    let (r, es) := op.onSequence es
    let (rs, es) := runOnSequence es ops
    (r :: rs, es)

/-- The ids that are present at any time are distinct. -/
def distinctIds (es : List Entry) : List ListOp → Bool
  | [] => decide (es.map Prod.fst).Nodup
  | op :: ops => decide (es.map Prod.fst).Nodup && distinctIds (op.onSequence es).2 ops

theorem distinctIds_nodup {es : List Entry} {ops : List ListOp}
    (h : distinctIds es ops = true) : (es.map Prod.fst).Nodup := by
  cases ops with
  | nil => exact of_decide_eq_true h
  | cons op ops => exact of_decide_eq_true ((Bool.and_eq_true _ _).mp h).1

/-- A plain sequence is changed as the sequence of a list is, if the ids stay distinct where
the list has a hash table. -/
theorem call_eq_onSequence {q : SeqList} {op : ListOp} (ln : Addr)
    (hids : q.hashTableSize ≠ 0 → ((op.onSequence q.entries).2.map Prod.fst).Nodup) :
    ∃ q', SeqList.call (some q) (op.call ln) = some ((op.onSequence q.entries).1, some q') ∧
      q'.hashTableSize = q.hashTableSize ∧ q'.entries = (op.onSequence q.entries).2 := by
  -- An entry may be added where the ids are distinct afterwards.
  have hadmits : ∀ i, (q.hashTableSize ≠ 0 → i ∉ q.entries.map Prod.fst) →
      q.admits i = true := by
    intro i hi
    unfold SeqList.admits
    by_cases hsize : q.hashTableSize = 0
    · rw [hsize]
      rfl
    · refine (Bool.or_eq_true _ _).mpr (.inr (List.all_eq_true.mpr fun e he => ?_))
      refine bne_iff_ne.mpr fun hei => hi hsize ?_
      exact List.mem_map.mpr ⟨e, he, hei⟩
  have hback : ∀ d i, op.onSequence q.entries = (.void, q.entries ++ [(i, d)]) →
      q.admits i = true := by
    intro d i hop
    refine hadmits i fun hsize hi => ?_
    have hnodup := hids hsize
    rw [hop, List.map_append] at hnodup
    exact (List.nodup_append.mp hnodup).2.2 i hi i List.mem_cons_self rfl
  cases op with
  | push d i =>
      have hadm : q.admits i = true :=
        hadmits i fun hsize => (List.nodup_cons.mp (hids hsize)).1
      exact ⟨q.front (i, d) hadm, dif_pos hadm, rfl, rfl⟩
  | append d i =>
      exact ⟨q.back (i, d) (hback d i rfl), dif_pos (hback d i rfl), rfl, rfl⟩
  | enqueue d i =>
      exact ⟨q.back (i, d) (hback d i rfl), dif_pos (hback d i rfl), rfl, rfl⟩
  | dequeue => exact ⟨q.rest, rfl, rfl, rfl⟩
  | findById i => exact ⟨q, rfl, rfl, rfl⟩
  | removeById i => exact ⟨q.without fun e => decide (e.1 = i), rfl, rfl, rfl⟩
  | findFirstLessThanIdAndRemove i =>
      exact ⟨q.without fun e => decide (e.1 ≤ i), rfl, rfl, rfl⟩
  | peak => exact ⟨q, rfl, rfl, rfl⟩
  | isEmpty => exact ⟨q, rfl, rfl, rfl⟩

end ListOp

namespace Heap

/-- Calls on one list, each with the address that `calloc` returns to it if it allocates. -/
def calls (h : Heap) (l : Option LinkedList) :
    List (ListOp × Addr) → Except Stop (List ListResult × Heap × Option LinkedList)
  | [] => .ok ([], h, l)
  | (op, ln) :: ops => do
    let (r, h, l) ← h.call l (op.call ln)
    let (rs, h, l) ← h.calls l ops
    return (r :: rs, h, l)

/-- Every address that `calloc` returns to the calls is one that is not in use. -/
def callsFresh (h : Heap) (l : Option LinkedList) : List (ListOp × Addr) → Bool
  | [] => true
  | (op, ln) :: ops =>
    (match (op.call ln).allocates with
      | some a => a != NULL && (h.node a).isNone
      | none => true) &&
    (match h.call l (op.call ln) with
      | .ok (_, h, l) => h.callsFresh l ops
      | .error _ => true)

/-- Calls on a new list, whose sentinel `calloc` puts at `s`. -/
def listRun (h : Heap) (s : Addr) (n : Nat) (ops : List (ListOp × Addr)) :
    Except Stop (List ListResult × Heap × Option LinkedList) :=
  (h.listNewList s n).1.calls (some (h.listNewList s n).2) ops

/-- `calloc` returns addresses that are not in use, from that of the sentinel on. -/
def listRunFresh (h : Heap) (s : Addr) (n : Nat) (ops : List (ListOp × Addr)) : Bool :=
  (s != NULL && (h.node s).isNone) &&
    (h.listNewList s n).1.callsFresh (some (h.listNewList s n).2) ops

end Heap

section
variable {h : Heap} {l : Option LinkedList} {foot : List Addr} {q : SeqList}

/-- A run of calls on a list returns what it returns on the sequence that the list stands for,
and the list stands for the sequence afterwards. -/
theorem Stands.calls {ops : List (ListOp × Addr)} (hl : Stands h l foot (some q))
    (hids : q.hashTableSize ≠ 0 → ListOp.distinctIds q.entries (ops.map Prod.fst) = true)
    (hfresh : h.callsFresh l ops = true) :
    ∃ h' l' foot' q', h.calls l ops
        = .ok ((ListOp.runOnSequence q.entries (ops.map Prod.fst)).1, h', l') ∧
      Stands h' l' foot' (some q') ∧ q'.hashTableSize = q.hashTableSize ∧
      q'.entries = (ListOp.runOnSequence q.entries (ops.map Prod.fst)).2 := by
  induction ops generalizing h l foot q with
  | nil => exact ⟨h, l, foot, q, rfl, hl, rfl, rfl⟩
  | cons x ops ih =>
      obtain ⟨op, ln⟩ := x
      have hlater : q.hashTableSize ≠ 0 →
          ListOp.distinctIds (op.onSequence q.entries).2 (ops.map Prod.fst) = true :=
        fun hsize => ((Bool.and_eq_true _ _).mp (hids hsize)).2
      obtain ⟨q₁, hcall, hsize₁, hentries₁⟩ := ListOp.call_eq_onSequence ln
        fun hsize => ListOp.distinctIds_nodup (hlater hsize)
      obtain ⟨hfirst, hfresh₁⟩ := (Bool.and_eq_true _ _).mp hfresh
      have haddress : ∀ a, (op.call ln).allocates = some a → a ≠ NULL ∧ h.node a = none := by
        intro a ha
        rw [ha] at hfirst
        obtain ⟨h0, hnone⟩ := (Bool.and_eq_true _ _).mp hfirst
        exact ⟨bne_iff_ne.mp h0, Option.isNone_iff_eq_none.mp hnone⟩
      obtain ⟨h₁, l₁, foot₁, hok, hl₁, -⟩ := hl.call hcall haddress
      rw [hok] at hfresh₁
      obtain ⟨h', l', foot', q', hok', hl', hsize', hentries'⟩ :=
        ih hl₁ (by rwa [hsize₁, hentries₁]) hfresh₁
      rw [hentries₁] at hok' hentries'
      refine ⟨h', l', foot', q', ?_, hl', hsize'.trans hsize₁, hentries'⟩
      simp only [Heap.calls, hok, hok', ok_bind, pure_eq_ok, List.map_cons, ListOp.runOnSequence]

/-- A run of calls on a new list. -/
theorem Heap.listRun_holds {s : Addr} {n : Nat} {ops : List (ListOp × Addr)}
    (hids : n ≠ 0 → ListOp.distinctIds [] (ops.map Prod.fst) = true)
    (hfresh : h.listRunFresh s n ops = true) :
    ∃ h' l' ns, h.listRun s n ops
        = .ok ((ListOp.runOnSequence [] (ops.map Prod.fst)).1, h', some l') ∧
      h'.Holds l' ns (ListOp.runOnSequence [] (ops.map Prod.fst)).2 ∧ l'.hashTableSize = n := by
  obtain ⟨hstart, hcalls⟩ := (Bool.and_eq_true _ _).mp hfresh
  obtain ⟨h0, hs⟩ := (Bool.and_eq_true _ _).mp hstart
  obtain ⟨hholds, -⟩ := Heap.listNewList_holds (k := n) (Option.isNone_iff_eq_none.mp hs)
    (bne_iff_ne.mp h0)
  have hl := Stands.list (q := ⟨n, [], fun _ => List.nodup_nil⟩) hholds rfl
  obtain ⟨h', l', foot', q', hok, hl', hsize, hentries⟩ := hl.calls hids hcalls
  cases hl' with
  | list holds size => exact ⟨h', _, _, hok, hentries ▸ holds, size.trans hsize⟩

/-- A list is a sequence, with a hash table or without: a run of calls on a new list never
faults and returns what it returns on a plain sequence, and the chain from the head, the `prev`
pointers and the buckets describe the nodes of that sequence. With a hash table this takes
distinct ids. A list without one, wherever its nodes are, returns the same. -/
theorem list_refines_sequence {s : Addr} {n : Nat} {ops : List (ListOp × Addr)}
    (hids : n ≠ 0 → ListOp.distinctIds [] (ops.map Prod.fst) = true)
    (hfresh : h.listRunFresh s n ops = true) :
    (∃ h' l' ns, h.listRun s n ops
        = .ok ((ListOp.runOnSequence [] (ops.map Prod.fst)).1, h', some l') ∧
      h'.Holds l' ns (ListOp.runOnSequence [] (ops.map Prod.fst)).2 ∧ l'.hashTableSize = n) ∧
    ∀ h₀ s₀ ops₀, Heap.listRunFresh h₀ s₀ 0 ops₀ = true → ops₀.map Prod.fst = ops.map Prod.fst →
      (h₀.listRun s₀ 0 ops₀).map Prod.fst = (h.listRun s n ops).map Prod.fst := by
  obtain ⟨h', l', ns, hok, hholds⟩ := Heap.listRun_holds hids hfresh
  refine ⟨⟨h', l', ns, hok, hholds⟩, fun h₀ s₀ ops₀ hfresh₀ hops => ?_⟩
  obtain ⟨h₁, l₁, ns₁, hok₁, -⟩ := Heap.listRun_holds (fun h => absurd rfl h) hfresh₀
  rw [hok, hok₁, hops]
  rfl

/-- The head, the middle and the last node are removed, and a node is used again. -/
def mixedCalls (a b c d e f : Addr) : List (ListOp × Addr) :=
  [(.append 70 7, a), (.append 71 17, b), (.push 72 27, c), (.enqueue 73 5, d),
    (.findById 7, 0), (.removeById 7, 0), (.removeById 27, 0), (.append 74 7, e),
    (.findFirstLessThanIdAndRemove 7, 0), (.removeById 7, 0), (.peak, 0), (.dequeue, 0),
    (.dequeue, 0), (.isEmpty, 0), (.push 75 37, f)]

/-- With ten buckets, three of these ids are in one. The list without a hash table has its nodes
elsewhere. -/
theorem list_refines_sequence_mixed :
    (∃ h' l' ns, Heap.empty.listRun 1 10 (mixedCalls 2 3 4 5 2 9)
      = .ok ([.void, .void, .void, .void, .data 70, .data 70, .data 72, .void, .data 73,
          .data 74, .data 71, .data 71, .data NULL, .bool true, .void], h', some l') ∧
      h'.Holds l' ns [(37, 75)] ∧ l'.hashTableSize = 10) ∧
    (Heap.empty.listRun 20 0 (mixedCalls 8 7 6 5 4 3)).map Prod.fst
      = (Heap.empty.listRun 1 10 (mixedCalls 2 3 4 5 2 9)).map Prod.fst := by
  have hfresh : Heap.empty.listRunFresh 1 10 (mixedCalls 2 3 4 5 2 9) = true := by
    decide +kernel
  obtain ⟨hrun, hplain⟩ := list_refines_sequence (fun _ => by decide +kernel) hfresh
  exact ⟨hrun, hplain _ _ _ (by decide +kernel) rfl⟩

end

/-! ## The kernel's queues -/

/-- The kernel model's own search of a queue is that of the list. -/
theorem listFindFirstLessThanIdAndRemove_eq (es : List (Nat × Pid)) (i : Nat) :
    listFindFirstLessThanIdAndRemove es i
      = ((es.find? fun e => decide (e.1 ≤ i)).map Prod.snd,
          es.eraseP fun e => decide (e.1 ≤ i)) := by
  induction es with
  | nil => rfl
  | cons e es ih =>
      obtain ⟨j, p⟩ := e
      unfold listFindFirstLessThanIdAndRemove
      by_cases hle : j ≤ i
      · rw [if_pos (Int.ofNat_le.mpr hle), List.find?_cons_of_pos (by simpa using hle),
          List.eraseP_cons_of_pos (by simpa using hle)]
        rfl
      · rw [if_neg fun h => hle (Int.ofNat_le.mp h), ih,
          List.find?_cons_of_neg (by simpa using hle),
          List.eraseP_cons_of_neg (by simpa using hle)]

end Theynix
