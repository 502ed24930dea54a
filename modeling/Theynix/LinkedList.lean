import Theynix.Hardware
import Theynix.Lib.Except

/-!
# `Theynix.LinkedList`: the kernel's lists (`List.c`)

A list is a chain of nodes on the kernel's heap, from `head` over `next` to a sentinel, with
links `prev` back. A list made with a hash table keeps each node in a second chain as well:
the bucket of its id, over `hash_collission_next` to `NULL`.

`Heap` is the heap as far as it holds list nodes. An address that holds none faults when it is
read or written, which is what a use of freed memory or of `NULL` is here. A call that
allocates takes the address that `calloc` returned as an argument. The loops follow links for
as many steps as there are addresses in use; a loop that goes on longer than that never ends.
-/

set_option autoImplicit false

namespace Theynix

open Theynix.Lib

/-- An address in the kernel heap. -/
abbrev Addr := Nat

abbrev NULL : Addr := 0

/-- `struct ListNode`. -/
structure ListNode where
  next : Addr := NULL
  prev : Addr := NULL
  hashCollissionNext : Addr := NULL
  id : Nat := 0
  data : Addr := NULL
deriving DecidableEq, Repr

/-- `struct List`. -/
structure LinkedList where
  sentinel : Addr
  head : Addr
  hashTable : Option (Nat → Addr)
  hashTableSize : Nat

/-- The list nodes on the kernel's heap. No node is at `NULL`, and none from `extent` on. -/
structure Heap where
  node : Addr → Option ListNode
  extent : Nat
  null : node NULL = none
  inside : ∀ a, extent ≤ a → node a = none

namespace Heap

/-! ## Memory -/

/-- The heap without nodes. -/
def empty : Heap where
  node _ := none
  extent := 0
  null := rfl
  inside _ _ := rfl

/-- `*a`. -/
def read (h : Heap) (a : Addr) : Except Stop ListNode :=
  match h.node a with
  | some n => .ok n
  | none => .error .fault

/-- Changes the node at an address, if there is one. -/
def adjust (h : Heap) (a : Addr) (f : ListNode → ListNode) : Heap where
  node b := if b = a then (h.node b).map f else h.node b
  extent := h.extent
  null := by simp [h.null]
  inside b hb := by simp [h.inside b hb]

/-- An assignment to a field of `*a`. -/
def modify (h : Heap) (a : Addr) (f : ListNode → ListNode) : Except Stop Heap := do
  let _ ← h.read a
  return h.adjust a f

/-- `calloc(1, sizeof(ListNode))`, which has returned `a`. -/
def calloc (h : Heap) (a : Addr) : Heap :=
  if ha : a = NULL then h
  else
    { node := fun b => if b = a then some {} else h.node b
      extent := max h.extent (a + 1)
      null := by rw [if_neg fun he => ha he.symm, h.null]
      inside := fun b hb => by
        have hle := Nat.max_le.mp hb
        rw [if_neg (Nat.ne_of_gt hle.2), h.inside b hle.1] }

/-- The heap without the node at an address. -/
def freed (h : Heap) (a : Addr) : Heap where
  node b := if b = a then none else h.node b
  extent := h.extent
  null := by rw [h.null, ite_self]
  inside b hb := by rw [h.inside b hb, ite_self]

/-- `free(a)`. -/
def free (h : Heap) (a : Addr) : Except Stop Heap := do
  let _ ← h.read a
  return h.freed a

/-! ## The hash table -/

/-- `ListAddToHashTable`. -/
def listAddToHashTable (h : Heap) (l : LinkedList) (ln : Addr) :
    Except Stop (Heap × LinkedList) :=
  match l.hashTable with
  | none => .error .assertion
  | some table => do
    let n ← h.read ln
    let hashId := n.id % l.hashTableSize
    let collision := table hashId
    let h ← h.modify ln fun n => { n with hashCollissionNext := collision }
    return (h, { l with hashTable := some fun k => if k = hashId then ln else table k })

/-- The loop of `ListFindFromHashTable`. -/
def findCollision (h : Heap) (id : Nat) : Nat → Addr → Except Stop Addr
  | 0, _ => .error .hang
  | steps + 1, value =>
    if value = NULL then .ok NULL
    else do
      let n ← h.read value
      if n.id = id then return value
      else h.findCollision id steps n.hashCollissionNext

/-- `ListFindFromHashTable`. -/
def listFindFromHashTable (h : Heap) (l : LinkedList) (id : Nat) : Except Stop Addr :=
  match l.hashTable with
  | none => .error .assertion
  | some table => h.findCollision id (h.extent + 1) (table (id % l.hashTableSize))

/-- The loop of `ListRemoveFromHashTable`, which looks at the node behind `value`. -/
def removeCollision (h : Heap) (id : Nat) : Nat → Addr → Except Stop (Addr × Heap)
  | 0, _ => .error .hang
  | steps + 1, value => do
    let v ← h.read value
    if v.hashCollissionNext = NULL then return (NULL, h)
    else
      let next ← h.read v.hashCollissionNext
      if next.id = id then
        let h' ← h.modify value fun n =>
          { n with hashCollissionNext := next.hashCollissionNext }
        return (v.hashCollissionNext, h')
      else h.removeCollision id steps v.hashCollissionNext

/-- `ListRemoveFromHashTable`. -/
def listRemoveFromHashTable (h : Heap) (l : LinkedList) (id : Nat) :
    Except Stop (Addr × Heap × LinkedList) :=
  match l.hashTable with
  | none => .error .assertion
  | some table => do
    let hashId := id % l.hashTableSize
    let value := table hashId
    if value = NULL then return (NULL, h, l)
    else
      let v ← h.read value
      if v.id = id then
        return (value, h, { l with
          hashTable := some fun k => if k = hashId then v.hashCollissionNext else table k })
      else
        let (found, h) ← h.removeCollision id (h.extent + 1) value
        return (found, h, l)

/-! ## The list -/

/-- `ListNewList`, whose sentinel `calloc` has put at `sentinel`. -/
def listNewList (h : Heap) (sentinel : Addr) (hashTableSize : Nat) : Heap × LinkedList :=
  (h.calloc sentinel,
    { sentinel, head := sentinel, hashTableSize
      hashTable := if hashTableSize > 0 then some fun _ => NULL else none })

/-- `ListEmpty`. -/
def listEmpty (l : LinkedList) : Bool := l.sentinel == l.head

/-- `ListDestroy`. -/
def listDestroy (h : Heap) (l : LinkedList) : Except Stop Heap := do
  cAssert (listEmpty l)
  h.free l.sentinel

/-- `ListPush`, whose new node `calloc` has put at `ln`. -/
def listPush (h : Heap) (l : LinkedList) (ln data : Addr) (id : Nat) :
    Except Stop (Heap × LinkedList) := do
  let h := h.calloc ln
  let h ← h.modify l.head fun n => { n with prev := ln }
  let h ← h.modify ln fun n => { n with next := l.head }
  let l := { l with head := ln }
  let h ← h.modify ln fun n => { n with id, data, hashCollissionNext := NULL }
  if l.hashTableSize ≠ 0 then h.listAddToHashTable l ln else return (h, l)

/-- `ListDequeue`. -/
def listDequeue (h : Heap) (l : LinkedList) : Except Stop (Addr × Heap × LinkedList) :=
  if listEmpty l then .ok (NULL, h, l)
  else do
    let ln := l.head
    let n ← h.read ln
    let (h, l) ←
      -- The bucket is searched by id, so another node with the id would leave it instead.
      if l.hashTableSize ≠ 0 then do
        let (_, h, l) ← h.listRemoveFromHashTable l n.id
        pure (h, l)
      else pure (h, l)
    let n' ← h.read ln
    let l := { l with head := n'.next }
    let h ← h.modify l.head fun m => { m with prev := l.sentinel }
    let h ← h.free ln
    return (n.data, h, l)

/-- The loop of `ListFindNodeById`. -/
def findNode (h : Heap) (sentinel : Addr) (id : Nat) : Nat → Addr → Except Stop Addr
  | 0, _ => .error .hang
  | steps + 1, iter =>
    if iter = sentinel then .ok NULL
    else do
      let n ← h.read iter
      if n.id = id then return iter
      else h.findNode sentinel id steps n.next

/-- `ListFindNodeById`. -/
def listFindNodeById (h : Heap) (l : LinkedList) (id : Nat) : Except Stop Addr :=
  if listEmpty l then .ok NULL else h.findNode l.sentinel id (h.extent + 1) l.head

/-- `ListFindById`. -/
def listFindById (h : Heap) (l : LinkedList) (id : Nat) : Except Stop Addr := do
  let node ← if l.hashTableSize ≠ 0 then h.listFindFromHashTable l id
    else h.listFindNodeById l id
  if node = NULL then return NULL
  else
    let n ← h.read node
    return n.data

/-- `ListRemoveById`. -/
def listRemoveById (h : Heap) (l : LinkedList) (id : Nat) :
    Except Stop (Addr × Heap × LinkedList) := do
  let (node, h, l) ←
    if l.hashTableSize ≠ 0 then h.listRemoveFromHashTable l id
    else do
      let node ← h.listFindNodeById l id
      pure (node, h, l)
  if node = NULL then return (NULL, h, l)
  -- The `prev` of the head may be stale. `ListDequeue` does not read it.
  else if node = l.head then h.listDequeue l
  else
    let n ← h.read node
    let h ← h.modify n.prev fun m => { m with next := n.next }
    let n ← h.read node
    let h ← h.modify n.next fun m => { m with prev := n.prev }
    let n ← h.read node
    let h ← h.free node
    return (n.data, h, l)

/-- The loop of `ListFindFirstLessThanIdAndRemove`. -/
def findLessThan (h : Heap) (l : LinkedList) (id : Nat) :
    Nat → Addr → Except Stop (Addr × Heap × LinkedList)
  | 0, _ => .error .hang
  | steps + 1, iter =>
    if iter = l.sentinel then .ok (NULL, h, l)
    else do
      let n ← h.read iter
      if n.id ≤ id then
        let (_, h, l) ← h.listRemoveById l n.id
        return (n.data, h, l)
      else h.findLessThan l id steps n.next

/-- `ListFindFirstLessThanIdAndRemove`. -/
def listFindFirstLessThanIdAndRemove (h : Heap) (l : LinkedList) (id : Nat) :
    Except Stop (Addr × Heap × LinkedList) :=
  if listEmpty l then .ok (NULL, h, l) else h.findLessThan l id (h.extent + 1) l.head

/-- `ListAppend`, whose new node `calloc` has put at `ln`. -/
def listAppend (h : Heap) (l : LinkedList) (ln data : Addr) (id : Nat) :
    Except Stop (Heap × LinkedList) :=
  if listEmpty l then h.listPush l ln data id
  else do
    let h := h.calloc ln
    let h ← h.modify ln fun n => { n with id, data }
    let s ← h.read l.sentinel
    let h ← h.modify ln fun n => { n with prev := s.prev }
    let n ← h.read ln
    let h ← h.modify n.prev fun m => { m with next := ln }
    let h ← h.modify l.sentinel fun m => { m with prev := ln }
    let h ← h.modify ln fun m => { m with next := l.sentinel, hashCollissionNext := NULL }
    if l.hashTableSize ≠ 0 then h.listAddToHashTable l ln else return (h, l)

/-- `ListEnqueue`. -/
def listEnqueue (h : Heap) (l : LinkedList) (ln data : Addr) (id : Nat) :
    Except Stop (Heap × LinkedList) :=
  h.listAppend l ln data id

/-- The loop of `ListMap`: what the function is called with, when it leaves the list alone. -/
def mapData (h : Heap) (sentinel : Addr) : Nat → Addr → Except Stop (List Addr)
  | 0, _ => .error .hang
  | steps + 1, i =>
    if i = NULL ∨ i = sentinel then .ok []
    else do
      let n ← h.read i
      let rest ← h.mapData sentinel steps n.next
      return if n.data = NULL then rest else n.data :: rest

/-- `ListMap`. -/
def listMap (h : Heap) (l : LinkedList) : Except Stop (List Addr) :=
  if listEmpty l then .ok [] else h.mapData l.sentinel (h.extent + 1) l.head

/-- `ListPeak`. -/
def listPeak (h : Heap) (l : LinkedList) : Except Stop Addr := do
  let n ← h.read l.head
  return n.data

end Heap

end Theynix
