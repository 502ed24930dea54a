import Mathlib.Data.List.Forall2
import Mathlib.Data.List.Nodup
import Mathlib.Data.List.Perm.Subperm
import Theynix.LinkedList
import Theynix.Lib.Segment

/-!
# `Theynix.ListChains`: what the nodes of a list stand for

`Heap.Holds h l ns es` says that the list `l` consists of the nodes `ns` of the heap `h` and
stands for the sequence `es` of ids and data: the nodes and the sentinel are linked both ways,
but for the `prev` of the first node, which nothing reads, and with a hash table every node is
in the bucket of its id and in no other.

Each call has one specification: it does not fault, it ends, it returns what the sequence
says, and the list afterwards stands for the sequence that the call makes of it. `Heap.Moves`
says what the call did to the rest of the heap: a node that is not the list's is untouched,
a node that the list gave up is free, and a node that it gained was not in use.
-/

set_option autoImplicit false

namespace Theynix

open Theynix.Lib

/-- What a list keeps of a node: its id and its data. -/
abbrev Entry := Nat × Addr

namespace Heap

variable {h h' h₁ h₂ : Heap} {l l' : LinkedList} {a b p s ln : Addr} {n : ListNode}
  {ns ms xs ys : List Addr} {es fs : List Entry} {i : Nat}

/-! ## Memory -/

theorem read_eq (hn : h.node a = some n) : h.read a = .ok n := by
  unfold read
  rw [hn]

theorem modify_eq {f : ListNode → ListNode} (hn : h.node a = some n) :
    h.modify a f = .ok (h.adjust a f) := by
  unfold modify
  rw [read_eq hn]
  rfl

theorem node_unique {m : ListNode} (hn : h.node a = some n) (hm : h.node a = some m) : n = m :=
  Option.some.inj (hn.symm.trans hm)

theorem ne_null (hn : h.node a = some n) : a ≠ NULL := by
  rintro rfl
  rw [h.null] at hn
  cases hn

theorem lt_extent (hn : h.node a = some n) : a < h.extent := by
  by_contra hlt
  rw [h.inside a (Nat.le_of_not_lt hlt)] at hn
  cases hn

theorem adjust_node_self {f : ListNode → ListNode} (hn : h.node a = some n) :
    (h.adjust a f).node a = some (f n) := by
  show (if a = a then (h.node a).map f else h.node a) = _
  rw [if_pos rfl, hn]
  rfl

theorem adjust_node_of_ne {f : ListNode → ListNode} (hb : b ≠ a) :
    (h.adjust a f).node b = h.node b := if_neg hb

/-- A change to the node `a` leaves what is read of a node, unless it is read of `a` and has
changed there. -/
theorem adjust_map {β : Type} {f : ListNode → ListNode} {g : ListNode → β}
    (hg : b = a → ∀ n, g (f n) = g n) :
    ((h.adjust a f).node b).map g = (h.node b).map g := by
  by_cases hb : b = a
  · show (if b = a then (h.node b).map f else h.node b).map g = _
    rw [if_pos hb, Option.map_map]
    exact congrArg (fun k => (h.node b).map k) (funext (hg hb))
  · rw [adjust_node_of_ne hb]

theorem calloc_node_self (ha : a ≠ NULL) : (h.calloc a).node a = some {} := by
  unfold calloc
  rw [dif_neg ha]
  exact if_pos rfl

theorem calloc_node_of_ne (hb : b ≠ a) : (h.calloc a).node b = h.node b := by
  unfold calloc
  by_cases ha : a = NULL
  · rw [dif_pos ha]
  · rw [dif_neg ha]
    exact if_neg hb

theorem free_eq (hn : h.node a = some n) : h.free a = .ok (h.freed a) := by
  unfold free
  rw [read_eq hn]
  rfl

theorem freed_node_self : (h.freed a).node a = none := if_pos rfl

theorem freed_node_of_ne (hb : b ≠ a) : (h.freed a).node b = h.node b := if_neg hb

/-! ## The chains -/

/-- The nodes `a` and `b` are linked to each other. -/
def Linked (h : Heap) (a b : Addr) : Prop :=
  (h.node a).map ListNode.next = some b ∧ (h.node b).map ListNode.prev = some a

/-- The node `b`, or the end, comes behind `a` in a bucket. -/
def Collides (h : Heap) (a b : Addr) : Prop :=
  (h.node a).map ListNode.hashCollissionNext = some b

/-- The id and data of the node at `a`. -/
def entry (h : Heap) (a : Addr) : Option Entry := (h.node a).map fun n => (n.id, n.data)

/-- The chain from the head to the sentinel. -/
structure Chained (h : Heap) (s p : Addr) (ns : List Addr) : Prop where
  links : Segment h.Linked s p ns
  nodup : (ns ++ [s]).Nodup

/-- Bucket `k` of a hash table of `size` buckets, for the nodes that satisfy `mem`. -/
structure Bucket (h : Heap) (size k : Nat) (mem : Addr → Prop) (p : Addr) (ns : List Addr) :
    Prop where
  links : Segment h.Collides NULL p ns
  nodup : ns.Nodup
  mem_iff : ∀ a, a ∈ ns ↔ mem a ∧ ∃ n, h.node a = some n ∧ n.id % size = k

/-- The hash table indexes the nodes that satisfy `mem`. -/
def Hashed (h : Heap) (l : LinkedList) (mem : Addr → Prop) : Prop :=
  ∃ table, l.hashTable = some table ∧
    ∀ k, ∃ ns, h.Bucket l.hashTableSize k mem (table k) ns

/-- The chain of the list consists of the nodes `ns` and stands for the sequence `es`. -/
structure Plain (h : Heap) (l : LinkedList) (ns : List Addr) (es : List Entry) : Prop where
  chain : h.Chained l.sentinel l.head ns
  entries : List.Forall₂ (fun a e => h.entry a = some e) ns es
  sentinel : (h.node l.sentinel).map ListNode.data = some NULL

/-- The list consists of the nodes `ns` and stands for the sequence `es`. -/
structure Holds (h : Heap) (l : LinkedList) (ns : List Addr) (es : List Entry) : Prop
    extends h.Plain l ns es where
  hash : l.hashTableSize ≠ 0 → h.Hashed l (· ∈ ns)

/-- What happens outside a list whose nodes and sentinel were `foot` and are now `foot'`. -/
structure Moves (h h' : Heap) (foot foot' : List Addr) : Prop where
  frame : ∀ a, a ∉ foot → a ∉ foot' → h'.node a = h.node a
  freed : ∀ a ∈ foot, a ∉ foot' → h'.node a = none
  fresh : ∀ a ∈ foot', a ∉ foot → h.node a = none

/-- The list `l` of the nodes `ns` has become `l'`, of the nodes `ns'`, and stands for `es'`. -/
structure Becomes (h : Heap) (l : LinkedList) (ns : List Addr) (h' : Heap) (l' : LinkedList)
    (ns' : List Addr) (es' : List Entry) : Prop where
  holds : h'.Holds l' ns' es'
  sentinel : l'.sentinel = l.sentinel
  size : l'.hashTableSize = l.hashTableSize
  moves : Moves h h' (ns ++ [l.sentinel]) (ns' ++ [l.sentinel])

theorem Linked.next (hab : h.Linked a b) : ∃ n, h.node a = some n ∧ n.next = b :=
  Option.map_eq_some_iff.mp hab.1

theorem Linked.prev (hab : h.Linked a b) : ∃ n, h.node b = some n ∧ n.prev = a :=
  Option.map_eq_some_iff.mp hab.2

theorem Collides.next (hab : h.Collides a b) :
    ∃ n, h.node a = some n ∧ n.hashCollissionNext = b :=
  Option.map_eq_some_iff.mp hab

theorem Linked.congr (hab : h.Linked a b)
    (hnext : (h'.node a).map ListNode.next = (h.node a).map ListNode.next)
    (hprev : (h'.node b).map ListNode.prev = (h.node b).map ListNode.prev) : h'.Linked a b :=
  ⟨hnext.trans hab.1, hprev.trans hab.2⟩

/-- The address of a node, as opposed to the end of a bucket. -/
theorem Collides.ne_null (hab : h.Collides a b) : a ≠ NULL := by
  obtain ⟨n, hn, -⟩ := hab.next
  exact Heap.ne_null hn

/-- Different nodes in use are no more than the addresses in use, so that a loop over them
ends. -/
theorem length_le_extent (hnodup : ns.Nodup) (hnode : ∀ a ∈ ns, ∃ n, h.node a = some n) :
    ns.length ≤ h.extent := by
  have hsub : ns ⊆ List.range h.extent := by
    intro a ha
    obtain ⟨n, hn⟩ := hnode a ha
    exact List.mem_range.mpr (lt_extent hn)
  have hle := (List.subperm_of_subset hnodup hsub).length_le
  rwa [List.length_range] at hle

/-! ## The first entry with a property -/

/-- Node `a` is the first of the nodes `ns` whose entry satisfies `q`, or it is `NULL` and there
is no such node. -/
inductive Finds (h : Heap) (q : Entry → Prop) : List Addr → List Entry → Addr → Prop
  | absent {ns : List Addr} {es : List Entry} (hnot : ∀ e ∈ es, ¬ q e) : Finds h q ns es NULL
  | first {xs ys : List Addr} {fs gs : List Entry} {a : Addr} {e : Entry}
      (hq : q e) (hnot : ∀ f ∈ fs, ¬ q f)
      (hxs : List.Forall₂ (fun a e => h.entry a = some e) xs fs) (ha : h.entry a = some e)
      (hys : List.Forall₂ (fun a e => h.entry a = some e) ys gs) :
      Finds h q (xs ++ a :: ys) (fs ++ e :: gs) a

theorem Finds.cons {q : Entry → Prop} {e : Entry} (hq : ¬ q e) (hb : h.entry b = some e)
    (hf : h.Finds q ns es a) : h.Finds q (b :: ns) (e :: es) a := by
  cases hf with
  | absent hnot =>
      refine .absent fun f hf => ?_
      rcases List.mem_cons.mp hf with rfl | hf
      · exact hq
      · exact hnot f hf
  | @first xs ys fs gs a f hqf hnot hxs ha hys =>
      have hnot' : ∀ g ∈ e :: fs, ¬ q g := by
        intro g hg
        rcases List.mem_cons.mp hg with rfl | hg
        · exact hq
        · exact hnot g hg
      have hxs' : List.Forall₂ (fun a e => h.entry a = some e) (b :: xs) (e :: fs) := .cons hb hxs
      exact .first hqf hnot' hxs' ha hys

/-! ## Loops over the chain -/

theorem entry_eq (hn : h.node a = some n) : h.entry a = some (n.id, n.data) := by
  unfold entry
  rw [hn]
  rfl

theorem node_of_entry {e : Entry} (he : h.entry a = some e) :
    ∃ n, h.node a = some n ∧ n.id = e.1 ∧ n.data = e.2 := by
  obtain ⟨n, hn, rfl⟩ := Option.map_eq_some_iff.mp he
  exact ⟨n, hn, rfl, rfl⟩

/-- A loop over the chain reads its first node, and goes on behind it. -/
theorem segment_cons {e : Entry} (hchain : Segment h.Linked s p (b :: ns))
    (hb : h.entry b = some e) :
    p = b ∧ ∃ n, h.node p = some n ∧ n.id = e.1 ∧ n.data = e.2 ∧ Segment h.Linked s n.next ns := by
  obtain ⟨rfl, q, hlink, ht⟩ := hchain
  obtain ⟨n, hn, rfl⟩ := hlink.next
  obtain ⟨n', hn', hid, hdata⟩ := node_of_entry hb
  obtain rfl := node_unique hn hn'
  exact ⟨rfl, n, hn, hid, hdata, ht⟩

section
variable {steps : Nat} (hchain : Segment h.Linked s p ns) (hs : s ∉ ns)
  (hes : List.Forall₂ (fun a e => h.entry a = some e) ns es) (hsteps : ns.length < steps)
include hchain hs hes hsteps

/-- The loop of `ListFindNodeById` finds the first node with the id. -/
theorem findNode_spec :
    ∃ a, h.findNode s i steps p = .ok a ∧ h.Finds (fun e => e.1 = i) ns es a := by
  induction hes generalizing p steps with
  | nil =>
      obtain _ | steps := steps
      · omega
      have hp : p = s := hchain
      exact ⟨NULL, by rw [findNode, if_pos hp], .absent fun e he => by cases he⟩
  | @cons b e ns es hb hes ih =>
      obtain _ | steps := steps
      · omega
      obtain ⟨rfl, n, hn, hid, hdata, ht⟩ := segment_cons hchain hb
      have hps : p ≠ s := fun he => hs (he ▸ List.mem_cons_self)
      rw [findNode, if_neg hps, read_eq hn, ok_bind]
      by_cases hne : n.id = i
      · rw [if_pos hne]
        exact ⟨p, rfl, .first (hid.symm.trans hne) (fun f hf => by cases hf) .nil hb hes⟩
      · rw [if_neg hne]
        have hlen : ns.length < steps := Nat.lt_of_succ_lt_succ hsteps
        obtain ⟨a, ha, hf⟩ := ih ht (fun hm => hs (List.mem_cons_of_mem _ hm)) hlen
        exact ⟨a, ha, hf.cons (fun he => hne (hid.trans he)) hb⟩

/-- The loop of `ListFindFirstLessThanIdAndRemove` finds the first node whose i is at most the
given one, and removes by that node's i. -/
theorem findLessThan_spec (hsentinel : l.sentinel = s) :
    ∃ a, h.Finds (fun e => e.1 ≤ i) ns es a ∧
      (a = NULL → h.findLessThan l i steps p = .ok (NULL, h, l)) ∧
      ∀ n, h.node a = some n → h.findLessThan l i steps p = (do
        let (_, h, l) ← h.listRemoveById l n.id
        return (n.data, h, l)) := by
  induction hes generalizing p steps with
  | nil =>
      obtain _ | steps := steps
      · omega
      have hp : p = s := hchain
      refine ⟨NULL, .absent (fun e he => by cases he), fun _ => ?_, fun n hn => ?_⟩
      · rw [findLessThan, if_pos (hp.trans hsentinel.symm)]
      · exact absurd rfl (ne_null hn)
  | @cons b e ns es hb hes ih =>
      obtain _ | steps := steps
      · omega
      obtain ⟨rfl, n, hn, hid, hdata, ht⟩ := segment_cons hchain hb
      have hps : p ≠ l.sentinel := fun he => hs ((he.trans hsentinel) ▸ List.mem_cons_self)
      rw [findLessThan, if_neg hps, read_eq hn, ok_bind]
      by_cases hle : n.id ≤ i
      · rw [if_pos hle]
        refine ⟨p, .first (hid ▸ hle) (fun f hf => by cases hf) .nil hb hes, fun he => ?_,
          fun m hm => ?_⟩
        · exact absurd he (ne_null hn)
        · obtain rfl : n = m := node_unique hn hm
          rfl
      · rw [if_neg hle]
        have hlen : ns.length < steps := Nat.lt_of_succ_lt_succ hsteps
        obtain ⟨a, hf, hnone, hsome⟩ := ih ht (fun hm => hs (List.mem_cons_of_mem _ hm)) hlen
        exact ⟨a, hf.cons (fun he => hle (hid ▸ he)) hb, hnone, hsome⟩

/-- The loop of `ListMap` passes the data of each node, unless it is `NULL`. -/
theorem mapData_spec :
    h.mapData s steps p = .ok ((es.map Prod.snd).filter (· ≠ NULL)) := by
  induction hes generalizing p steps with
  | nil =>
      obtain _ | steps := steps
      · omega
      have hp : p = s := hchain
      rw [mapData, if_pos (.inr hp)]
      rfl
  | @cons b e ns es hb hes ih =>
      obtain _ | steps := steps
      · omega
      obtain ⟨rfl, n, hn, hid, hdata, ht⟩ := segment_cons hchain hb
      have hend : ¬ (p = NULL ∨ p = s) := by
        rintro (he | he)
        · exact ne_null hn he
        · exact hs (he ▸ List.mem_cons_self)
      have hlen : ns.length < steps := Nat.lt_of_succ_lt_succ hsteps
      have hrest := ih ht (fun hm => hs (List.mem_cons_of_mem _ hm)) hlen
      rw [mapData, if_neg hend, read_eq hn, ok_bind, hrest, ok_bind, hdata, List.map_cons]
      by_cases hnull : e.2 = NULL
      · rw [if_pos hnull, List.filter_cons_of_neg (by simpa using hnull)]
        rfl
      · rw [if_neg hnull, List.filter_cons_of_pos (by simpa using hnull)]
        rfl

end

/-! ## The buckets -/

theorem Bucket.length_le {size k : Nat} {mem : Addr → Prop} (hb : h.Bucket size k mem p ns) :
    ns.length ≤ h.extent := by
  refine length_le_extent hb.nodup fun a ha => ?_
  obtain ⟨-, n, hn, -⟩ := (hb.mem_iff a).mp ha
  exact ⟨n, hn⟩

/-- The loop of `ListFindFromHashTable` finds a node of the bucket with the id. -/
theorem findCollision_spec {steps : Nat} (hchain : Segment h.Collides NULL p ns)
    (hsteps : ns.length < steps) :
    ∃ a, h.findCollision i steps p = .ok a ∧
      (a = NULL ∧ (∀ b ∈ ns, ∀ n, h.node b = some n → n.id ≠ i) ∨
        a ∈ ns ∧ ∃ n, h.node a = some n ∧ n.id = i) := by
  induction ns generalizing p steps with
  | nil =>
      obtain _ | steps := steps
      · omega
      have hp : p = NULL := hchain
      exact ⟨NULL, by rw [findCollision, if_pos hp], .inl ⟨rfl, fun b hb => by cases hb⟩⟩
  | cons b ns ih =>
      obtain _ | steps := steps
      · omega
      obtain ⟨rfl, q, hlink, ht⟩ := hchain
      obtain ⟨n, hn, rfl⟩ := hlink.next
      rw [findCollision, if_neg hlink.ne_null, read_eq hn, ok_bind]
      by_cases hid : n.id = i
      · rw [if_pos hid]
        exact ⟨p, rfl, .inr ⟨List.mem_cons_self, n, hn, hid⟩⟩
      · rw [if_neg hid]
        have hlen : ns.length < steps := Nat.lt_of_succ_lt_succ hsteps
        obtain ⟨a, ha, hcase⟩ := ih ht hlen
        refine ⟨a, ha, ?_⟩
        rcases hcase with ⟨hnull, hnot⟩ | ⟨hmem, hn'⟩
        · refine .inl ⟨hnull, fun b hb m hm => ?_⟩
          rcases List.mem_cons.mp hb with rfl | hb
          · obtain rfl : n = m := node_unique hn hm
            exact hid
          · exact hnot b hb m hm
        · exact .inr ⟨List.mem_cons_of_mem _ hmem, hn'⟩

theorem listFindFromHashTable_spec {mem : Addr → Prop} (hhash : h.Hashed l mem) :
    ∃ a, h.listFindFromHashTable l i = .ok a ∧
      (a = NULL ∧ (∀ b, mem b → ∀ n, h.node b = some n → n.id ≠ i) ∨
        mem a ∧ ∃ n, h.node a = some n ∧ n.id = i) := by
  obtain ⟨table, htable, hbuckets⟩ := hhash
  obtain ⟨bs, hb⟩ := hbuckets (i % l.hashTableSize)
  obtain ⟨a, ha, hcase⟩ := findCollision_spec (i := i) hb.links
    (Nat.lt_succ_of_le hb.length_le)
  refine ⟨a, ?_, ?_⟩
  · unfold listFindFromHashTable
    simp only [htable]
    exact ha
  · rcases hcase with ⟨hnull, hnot⟩ | ⟨hmem, hn⟩
    · refine .inl ⟨hnull, fun b hb' n hn hid => ?_⟩
      exact hnot b ((hb.mem_iff b).mpr ⟨hb', n, hn, by rw [hid]⟩) n hn hid
    · exact .inr ⟨((hb.mem_iff a).mp hmem).1, hn⟩

/-- The heaps differ in bucket links only. -/
def SameNodes (h h' : Heap) : Prop :=
  ∀ a, (h'.node a).map (fun n => { n with hashCollissionNext := NULL })
    = (h.node a).map (fun n => { n with hashCollissionNext := NULL })

theorem SameNodes.refl (h : Heap) : SameNodes h h := fun _ => rfl

/-- What is read of a node without its bucket link is the same. -/
theorem SameNodes.map {β : Type} {g : ListNode → β} (hsame : SameNodes h h')
    (hg : ∀ n : ListNode, g { n with hashCollissionNext := NULL } = g n) :
    (h'.node a).map g = (h.node a).map g := by
  have hmap := congrArg (Option.map g) (hsame a)
  simp only [Option.map_map, Function.comp_def, hg] at hmap
  exact hmap

theorem SameNodes.adjust {f : ListNode → ListNode}
    (hf : ∀ n : ListNode, ({ f n with hashCollissionNext := NULL } : ListNode)
      = { n with hashCollissionNext := NULL }) : SameNodes h (h.adjust a f) := by
  intro b
  exact adjust_map fun _ n => hf n

theorem SameNodes.exists_mod {m k : Nat} (hsame : SameNodes h h') :
    (∃ n, h'.node a = some n ∧ n.id % m = k) ↔ ∃ n, h.node a = some n ∧ n.id % m = k := by
  have hid : (h'.node a).map ListNode.id = (h.node a).map ListNode.id := hsame.map fun _ => rfl
  constructor
  · rintro ⟨n, hn, hk⟩
    rw [hn] at hid
    obtain ⟨n', hn', he⟩ := Option.map_eq_some_iff.mp hid.symm
    exact ⟨n', hn', he ▸ hk⟩
  · rintro ⟨n, hn, hk⟩
    rw [hn] at hid
    obtain ⟨n', hn', he⟩ := Option.map_eq_some_iff.mp hid
    exact ⟨n', hn', he ▸ hk⟩

/-- A bucket depends only on the ids and bucket links of its nodes. -/
theorem Hashed.congr {mem : Addr → Prop} (hhash : h.Hashed l mem)
    (hlinks : ∀ b, mem b → (h'.node b).map (fun n => (n.hashCollissionNext, n.id))
      = (h.node b).map (fun n => (n.hashCollissionNext, n.id)))
    (htable : l'.hashTable = l.hashTable) (hsize : l'.hashTableSize = l.hashTableSize) :
    h'.Hashed l' mem := by
  obtain ⟨table, ht, hbuckets⟩ := hhash
  refine ⟨table, htable.trans ht, fun k => ?_⟩
  obtain ⟨bs, hb⟩ := hbuckets k
  have hnext : ∀ b, mem b → (h'.node b).map ListNode.hashCollissionNext
      = (h.node b).map ListNode.hashCollissionNext := by
    intro b hb
    have hmap := congrArg (Option.map Prod.fst) (hlinks b hb)
    simp only [Option.map_map, Function.comp_def] at hmap
    exact hmap
  have hid : ∀ b, mem b → (h'.node b).map (fun n => n.id % l.hashTableSize)
      = (h.node b).map (fun n => n.id % l.hashTableSize) := by
    intro b hb
    have hmap := congrArg (Option.map fun x => x.2 % l.hashTableSize) (hlinks b hb)
    simp only [Option.map_map, Function.comp_def] at hmap
    exact hmap
  rw [hsize]
  refine ⟨bs, hb.links.congr fun u hu v _ huv => ?_, hb.nodup, fun a => ?_⟩
  · exact (hnext u ((hb.mem_iff u).mp hu).1).trans huv
  · rw [hb.mem_iff a]
    refine and_congr_right fun ha => ?_
    have hmap := hid a ha
    constructor
    · rintro ⟨n, hn, hk⟩
      rw [hn] at hmap
      obtain ⟨m, hm, hmk⟩ := Option.map_eq_some_iff.mp hmap
      exact ⟨m, hm, hmk.trans hk⟩
    · rintro ⟨n, hn, hk⟩
      rw [hn] at hmap
      obtain ⟨m, hm, hmk⟩ := Option.map_eq_some_iff.mp hmap.symm
      exact ⟨m, hm, hmk.trans hk⟩

theorem Hashed.mem_congr {mem mem' : Addr → Prop} (hhash : h.Hashed l mem)
    (hmem : ∀ b n, h.node b = some n → (mem b ↔ mem' b)) : h.Hashed l mem' := by
  obtain ⟨table, ht, hbuckets⟩ := hhash
  refine ⟨table, ht, fun k => ?_⟩
  obtain ⟨bs, hb⟩ := hbuckets k
  refine ⟨bs, hb.links, hb.nodup, fun a => (hb.mem_iff a).trans ?_⟩
  constructor
  · rintro ⟨ha, n, hn, hk⟩
    exact ⟨(hmem a n hn).mp ha, n, hn, hk⟩
  · rintro ⟨ha, n, hn, hk⟩
    exact ⟨(hmem a n hn).mpr ha, n, hn, hk⟩

/-- A node that was in no bucket joins the bucket of its id, in front. -/
theorem listAddToHashTable_spec {mem : Addr → Prop} (hhash : h.Hashed l mem)
    (hn : h.node ln = some n) (hnot : ¬ mem ln) :
    ∃ h' table, h.listAddToHashTable l ln = .ok (h', { l with hashTable := some table }) ∧
      h'.Hashed { l with hashTable := some table } (fun b => b = ln ∨ mem b) ∧
      SameNodes h h' ∧ ∀ b, b ≠ ln → h'.node b = h.node b := by
  obtain ⟨table, ht, hbuckets⟩ := hhash
  have hsame : SameNodes h (h.adjust ln fun m =>
      { m with hashCollissionNext := table (n.id % l.hashTableSize) }) := .adjust fun _ => rfl
  refine ⟨_, fun k => if k = n.id % l.hashTableSize then ln else table k, ?_, ?_, hsame,
    fun b hb => adjust_node_of_ne hb⟩
  · unfold listAddToHashTable
    simp only [ht, read_eq hn, ok_bind, modify_eq hn]
    rfl
  refine ⟨_, rfl, fun k => ?_⟩
  obtain ⟨bs, hb⟩ := hbuckets k
  have hln : ln ∉ bs := fun hm => hnot ((hb.mem_iff ln).mp hm).1
  -- The bucket as it was, which the new node is not in.
  have hbs : Segment (h.adjust ln fun m =>
      { m with hashCollissionNext := table (n.id % l.hashTableSize) }).Collides NULL
      (table k) bs := by
    refine hb.links.congr fun u hu v _ huv => ?_
    have hne : u ≠ ln := fun he => hln (he ▸ hu)
    unfold Collides
    rw [adjust_node_of_ne hne]
    exact huv
  by_cases hk : k = n.id % l.hashTableSize
  · subst hk
    refine ⟨ln :: bs, ?_, List.nodup_cons.mpr ⟨hln, hb.nodup⟩, fun a => ?_⟩
    · show Segment _ _ (if _ = _ then ln else _) _
      rw [if_pos rfl]
      refine .cons ?_ hbs
      unfold Collides
      rw [adjust_node_self hn]
      rfl
    · rw [hsame.exists_mod, List.mem_cons, hb.mem_iff a]
      constructor
      · rintro (rfl | ⟨hmem, hid⟩)
        · exact ⟨.inl rfl, n, hn, rfl⟩
        · exact ⟨.inr hmem, hid⟩
      · rintro ⟨rfl | hmem, hid⟩
        · exact .inl rfl
        · exact .inr ⟨hmem, hid⟩
  · refine ⟨bs, ?_, hb.nodup, fun a => ?_⟩
    · show Segment _ _ (if _ = _ then ln else _) _
      rw [if_neg hk]
      exact hbs
    · rw [hsame.exists_mod, hb.mem_iff a]
      constructor
      · rintro ⟨hmem, hid⟩
        exact ⟨.inr hmem, hid⟩
      · rintro ⟨rfl | hmem, m, hm, hid⟩
        · obtain rfl : n = m := node_unique hn hm
          exact absurd hid.symm hk
        · exact ⟨hmem, m, hm, hid⟩

/-- The loop of `ListRemoveFromHashTable` takes a node with the id out of the bucket. -/
theorem removeCollision_spec {steps : Nat} (hchain : Segment h.Collides NULL p (p :: ns))
    (hnodup : (p :: ns).Nodup) (hsteps : ns.length < steps) :
    ∃ a h', h.removeCollision i steps p = .ok (a, h') ∧ SameNodes h h' ∧
      (∀ b, b ∉ p :: ns → h'.node b = h.node b) ∧
      (a = NULL ∧ h' = h ∧ (∀ b ∈ ns, ∀ n, h.node b = some n → n.id ≠ i) ∨
        a ∈ ns ∧ (∃ n, h.node a = some n ∧ n.id = i) ∧
          Segment h'.Collides NULL p (p :: ns.erase a)) := by
  induction ns generalizing p steps with
  | nil =>
      obtain _ | steps := steps
      · omega
      obtain ⟨-, q, hlink, hq⟩ := hchain
      obtain ⟨v, hv, hvq⟩ := hlink.next
      refine ⟨NULL, h, ?_, .refl h, fun _ _ => rfl, .inl ⟨rfl, rfl, fun b hb => by cases hb⟩⟩
      rw [removeCollision, read_eq hv, ok_bind, if_pos (hvq.trans hq)]
      rfl
  | cons b ns ih =>
      obtain _ | steps := steps
      · omega
      obtain ⟨-, q, hlink, rfl, r, hlink', ht⟩ := hchain
      obtain ⟨v, hv, rfl⟩ := hlink.next
      obtain ⟨n, hn, rfl⟩ := hlink'.next
      obtain ⟨hp, hnodup'⟩ := List.nodup_cons.mp hnodup
      rw [removeCollision, read_eq hv, ok_bind, if_neg hlink'.ne_null, read_eq hn, ok_bind]
      by_cases hid : n.id = i
      · rw [if_pos hid, modify_eq hv, ok_bind]
        refine ⟨_, _, rfl, .adjust fun _ => rfl, fun c hc => ?_,
          .inr ⟨List.mem_cons_self, ⟨n, hn, hid⟩, ?_⟩⟩
        · exact adjust_node_of_ne fun he => hc (he ▸ List.mem_cons_self)
        -- The node before it is linked to the one after it.
        · rw [List.erase_cons_head]
          refine .cons ?_ (ht.congr fun u hu w _ huw => ?_)
          · unfold Collides
            rw [adjust_node_self hv]
            rfl
          · have hne : u ≠ p := fun he => hp (he ▸ List.mem_cons_of_mem _ hu)
            unfold Collides
            rw [adjust_node_of_ne hne]
            exact huw
      · rw [if_neg hid]
        have hlen : ns.length < steps := Nat.lt_of_succ_lt_succ hsteps
        obtain ⟨a, h', ha, hsame, hframe, hcase⟩ := ih ⟨rfl, _, hlink', ht⟩ hnodup' hlen
        refine ⟨a, h', ha, hsame, fun c hc => hframe c fun hm => hc (List.mem_cons_of_mem _ hm),
          ?_⟩
        rcases hcase with ⟨hnull, hh, hnot⟩ | ⟨hmem, hn', hseg⟩
        · refine .inl ⟨hnull, hh, fun c hc m hm => ?_⟩
          rcases List.mem_cons.mp hc with rfl | hc
          · obtain rfl : n = m := node_unique hn hm
            exact hid
          · exact hnot c hc m hm
        · have hne : v.hashCollissionNext ≠ a := by
            rintro rfl
            exact (List.nodup_cons.mp hnodup').1 hmem
          refine .inr ⟨List.mem_cons_of_mem _ hmem, hn', ?_⟩
          rw [List.erase_cons_tail (by simpa using hne)]
          refine .cons ?_ hseg
          unfold Collides
          rw [hframe p hp]
          exact hlink

/-- One bucket changes, which loses the node `a`; the others stay. -/
theorem Hashed.replace {mem : Addr → Prop} {table table' : Nat → Addr} {k₀ : Nat}
    {bs : List Addr}
    (hbuckets : ∀ k, ∃ ns, h.Bucket l.hashTableSize k mem (table k) ns)
    (hb : h.Bucket l.hashTableSize k₀ mem (table k₀) bs)
    (htable : ∀ k, k ≠ k₀ → table' k = table k) (hsame : SameNodes h h')
    (hframe : ∀ c, c ∉ bs → h'.node c = h.node c)
    (hlinks : Segment h'.Collides NULL (table' k₀) (bs.erase a)) (ha : a ∈ bs) :
    h'.Hashed { l with hashTable := some table' } (fun b => mem b ∧ b ≠ a) := by
  refine ⟨table', rfl, fun k => ?_⟩
  by_cases hk : k = k₀
  · subst hk
    refine ⟨bs.erase a, hlinks, hb.nodup.erase a, fun c => ?_⟩
    rw [hsame.exists_mod, hb.nodup.mem_erase_iff, hb.mem_iff c]
    exact and_left_comm.trans and_assoc.symm
  · -- A node is in the bucket of its id only, so this one does not meet the bucket that changes.
    obtain ⟨ds, hd⟩ := hbuckets k
    have hout : ∀ c ∈ ds, c ∉ bs := by
      intro c hc hc'
      obtain ⟨-, n, hn, hnk⟩ := (hd.mem_iff c).mp hc
      obtain ⟨-, m, hm, hmk⟩ := (hb.mem_iff c).mp hc'
      obtain rfl : n = m := node_unique hn hm
      exact hk (hnk.symm.trans hmk)
    refine ⟨ds, ?_, hd.nodup, fun c => ?_⟩
    · rw [htable k hk]
      refine hd.links.congr fun u hu v _ huv => ?_
      unfold Collides
      rw [hframe u (hout u hu)]
      exact huv
    · rw [hsame.exists_mod]
      constructor
      · intro hc
        obtain ⟨hmem, n, hn, hnk⟩ := (hd.mem_iff c).mp hc
        exact ⟨⟨hmem, fun he => hout c hc (he ▸ ha)⟩, n, hn, hnk⟩
      · rintro ⟨⟨hmem, -⟩, hn⟩
        exact (hd.mem_iff c).mpr ⟨hmem, hn⟩

/-- A node with the id leaves its bucket, or there is none. -/
theorem listRemoveFromHashTable_spec {mem : Addr → Prop} (hhash : h.Hashed l mem) :
    ∃ a h' table, h.listRemoveFromHashTable l i
        = .ok (a, h', { l with hashTable := some table }) ∧
      h'.Hashed { l with hashTable := some table } (fun b => mem b ∧ b ≠ a) ∧
      SameNodes h h' ∧ (∀ b, ¬ mem b → h'.node b = h.node b) ∧
      (a = NULL ∧ (∀ b, mem b → ∀ n, h.node b = some n → n.id ≠ i) ∨
        mem a ∧ ∃ n, h.node a = some n ∧ n.id = i) := by
  have ⟨table, ht, hbuckets⟩ := hhash
  have hl : l = { l with hashTable := some table } := by
    rw [← ht]
  obtain ⟨bs, hb⟩ := hbuckets (i % l.hashTableSize)
  have hmem : ∀ b ∈ bs, mem b := fun b hb' => ((hb.mem_iff b).mp hb').1
  -- A node with the id can only be in the bucket of the id.
  have habsent : (∀ b ∈ bs, ∀ n, h.node b = some n → n.id ≠ i) →
      ∀ b, mem b → ∀ n, h.node b = some n → n.id ≠ i := by
    intro hnot b hb' n hn hid
    exact hnot b ((hb.mem_iff b).mpr ⟨hb', n, hn, by rw [hid]⟩) n hn hid
  have hkeep : h.Hashed { l with hashTable := some table } (fun b => mem b ∧ b ≠ NULL) := by
    have hsame : h.Hashed l (fun b => mem b ∧ b ≠ NULL) :=
      hhash.mem_congr fun _ _ hn => (and_iff_left (ne_null hn)).symm
    exact hsame.congr (fun _ _ => rfl) ht.symm rfl
  unfold listRemoveFromHashTable
  simp only [ht]
  cases bs with
  | nil =>
      have hhead : table (i % l.hashTableSize) = NULL := hb.links
      rw [if_pos hhead]
      refine ⟨NULL, h, table, ?_, hkeep, .refl h, fun _ _ => rfl,
        .inl ⟨rfl, habsent fun b hb' => by cases hb'⟩⟩
      rw [← hl]
      rfl
  | cons b bs =>
      have hlinks := hb.links
      obtain ⟨hhead, q, hlink, hq⟩ := hlinks
      obtain ⟨v, hv, rfl⟩ := hlink.next
      have hnot : b ∉ bs := (List.nodup_cons.mp hb.nodup).1
      rw [hhead, if_neg hlink.ne_null, read_eq hv, ok_bind]
      -- The head of the bucket is taken out by changing the table, another node by changing a link.
      by_cases hid : v.id = i
      · rw [if_pos hid]
        refine ⟨b, h, _, rfl, ?_, .refl h, fun _ _ => rfl,
          .inr ⟨hmem b List.mem_cons_self, v, hv, hid⟩⟩
        refine Hashed.replace hbuckets hb (fun k hk => if_neg hk) (.refl h) (fun _ _ => rfl) ?_
          List.mem_cons_self
        rw [if_pos rfl, List.erase_cons_head]
        exact hq
      · rw [if_neg hid]
        have hlen : bs.length < h.extent + 1 := by
          have := hb.length_le
          rw [List.length_cons] at this
          omega
        obtain ⟨a, h', ha, hsame, hframe, hcase⟩ :=
          removeCollision_spec (i := i) (hhead ▸ hb.links) hb.nodup hlen
        refine ⟨a, h', table, ?_, ?_, hsame,
          fun c hc => hframe c fun hm => hc (hmem c hm), ?_⟩
        · rw [ha, ok_bind, ← hl]
          rfl
        · rcases hcase with ⟨rfl, rfl, -⟩ | ⟨hmem', hn, hseg⟩
          · exact hkeep
          · have hba : b ≠ a := fun he => hnot (he ▸ hmem')
            refine Hashed.replace hbuckets hb (fun _ _ => rfl) hsame hframe ?_
              (List.mem_cons_of_mem _ hmem')
            rw [hhead, List.erase_cons_tail (by simpa using hba)]
            exact hseg
        · rcases hcase with ⟨hnull, -, hnot'⟩ | ⟨hmem', hn, -⟩
          · refine .inl ⟨hnull, habsent fun c hc n hn => ?_⟩
            rcases List.mem_cons.mp hc with rfl | hc
            · obtain rfl : v = n := node_unique hv hn
              exact hid
            · exact hnot' c hc n hn
          · exact .inr ⟨hmem a (List.mem_cons_of_mem _ hmem'), hn⟩

/-! ## The chain -/

/-- A node of the chain is in use. -/
theorem Chained.node (hc : h.Chained s p ns) (ha : a ∈ ns) : ∃ n, h.node a = some n := by
  obtain ⟨q, -, hlink⟩ := hc.links.linked_of_mem ha
  obtain ⟨n, hn, -⟩ := hlink.next
  exact ⟨n, hn⟩

theorem Chained.notMem (hc : h.Chained s p ns) : s ∉ ns := by
  intro hs
  exact (List.disjoint_of_nodup_append hc.nodup) hs (List.mem_singleton_self s)

/-- The list is empty exactly when its head is the sentinel. -/
theorem Chained.eq_nil_iff (hc : h.Chained s p ns) : p = s ↔ ns = [] := by
  cases ns with
  | nil => exact iff_of_true hc.links rfl
  | cons b ns =>
      obtain ⟨rfl, -⟩ := hc.links
      exact iff_of_false (fun he => hc.notMem (he ▸ List.mem_cons_self)) (List.cons_ne_nil _ _)

/-- A new first node. -/
theorem Chained.link_first (hc : h.Chained s p ns) (hln : ln ∉ ns ++ [s])
    (hnext : ∀ b ∈ ns, (h'.node b).map ListNode.next = (h.node b).map ListNode.next)
    (hprev : ∀ b ∈ (ns ++ [s]).tail,
      (h'.node b).map ListNode.prev = (h.node b).map ListNode.prev)
    (hlink : h'.Linked ln p) : h'.Chained s ln (ln :: ns) where
  links := .cons hlink (hc.links.congr fun u hu v hv huv => huv.congr (hnext u hu) (hprev v hv))
  nodup := List.nodup_cons.mpr ⟨hln, hc.nodup⟩

/-- A new last node. -/
theorem Chained.link_last {z : Addr} (hc : h.Chained s p (xs ++ [z]))
    (hln : ln ∉ xs ++ [z] ++ [s])
    (hnext : ∀ b ∈ xs, (h'.node b).map ListNode.next = (h.node b).map ListNode.next)
    (hprev : ∀ b ∈ xs ++ [z], (h'.node b).map ListNode.prev = (h.node b).map ListNode.prev)
    (hz : h'.Linked z ln) (hlink : h'.Linked ln s) :
    h'.Chained s p (xs ++ [z] ++ [ln]) where
  links := by
    obtain ⟨q, hxs, rfl, -⟩ := Segment.append_iff.mp hc.links
    refine ((hxs.congr fun u hu v hv huv => ?_).snoc hz).snoc hlink
    exact huv.congr (hnext u hu) (hprev v (List.mem_of_mem_tail hv))
  nodup := by
    have hnodup := hc.nodup
    rw [List.append_assoc]
    refine List.nodup_append.mpr ⟨(List.nodup_append.mp hnodup).1, ?_, ?_⟩
    · refine List.nodup_cons.mpr ⟨fun hm => ?_, List.nodup_singleton s⟩
      obtain rfl := List.mem_singleton.mp hm
      exact hln (List.mem_append_right _ (List.mem_singleton_self _))
    · intro b hb c hc' he
      subst he
      rcases List.mem_cons.mp hc' with rfl | hs
      · exact hln (List.mem_append_left _ hb)
      · obtain rfl := List.mem_singleton.mp hs
        exact hc.notMem hb

/-- The first node is taken off. -/
theorem Chained.drop_first {q : Addr} (hc : h.Chained s p (a :: ns)) (hlink : h.Linked a q)
    (hnext : ∀ b ∈ ns, (h'.node b).map ListNode.next = (h.node b).map ListNode.next)
    (hprev : ∀ b ∈ (ns ++ [s]).tail,
      (h'.node b).map ListNode.prev = (h.node b).map ListNode.prev) : h'.Chained s q ns where
  links := by
    obtain ⟨-, r, hr, ht⟩ := hc.links
    obtain rfl : r = q := Option.some.inj (hr.1.symm.trans hlink.1)
    exact ht.congr fun u hu v hv huv => huv.congr (hnext u hu) (hprev v hv)
  nodup := (List.nodup_cons.mp hc.nodup).2

/-- A node that is not the first one is taken out from between its neighbours. -/
theorem Chained.unlink {w x q : Addr} (hc : h.Chained s p (xs ++ w :: x :: ys))
    (hx : h.Linked x q)
    (hnext : ∀ b ∈ xs ++ ys, (h'.node b).map ListNode.next = (h.node b).map ListNode.next)
    (hprev : ∀ b, b ∈ xs ++ [w] ∨ b ∈ (ys ++ [s]).tail →
      (h'.node b).map ListNode.prev = (h.node b).map ListNode.prev)
    (hlink : h'.Linked w q) : h'.Chained s p (xs ++ w :: ys) where
  links := by
    obtain ⟨r, hxs, rfl, r', -, rfl, r'', hr, hys⟩ := Segment.append_iff.mp hc.links
    obtain rfl : r'' = q := Option.some.inj (hr.1.symm.trans hx.1)
    refine Segment.append_iff.mpr ⟨r, hxs.congr fun u hu v hv huv => ?_, .cons hlink ?_⟩
    · exact huv.congr (hnext u (List.mem_append_left _ hu))
        (hprev v (.inl (List.mem_of_mem_tail hv)))
    · refine hys.congr fun u hu v hv huv => ?_
      exact huv.congr (hnext u (List.mem_append_right _ hu)) (hprev v (.inr hv))
  nodup := by
    refine hc.nodup.sublist ?_
    refine (List.Sublist.append_left ?_ xs).append_right [s]
    exact (List.sublist_cons_self x ys).cons_cons w

/-! ## A list and its entries -/

theorem entries_congr (hes : List.Forall₂ (fun a e => h.entry a = some e) ns es)
    (hsame : ∀ a ∈ ns, h'.entry a = h.entry a) :
    List.Forall₂ (fun a e => h'.entry a = some e) ns es := by
  induction hes with
  | nil => exact .nil
  | cons ha _ ih =>
      refine .cons ((hsame _ List.mem_cons_self).trans ha) (ih fun a hm => ?_)
      exact hsame a (List.mem_cons_of_mem _ hm)

/-- The entry of a node of the list is one of the sequence. -/
theorem mem_of_entries (hes : List.Forall₂ (fun a e => h.entry a = some e) ns es) (ha : a ∈ ns)
    (hn : h.node a = some n) : (n.id, n.data) ∈ es := by
  induction hes with
  | nil => cases ha
  | @cons b e _ _ hb _ ih =>
      rcases List.mem_cons.mp ha with rfl | hm
      · obtain rfl : (n.id, n.data) = e := Option.some.inj ((entry_eq hn).symm.trans hb)
        exact List.mem_cons_self
      · exact List.mem_cons_of_mem _ (ih hm)

/-- Every entry of the sequence is a node's. -/
theorem node_of_mem {e : Entry} (hes : List.Forall₂ (fun a e => h.entry a = some e) ns es)
    (he : e ∈ es) : ∃ a ∈ ns, ∃ n, h.node a = some n ∧ n.id = e.1 ∧ n.data = e.2 := by
  induction hes with
  | nil => cases he
  | @cons b f _ _ hb _ ih =>
      rcases List.mem_cons.mp he with rfl | hm
      · exact ⟨b, List.mem_cons_self, node_of_entry hb⟩
      · obtain ⟨a, ha, hn⟩ := ih hm
        exact ⟨a, List.mem_cons_of_mem _ ha, hn⟩

namespace Plain

theorem node_sentinel (hp : h.Plain l ns es) :
    ∃ n, h.node l.sentinel = some n ∧ n.data = NULL :=
  Option.map_eq_some_iff.mp hp.sentinel

theorem node (hp : h.Plain l ns es) (ha : a ∈ ns ++ [l.sentinel]) : ∃ n, h.node a = some n := by
  rcases List.mem_append.mp ha with hm | hm
  · exact hp.chain.node hm
  · obtain rfl := List.mem_singleton.mp hm
    obtain ⟨n, hn, -⟩ := hp.node_sentinel
    exact ⟨n, hn⟩

/-- An address that is not in use is not in the list. -/
theorem notMem (hp : h.Plain l ns es) (hln : h.node ln = none) : ln ∉ ns ++ [l.sentinel] := by
  intro hm
  obtain ⟨n, hn⟩ := hp.node hm
  rw [hln] at hn
  cases hn

theorem head_mem (hp : h.Plain l ns es) : l.head ∈ ns ++ [l.sentinel] := hp.chain.links.head_mem

theorem listEmpty_iff (hp : h.Plain l ns es) : listEmpty l = true ↔ ns = [] := by
  unfold listEmpty
  rw [beq_iff_eq, eq_comm]
  exact hp.chain.eq_nil_iff

theorem listEmpty_iff_entries (hp : h.Plain l ns es) : listEmpty l = true ↔ es = [] := by
  rw [hp.listEmpty_iff, ← List.length_eq_zero_iff, hp.entries.length_eq, List.length_eq_zero_iff]

theorem length_lt (hp : h.Plain l ns es) : ns.length < h.extent + 1 := by
  refine Nat.lt_succ_of_le (length_le_extent ?_ fun a ha => hp.chain.node ha)
  exact (List.nodup_append.mp hp.chain.nodup).1

/-- The chain does not read bucket links. -/
theorem same (hp : h.Plain l ns es) (table : Option (Nat → Addr)) (hsame : SameNodes h h') :
    h'.Plain { l with hashTable := table } ns es where
  chain := {
    links := hp.chain.links.congr fun _ _ _ _ huv =>
      huv.congr (hsame.map fun _ => rfl) (hsame.map fun _ => rfl)
    nodup := hp.chain.nodup }
  entries := entries_congr hp.entries fun _ _ => hsame.map fun _ => rfl
  sentinel := (hsame.map fun _ => rfl).trans hp.sentinel

/-- The last step of a call that has put a new node into the chain. -/
theorem addToHash {ns' : List Addr} (hp : h.Plain l ns' es) (hn : h.node ln = some n)
    (hnot : ln ∉ ns) (hhash : l.hashTableSize ≠ 0 → h.Hashed l (· ∈ ns))
    (hns : ∀ b, b ∈ ns' ↔ b = ln ∨ b ∈ ns) :
    ∃ h' l', (if l.hashTableSize ≠ 0 then h.listAddToHashTable l ln else .ok (h, l))
        = .ok (h', l') ∧
      h'.Holds l' ns' es ∧ l'.sentinel = l.sentinel ∧ l'.hashTableSize = l.hashTableSize ∧
      ∀ b, b ≠ ln → h'.node b = h.node b := by
  by_cases hsize : l.hashTableSize = 0
  · rw [if_neg (not_not_intro hsize)]
    refine ⟨h, l, rfl, { toPlain := hp, hash := fun hne => absurd hsize hne }, rfl, rfl,
      fun _ _ => rfl⟩
  · rw [if_pos hsize]
    obtain ⟨h', table, hok, hhash', hsame, hframe⟩ :=
      listAddToHashTable_spec (hhash hsize) hn hnot
    refine ⟨h', _, hok, { toPlain := hp.same _ hsame, hash := fun _ => ?_ }, rfl, rfl, hframe⟩
    exact hhash'.mem_congr fun b _ _ => (hns b).symm

end Plain

namespace Holds

/-- `ListPush` puts an entry in front. -/
theorem listPush {d : Addr} (hl : h.Holds l ns es) (hln : h.node ln = none) (h0 : ln ≠ NULL) :
    ∃ h' l', h.listPush l ln d i = .ok (h', l') ∧
      Becomes h l ns h' l' (ln :: ns) ((i, d) :: es) := by
  have hnot := hl.notMem hln
  have hhead := hl.head_mem
  have hp : l.head ≠ ln := fun he => hnot (he ▸ hhead)
  obtain ⟨m, hm⟩ := hl.node hhead
  have hself : (h.calloc ln).node ln = some {} := calloc_node_self h0
  have hm₁ : (h.calloc ln).node l.head = some m := (calloc_node_of_ne hp).trans hm
  have hself₂ : ((h.calloc ln).adjust l.head fun n => { n with prev := ln }).node ln
      = some {} := (adjust_node_of_ne hp.symm).trans hself
  have hself₃ := adjust_node_self (f := fun n => { n with next := l.head }) hself₂
  have hself₄ := adjust_node_self
    (f := fun n => { n with id := i, data := d, hashCollissionNext := NULL }) hself₃
  -- The new node is complete; what other nodes hold is as it was, but for one `prev`.
  generalize hh₄ : Heap.adjust (Heap.adjust (Heap.adjust (h.calloc ln) l.head
    fun n => { n with prev := ln }) ln fun n => { n with next := l.head }) ln
    (fun n => { n with id := i, data := d, hashCollissionNext := NULL }) = h₄ at hself₄
  have hof : ∀ b, b ≠ ln → h₄.node b = ((h.calloc ln).adjust l.head
      fun n => { n with prev := ln }).node b := by
    intro b hb
    rw [← hh₄, adjust_node_of_ne hb, adjust_node_of_ne hb]
  have hmap : ∀ {β : Type} {g : ListNode → β} {b : Addr}, b ≠ ln →
      (b = l.head → ∀ n : ListNode, g { n with prev := ln } = g n) →
      (h₄.node b).map g = (h.node b).map g := by
    intro β g b hb hg
    rw [hof b hb, adjust_map hg, calloc_node_of_ne hb]
  have hprev : (h₄.node l.head).map ListNode.prev = some ln := by
    rw [hof _ hp, adjust_node_self hm₁]
    rfl
  have hne : ∀ b ∈ ns ++ [l.sentinel], b ≠ ln := fun b hb he => hnot (he ▸ hb)
  have hplain : h₄.Plain { l with head := ln } (ln :: ns) ((i, d) :: es) := {
    chain := by
      refine hl.chain.link_first hnot (fun b hb => ?_) (fun b hb => ?_) ⟨?_, hprev⟩
      · exact hmap (hne b (List.mem_append_left _ hb)) fun _ _ => rfl
      · refine hmap (hne b (List.mem_of_mem_tail hb)) fun he => ?_
        exact absurd (he ▸ hb) (hl.chain.links.notMem_tail hl.chain.nodup)
      · rw [hself₄]
        rfl
    entries := by
      refine .cons (entry_eq hself₄) (entries_congr hl.entries fun b hb => ?_)
      exact hmap (hne b (List.mem_append_left _ hb)) fun _ _ => rfl
    sentinel := by
      refine Eq.trans (hmap (hne _ ?_) fun _ _ => rfl) hl.sentinel
      exact List.mem_append_right _ (List.mem_singleton_self _) }
  have hhash : l.hashTableSize ≠ 0 → h₄.Hashed { l with head := ln } (· ∈ ns) := by
    intro hsize
    refine (hl.hash hsize).congr (fun b hb => ?_) rfl rfl
    exact hmap (hne b (List.mem_append_left _ hb)) fun _ _ => rfl
  obtain ⟨h', l', hok, hholds, hs, hsize, hframe⟩ := hplain.addToHash hself₄
    (fun hm => hnot (List.mem_append_left _ hm)) hhash fun b => List.mem_cons
  refine ⟨h', l', ?_, hholds, hs, hsize, fun b hb hb' => ?_, fun b hb hb' => ?_,
    fun b hb hb' => ?_⟩
  · unfold Heap.listPush
    simp only [modify_eq hm₁, ok_bind, modify_eq hself₂, modify_eq hself₃, hh₄]
    exact hok
  · have hb : b ≠ ln := fun he => hb' (he ▸ List.mem_cons_self)
    have hb₂ : b ≠ l.head := fun he => hb' (he ▸ List.mem_cons_of_mem _ hhead)
    rw [hframe b hb, hof b hb, adjust_node_of_ne hb₂, calloc_node_of_ne hb]
  · exact absurd (List.mem_cons_of_mem _ hb) hb'
  · rcases List.mem_cons.mp hb with rfl | hm
    · exact hln
    · exact absurd hm hb'

end Holds
/-- `ListAppend` puts an entry at the end. -/
theorem Holds.listAppend {d : Addr} (hl : h.Holds l ns es) (hln : h.node ln = none)
    (h0 : ln ≠ NULL) :
    ∃ h' l' ns', h.listAppend l ln d i = .ok (h', l') ∧
      Becomes h l ns h' l' ns' (es ++ [(i, d)]) := by
  unfold Heap.listAppend
  by_cases hempty : listEmpty l = true
  · obtain rfl := hl.listEmpty_iff.mp hempty
    obtain rfl := hl.listEmpty_iff_entries.mp hempty
    rw [if_pos hempty]
    obtain ⟨h', l', hpush⟩ := hl.listPush hln h0
    exact ⟨h', l', [ln], hpush⟩
  rw [if_neg hempty]
  obtain ⟨xs, z, rfl⟩ := (List.eq_nil_or_concat' ns).resolve_left
    fun he => hempty (hl.listEmpty_iff.mpr he)
  have hnot := hl.notMem hln
  have hz : z ∈ xs ++ [z] ++ [l.sentinel] :=
    List.mem_append_left _ (List.mem_append_right _ (List.mem_singleton_self z))
  have hs : l.sentinel ∈ xs ++ [z] ++ [l.sentinel] :=
    List.mem_append_right _ (List.mem_singleton_self _)
  have hne : ∀ b ∈ xs ++ [z] ++ [l.sentinel], b ≠ ln := fun b hb he => hnot (he ▸ hb)
  have hzs : z ≠ l.sentinel := by
    intro he
    exact hl.chain.notMem (he ▸ List.mem_append_right _ (List.mem_singleton_self z))
  have hzxs : z ∉ xs := by
    intro hm
    have hnodup := (List.nodup_append.mp hl.chain.nodup).1
    exact (List.disjoint_of_nodup_append hnodup) hm (List.mem_singleton_self z)
  -- The sentinel points back to the last node.
  obtain ⟨m, hm, hmz⟩ : ∃ m, h.node l.sentinel = some m ∧ m.prev = z := by
    obtain ⟨q, -, rfl, r, hlink, hr⟩ := Segment.append_iff.mp hl.chain.links
    have hr' : r = l.sentinel := hr
    exact hr' ▸ hlink.prev
  subst hmz
  obtain ⟨v, hv⟩ := hl.node hz
  have hself : (h.calloc ln).node ln = some {} := calloc_node_self h0
  have hself₁ := adjust_node_self (f := fun n => { n with id := i, data := d }) hself
  have hm₁ : ((h.calloc ln).adjust ln fun n => { n with id := i, data := d }).node l.sentinel
      = some m := by
    rw [adjust_node_of_ne (hne _ hs), calloc_node_of_ne (hne _ hs), hm]
  have hself₂ := adjust_node_self (f := fun n => { n with prev := m.prev }) hself₁
  have hv₂ : (((h.calloc ln).adjust ln fun n => { n with id := i, data := d }).adjust ln
      fun n => { n with prev := m.prev }).node m.prev = some v := by
    rw [adjust_node_of_ne (hne _ hz), adjust_node_of_ne (hne _ hz), calloc_node_of_ne (hne _ hz),
      hv]
  have hself₃ := (adjust_node_of_ne (f := fun n => { n with next := ln })
    (hne _ hz).symm).trans hself₂
  have hm₃ := (adjust_node_of_ne (f := fun n => { n with next := ln }) hzs.symm).trans
    ((adjust_node_of_ne (f := fun n => { n with prev := m.prev }) (hne _ hs)).trans hm₁)
  have hself₄ := (adjust_node_of_ne (f := fun n => { n with prev := ln })
    (hne _ hs).symm).trans hself₃
  have hself₅ := adjust_node_self
    (f := fun n => { n with next := l.sentinel, hashCollissionNext := NULL }) hself₄
  generalize hh₅ : Heap.adjust (Heap.adjust (Heap.adjust (Heap.adjust (Heap.adjust (h.calloc ln) ln
    fun n => { n with id := i, data := d }) ln fun n => { n with prev := m.prev }) m.prev
    fun n => { n with next := ln }) l.sentinel fun n => { n with prev := ln }) ln
    (fun n => { n with next := l.sentinel, hashCollissionNext := NULL }) = h₅ at hself₅
  -- Old nodes are as they were, but for the `next` of the last one and the sentinel's `prev`.
  have hmap : ∀ {β : Type} {g : ListNode → β} {b : Addr}, b ≠ ln →
      (b = m.prev → ∀ n : ListNode, g { n with next := ln } = g n) →
      (b = l.sentinel → ∀ n : ListNode, g { n with prev := ln } = g n) →
      (h₅.node b).map g = (h.node b).map g := by
    intro β g b hb hg hg'
    rw [← hh₅, adjust_node_of_ne hb, adjust_map hg', adjust_map hg, adjust_node_of_ne hb,
      adjust_node_of_ne hb, calloc_node_of_ne hb]
  have hnext : (h₅.node m.prev).map ListNode.next = some ln := by
    rw [← hh₅, adjust_node_of_ne (hne _ hz), adjust_node_of_ne hzs, adjust_node_self hv₂]
    rfl
  have hprev : (h₅.node l.sentinel).map ListNode.prev = some ln := by
    rw [← hh₅, adjust_node_of_ne (hne _ hs), adjust_node_self hm₃]
    rfl
  have hin : ∀ b ∈ xs ++ [m.prev], b ≠ ln ∧ b ≠ l.sentinel := by
    intro b hb
    exact ⟨hne b (List.mem_append_left _ hb), fun he => hl.chain.notMem (he ▸ hb)⟩
  have hplain : h₅.Plain l (xs ++ [m.prev] ++ [ln]) (es ++ [(i, d)]) := {
    chain := by
      refine hl.chain.link_last hnot (fun b hb => ?_) (fun b hb => ?_) ⟨hnext, ?_⟩ ⟨?_, hprev⟩
      · have hb' := hin b (List.mem_append_left _ hb)
        exact hmap hb'.1 (fun he => absurd (he ▸ hb) hzxs) fun _ _ => rfl
      · exact hmap (hin b hb).1 (fun _ _ => rfl) fun he => absurd he (hin b hb).2
      · rw [hself₅]
        rfl
      · rw [hself₅]
        rfl
    entries := by
      refine List.rel_append (entries_congr hl.entries fun b hb => ?_)
        (.cons (entry_eq hself₅) .nil)
      exact hmap (hin b hb).1 (fun _ _ => rfl) fun _ _ => rfl
    sentinel := (hmap (hne _ hs) (fun _ _ => rfl) fun _ _ => rfl).trans hl.sentinel }
  have hhash : l.hashTableSize ≠ 0 → h₅.Hashed l (· ∈ xs ++ [m.prev]) := by
    intro hsize
    refine (hl.hash hsize).congr (fun b hb => ?_) rfl rfl
    exact hmap (hin b hb).1 (fun _ _ => rfl) fun _ _ => rfl
  obtain ⟨h', l', hok, hholds, hsent, hsize, hframe⟩ := hplain.addToHash hself₅
    (fun hb => hnot (List.mem_append_left _ hb)) hhash fun b => by
      rw [List.mem_append, List.mem_singleton, or_comm]
  refine ⟨h', l', _, ?_, hholds, hsent, hsize, fun b hb hb' => ?_, fun b hb hb' => ?_,
    fun b hb hb' => ?_⟩
  · simp only [modify_eq hself, ok_bind, read_eq hm₁, modify_eq hself₁, read_eq hself₂,
      modify_eq hv₂, modify_eq hm₃, modify_eq hself₄, hh₅]
    exact hok
  · have hb₁ : b ≠ ln := by
      rintro rfl
      exact hb' (List.mem_append_left _ (List.mem_append_right _ (List.mem_singleton_self _)))
    have hb₂ : b ≠ m.prev := fun he => hb (he ▸ hz)
    have hb₃ : b ≠ l.sentinel := fun he => hb (he ▸ hs)
    rw [hframe b hb₁, ← hh₅, adjust_node_of_ne hb₁, adjust_node_of_ne hb₃, adjust_node_of_ne hb₂,
      adjust_node_of_ne hb₁, adjust_node_of_ne hb₁, calloc_node_of_ne hb₁]
  · refine absurd ?_ hb'
    rcases List.mem_append.mp hb with hb | hb
    · exact List.mem_append_left _ (List.mem_append_left _ hb)
    · exact List.mem_append_right _ hb
  · rcases List.mem_append.mp hb with hb | hb
    · rcases List.mem_append.mp hb with hb | hb
      · exact absurd (List.mem_append_left _ hb) hb'
      · obtain rfl := List.mem_singleton.mp hb
        exact hln
    · exact absurd (List.mem_append_right _ hb) hb'
/-! ## Taking a node out -/

/-- When only `x` has the id of `x` among the nodes of the hash table, the removal of that id
leaves the others. -/
theorem Hashed.take {mem : Addr → Prop} {x : Addr} (hhash : h.Hashed l mem)
    (hn : h.node x = some n)
    (honly : ∀ b, mem b → ∀ m, h.node b = some m → m.id = n.id → b = x) :
    ∃ a h' table, h.listRemoveFromHashTable l n.id
        = .ok (a, h', { l with hashTable := some table }) ∧
      h'.Hashed { l with hashTable := some table } (fun b => mem b ∧ b ≠ x) ∧
      SameNodes h h' ∧ ∀ b, ¬ mem b → h'.node b = h.node b := by
  obtain ⟨a, h', table, hok, hhash', hsame, hframe, hcase⟩ := listRemoveFromHashTable_spec hhash
  refine ⟨a, h', table, hok, hhash'.mem_congr fun b n' hn' => ?_, hsame, hframe⟩
  refine and_congr_right fun hb => ?_
  rcases hcase with ⟨rfl, hnot⟩ | ⟨ha, m, hm, hid⟩
  · refine iff_of_true (ne_null hn') ?_
    rintro rfl
    exact hnot b hb n hn rfl
  · rw [honly a ha m hm hid]

theorem Plain.head_eq (hp : h.Plain l (a :: ns) es) : l.head = a := hp.chain.links.1

/-- The chain after its first node is freed. -/
theorem Plain.drop_first {e : Entry} (hp : h.Plain l (a :: ns) (e :: es)) :
    ∃ n m, h.node a = some n ∧ n.id = e.1 ∧ n.data = e.2 ∧
      h.node n.next = some m ∧ n.next ≠ a ∧ n.next ∈ ns ++ [l.sentinel] ∧
      ((h.adjust n.next fun m => { m with prev := l.sentinel }).freed a).Plain
        { l with head := n.next } ns es := by
  obtain ⟨-, q, hlink, hseg⟩ := hp.chain.links
  obtain ⟨n, hn, rfl⟩ := hlink.next
  obtain ⟨m, hm, -⟩ := hlink.prev
  obtain ⟨ha, hnodup⟩ := List.nodup_cons.mp hp.chain.nodup
  have hmem : n.next ∈ ns ++ [l.sentinel] := hseg.head_mem
  have hne : ∀ b ∈ ns ++ [l.sentinel], b ≠ a := fun b hb he => ha (he ▸ hb)
  have hmap : ∀ {β : Type} {g : ListNode → β} {b : Addr}, b ≠ a →
      (b = n.next → ∀ v : ListNode, g { v with prev := l.sentinel } = g v) →
      (((h.adjust n.next fun m => { m with prev := l.sentinel }).freed a).node b).map g
        = (h.node b).map g := by
    intro β g b hb hg
    rw [freed_node_of_ne hb, adjust_map hg]
  have hentries := hp.entries
  rw [List.forall₂_cons] at hentries
  obtain ⟨n', hn', hid, hdata⟩ := node_of_entry hentries.1
  obtain rfl : n = n' := node_unique hn hn'
  refine ⟨n, m, hn, hid, hdata, hm, hne _ hmem, hmem, ?_, ?_, ?_⟩
  · refine hp.chain.drop_first hlink (fun b hb => ?_) fun b hb => ?_
    · exact hmap (hne b (List.mem_append_left _ hb)) fun _ _ => rfl
    · refine hmap (hne b (List.mem_of_mem_tail hb)) fun he => ?_
      exact absurd (he ▸ hb) (hseg.notMem_tail hnodup)
  · refine entries_congr hentries.2 fun b hb => ?_
    exact hmap (hne b (List.mem_append_left _ hb)) fun _ _ => rfl
  · refine (hmap (hne _ ?_) fun _ _ => rfl).trans hp.sentinel
    exact List.mem_append_right _ (List.mem_singleton_self _)

/-- The list without its first node, when the hash table holds its other nodes. -/
theorem Plain.drop_first_holds {e : Entry} {mem : Addr → Prop}
    (hp : h.Plain l (a :: ns) (e :: es)) (hn : h.node a = some n)
    (hhash : l.hashTableSize ≠ 0 → h.Hashed l mem) (hmem : ∀ b, mem b ↔ b ∈ ns) :
    ((h.adjust n.next fun m => { m with prev := l.sentinel }).freed a).Holds
      { l with head := n.next } ns es := by
  obtain ⟨n', m, hn', -, -, -, -, -, hplain⟩ := hp.drop_first
  obtain rfl : n = n' := node_unique hn hn'
  have ha : a ∉ ns := fun hm =>
    (List.nodup_cons.mp hp.chain.nodup).1 (List.mem_append_left _ hm)
  refine { toPlain := hplain, hash := fun hsize => ?_ }
  refine ((hhash hsize).mem_congr fun b _ _ => hmem b).congr (fun b hb => ?_) rfl rfl
  have hne : b ≠ a := fun he => ha (he ▸ hb)
  rw [freed_node_of_ne hne]
  exact adjust_map fun _ _ => rfl

/-- Only the first node of the list is given up. -/
theorem moves_drop_first {f : ListNode → ListNode} {q : Addr} (hq : q ∈ ns ++ [s])
    (hframe : ∀ b, b ∉ a :: ns → h₁.node b = h.node b) :
    Moves h ((h₁.adjust q f).freed a) (a :: ns ++ [s]) (ns ++ [s]) where
  frame b hb hb' := by
    have hba : b ≠ a := fun he => hb (he ▸ List.mem_cons_self)
    have hbq : b ≠ q := fun he => hb' (he ▸ hq)
    rw [freed_node_of_ne hba, adjust_node_of_ne hbq]
    exact hframe b fun hm => hb (List.mem_append_left [s] hm)
  freed b hb hb' := by
    rcases List.mem_cons.mp hb with rfl | hm
    · exact freed_node_self
    · exact absurd hm hb'
  fresh b hb hb' := absurd (List.mem_cons_of_mem a hb) hb'

/-- `ListDequeue` takes the first entry, whether its node is still in the hash table or not. -/
theorem Plain.listDequeue {e : Entry} {mem : Addr → Prop} (hp : h.Plain l (a :: ns) (e :: es))
    (hhash : l.hashTableSize ≠ 0 → h.Hashed l mem) (hin : ∀ b, mem b → b ∈ a :: ns)
    (hall : ∀ b ∈ ns, mem b) (hdistinct : l.hashTableSize ≠ 0 → e.1 ∉ es.map Prod.fst) :
    ∃ h' l', h.listDequeue l = .ok (e.2, h', l') ∧
      Becomes h l (a :: ns) h' l' ns es := by
  have hhead := hp.head_eq
  have ha : a ∉ ns := fun hm =>
    (List.nodup_cons.mp hp.chain.nodup).1 (List.mem_append_left _ hm)
  have hempty : ¬ listEmpty l = true := fun he => List.cons_ne_nil a ns (hp.listEmpty_iff.mp he)
  obtain ⟨n, m, hn, hid, hdata, hm, hne, hnext, -⟩ := hp.drop_first
  unfold Heap.listDequeue
  rw [if_neg hempty, hhead]
  by_cases hsize : l.hashTableSize = 0
  · have hn' := (adjust_node_of_ne (f := fun m => { m with prev := l.sentinel }) hne.symm).trans hn
    simp only [if_neg (not_not_intro hsize), pure_eq_ok, ok_bind, read_eq hn, modify_eq hm,
      free_eq hn', hdata]
    refine ⟨_, _, rfl, ?_, rfl, rfl, moves_drop_first hnext fun _ _ => rfl⟩
    exact hp.drop_first_holds hn (fun hs => absurd hsize hs) fun b => Iff.rfl
  -- Ids are distinct, so the node the hash table gives up is the first one.
  · have honly : ∀ b, mem b → ∀ v, h.node b = some v → v.id = n.id → b = a := by
      intro b hb v hv hvid
      rcases List.mem_cons.mp (hin b hb) with he | hmem
      · exact he
      · have hentry := mem_of_entries (List.forall₂_cons.mp hp.entries).2 hmem hv
        exact absurd (List.mem_map.mpr ⟨_, hentry, hvid.trans hid⟩) (hdistinct hsize)
    obtain ⟨x, h₁, table, hok, hhash₁, hsame, hframe⟩ := (hhash hsize).take hn honly
    have hp₁ := hp.same (some table) hsame
    obtain ⟨n₁, m₁, hn₁, -, -, hm₁, hne₁, hnext₁, -⟩ := hp₁.drop_first
    have hn₁' := (adjust_node_of_ne (f := fun m => { m with prev := l.sentinel })
      hne₁.symm).trans hn₁
    simp only [read_eq hn, ok_bind, if_pos hsize, hok, pure_eq_ok, read_eq hn₁, modify_eq hm₁,
      free_eq hn₁', hdata]
    refine ⟨_, _, rfl, ?_, rfl, rfl, moves_drop_first hnext₁ fun b hb => ?_⟩
    · refine hp₁.drop_first_holds hn₁ (fun _ => hhash₁) fun b => ?_
      constructor
      · rintro ⟨hb, hba⟩
        exact (List.mem_cons.mp (hin b hb)).resolve_left hba
      · intro hb
        exact ⟨hall b hb, fun he => ha (he ▸ hb)⟩
    · exact hframe b fun hm => hb (hin b hm)

/-! ## Finding and removing by id -/

/-- The data of the first entry with a property, `NULL` when there is none. -/
def firstData (q : Entry → Bool) (es : List Entry) : Addr :=
  match es.find? q with
  | some e => e.2
  | none => NULL

theorem firstData_absent {q : Entry → Bool} (hnot : ∀ e ∈ es, ¬ q e = true) :
    firstData q es = NULL := by
  unfold firstData
  rw [List.find?_eq_none.mpr hnot]

theorem firstData_first {q : Entry → Bool} {e : Entry} {gs : List Entry} (hq : q e = true)
    (hnot : ∀ f ∈ fs, ¬ q f = true) : firstData q (fs ++ e :: gs) = e.2 := by
  unfold firstData
  rw [List.find?_append, List.find?_eq_none.mpr hnot, Option.none_or, List.find?_cons_of_pos hq]

theorem eraseP_first {q : Entry → Bool} {e : Entry} {gs : List Entry} (hq : q e = true)
    (hnot : ∀ f ∈ fs, ¬ q f = true) : (fs ++ e :: gs).eraseP q = fs ++ gs := by
  rw [List.eraseP_append_right _ hnot, List.eraseP_cons_of_pos hq]

/-- Where ids are distinct, a node with the id is the first one with it. -/
theorem finds_of_mem (hes : List.Forall₂ (fun a e => h.entry a = some e) ns es)
    (hdistinct : (es.map Prod.fst).Nodup) (ha : a ∈ ns) (hn : h.node a = some n)
    (hid : n.id = i) : h.Finds (fun e => e.1 = i) ns es a := by
  induction hes with
  | nil => cases ha
  | @cons b e ns es hb hes ih =>
      obtain ⟨hnot, hdistinct'⟩ := List.nodup_cons.mp hdistinct
      obtain ⟨m, hm, hmid, hmdata⟩ := node_of_entry hb
      rcases List.mem_cons.mp ha with rfl | hmem
      · obtain rfl : n = m := node_unique hn hm
        exact .first (hmid.symm.trans hid) (fun f hf => by cases hf) .nil hb hes
      · refine (ih hdistinct' hmem).cons (fun he => hnot ?_) hb
        exact List.mem_map.mpr ⟨_, mem_of_entries hes hmem hn, hid.trans he.symm⟩

/-- Node `a` is found by its id in the hash table or in the chain. -/
theorem Holds.listFindNode (hl : h.Holds l ns es)
    (hdistinct : l.hashTableSize ≠ 0 → (es.map Prod.fst).Nodup) :
    ∃ a, (if l.hashTableSize ≠ 0 then h.listFindFromHashTable l i else h.listFindNodeById l i)
        = .ok a ∧ h.Finds (fun e => e.1 = i) ns es a := by
  by_cases hsize : l.hashTableSize = 0
  · rw [if_neg (not_not_intro hsize)]
    unfold listFindNodeById
    by_cases hempty : listEmpty l = true
    · obtain rfl := hl.listEmpty_iff_entries.mp hempty
      rw [if_pos hempty]
      exact ⟨NULL, rfl, .absent fun e he => by cases he⟩
    · rw [if_neg hempty]
      exact findNode_spec hl.chain.links hl.chain.notMem hl.entries hl.length_lt
  · rw [if_pos hsize]
    obtain ⟨a, hok, hcase⟩ := listFindFromHashTable_spec (i := i) (hl.hash hsize)
    refine ⟨a, hok, ?_⟩
    rcases hcase with ⟨rfl, hnot⟩ | ⟨ha, n, hn, hid⟩
    · refine .absent fun e he hei => ?_
      obtain ⟨b, hb, n, hn, hid, -⟩ := node_of_mem hl.entries he
      exact hnot b hb n hn (hid.trans hei)
    · exact finds_of_mem hl.entries (hdistinct hsize) ha hn hid

/-- `ListFindById` returns the data of the first entry with the id. -/
theorem Holds.listFindById (hl : h.Holds l ns es)
    (hdistinct : l.hashTableSize ≠ 0 → (es.map Prod.fst).Nodup) :
    h.listFindById l i = .ok (firstData (fun e => decide (e.1 = i)) es) := by
  obtain ⟨a, hok, hfinds⟩ := hl.listFindNode (i := i) hdistinct
  have hfound : (if a = NULL then (pure NULL : Except Stop Addr)
      else do
        let n ← h.read a
        return n.data) = .ok (firstData (fun e => decide (e.1 = i)) es) := by
    cases hfinds with
    | absent hnot =>
        rw [if_pos rfl, firstData_absent fun e he => by simpa using hnot e he]
        rfl
    | first hq hnot _ ha _ =>
        obtain ⟨n, hn, -, hdata⟩ := node_of_entry ha
        rw [if_neg (ne_null hn), read_eq hn, ok_bind, hdata,
          firstData_first (by simpa using hq) fun f hf => by simpa using hnot f hf]
        rfl
  unfold Heap.listFindById
  by_cases hsize : l.hashTableSize = 0
  · rw [if_neg (not_not_intro hsize)] at hok
    simp only [if_neg (not_not_intro hsize), hok, ok_bind]
    exact hfound
  · rw [if_pos hsize] at hok
    simp only [if_pos hsize, hok, ok_bind]
    exact hfound
/-- The first step of a removal by id: the node is found, and is no longer in the hash table. -/
theorem Holds.takeNode (hl : h.Holds l ns es)
    (hdistinct : l.hashTableSize ≠ 0 → (es.map Prod.fst).Nodup) :
    ∃ x h₁ table, (if l.hashTableSize ≠ 0 then h.listRemoveFromHashTable l i
        else do
          let node ← h.listFindNodeById l i
          pure (node, h, l)) = .ok (x, h₁, { l with hashTable := table }) ∧
      h.Finds (fun e => e.1 = i) ns es x ∧ SameNodes h h₁ ∧
      (∀ b, b ∉ ns → h₁.node b = h.node b) ∧
      (l.hashTableSize ≠ 0 →
        h₁.Hashed { l with hashTable := table } (fun b => b ∈ ns ∧ b ≠ x)) := by
  by_cases hsize : l.hashTableSize = 0
  · obtain ⟨x, hok, hfinds⟩ := hl.listFindNode (i := i) hdistinct
    rw [if_neg (not_not_intro hsize)] at hok
    rw [if_neg (not_not_intro hsize), hok, ok_bind]
    exact ⟨x, h, l.hashTable, rfl, hfinds, .refl h, fun _ _ => rfl, fun hs => absurd hsize hs⟩
  · obtain ⟨x, h₁, table, hok, hhash, hsame, hframe, hcase⟩ :=
      listRemoveFromHashTable_spec (i := i) (hl.hash hsize)
    rw [if_pos hsize]
    refine ⟨x, h₁, some table, hok, ?_, hsame, hframe, fun _ => hhash⟩
    rcases hcase with ⟨rfl, hnot⟩ | ⟨hx, n, hn, hid⟩
    · refine .absent fun e he hei => ?_
      obtain ⟨b, hb, n, hn, hid, -⟩ := node_of_mem hl.entries he
      exact hnot b hb n hn (hid.trans hei)
    · exact finds_of_mem hl.entries (hdistinct hsize) hx hn hid

/-- The chain after the node `x` behind `w` is freed. -/
theorem Plain.unlink {w x : Addr} {gs : List Entry} (hp : h.Plain l (xs ++ w :: x :: ys) es)
    (hxs : List.Forall₂ (fun a e => h.entry a = some e) (xs ++ [w]) fs)
    (hys : List.Forall₂ (fun a e => h.entry a = some e) ys gs) (hn : h.node x = some n) :
    n.prev = w ∧ (∃ v, h.node w = some v) ∧ (∃ m, h.node n.next = some m) ∧ w ≠ x ∧
      n.next ≠ x ∧ n.next ≠ w ∧ n.next ∈ ys ++ [l.sentinel] ∧
      (((h.adjust w fun v => { v with next := n.next }).adjust n.next
        fun v => { v with prev := w }).freed x).Plain l (xs ++ w :: ys) (fs ++ gs) := by
  obtain ⟨p, hseg, rfl, x', hwx, rfl, q, hxq, hrest⟩ := Segment.append_iff.mp hp.chain.links
  obtain ⟨n', hn', rfl⟩ := hxq.next
  obtain rfl : n = n' := node_unique hn hn'
  obtain ⟨n', hn'', hprev⟩ := hwx.prev
  obtain rfl : n = n' := node_unique hn hn''
  obtain ⟨v, hv, -⟩ := hwx.next
  obtain ⟨m, hm, -⟩ := hxq.prev
  have hnext : n.next ∈ ys ++ [l.sentinel] := hrest.head_mem
  have hnodup := hp.chain.nodup
  rw [List.append_assoc, List.cons_append, List.cons_append] at hnodup
  obtain ⟨hnodupxs, hnodup', hapart⟩ := List.nodup_append.mp hnodup
  obtain ⟨hp', hnodup''⟩ := List.nodup_cons.mp hnodup'
  obtain ⟨hx, hnodupys⟩ := List.nodup_cons.mp hnodup''
  have hpx : p ≠ x' := fun he => hp' (he ▸ List.mem_cons_self)
  have hqx : n.next ≠ x' := fun he => hx (he ▸ hnext)
  have hqp : n.next ≠ p := fun he => hp' (List.mem_cons_of_mem _ (he ▸ hnext))
  -- Nodes before `p` and behind `x'` are neither of the two, and only one is the next one.
  have hbefore : ∀ b ∈ xs ++ [p], b ≠ x' ∧ b ≠ n.next := by
    intro b hb
    rcases List.mem_append.mp hb with hb | hb
    · constructor
      · exact hapart b hb x' (List.mem_cons_of_mem _ List.mem_cons_self)
      · exact hapart b hb _ (List.mem_cons_of_mem _ (List.mem_cons_of_mem _ hnext))
    · obtain rfl := List.mem_singleton.mp hb
      exact ⟨hpx, hqp.symm⟩
  have hbehind : ∀ b ∈ ys ++ [l.sentinel], b ≠ x' ∧ b ≠ p := by
    intro b hb
    exact ⟨fun he => hx (he ▸ hb), fun he => hp' (List.mem_cons_of_mem _ (he ▸ hb))⟩
  have hmap : ∀ {β : Type} {g : ListNode → β} {b : Addr}, b ≠ x' →
      (b = p → ∀ v : ListNode, g { v with next := n.next } = g v) →
      (b = n.next → ∀ v : ListNode, g { v with prev := p } = g v) →
      ((((h.adjust p fun v => { v with next := n.next }).adjust n.next
        fun v => { v with prev := p }).freed x').node b).map g = (h.node b).map g := by
    intro β g b hb hg hg'
    rw [freed_node_of_ne hb, adjust_map hg', adjust_map hg]
  have hsent : l.sentinel ∈ ys ++ [l.sentinel] :=
    List.mem_append_right _ (List.mem_singleton_self _)
  refine ⟨hprev, ⟨v, hv⟩, ⟨m, hm⟩, hpx, hqx, hqp, hnext, ?_, ?_, ?_⟩
  · refine hp.chain.unlink hxq (fun b hb => ?_) (fun b hb => ?_) ⟨?_, ?_⟩
    · rcases List.mem_append.mp hb with hb | hb
      · refine hmap (hbefore b (List.mem_append_left _ hb)).1 (fun he => ?_) fun _ _ => rfl
        exact absurd he (hapart b hb p List.mem_cons_self)
      · have hne := hbehind b (List.mem_append_left _ hb)
        exact hmap hne.1 (fun he => absurd he hne.2) fun _ _ => rfl
    · rcases hb with hb | hb
      · have hne := hbefore b hb
        exact hmap hne.1 (fun _ _ => rfl) fun he => absurd he hne.2
      · refine hmap (hbehind b (List.mem_of_mem_tail hb)).1 (fun _ _ => rfl) fun he => ?_
        exact absurd (he ▸ hb) (hrest.notMem_tail hnodupys)
    · rw [freed_node_of_ne hpx, adjust_node_of_ne hqp.symm, adjust_node_self hv]
      rfl
    · rw [freed_node_of_ne hqx, adjust_node_self ((adjust_node_of_ne hqp).trans hm)]
      rfl
  · have hentries : ∀ b, b ≠ x' → (((h.adjust p fun v => { v with next := n.next }).adjust n.next
        fun v => { v with prev := p }).freed x').entry b = h.entry b := fun b hb =>
      hmap hb (fun _ _ => rfl) fun _ _ => rfl
    have happend := List.rel_append
      (entries_congr hxs fun b hb => hentries b (hbefore b hb).1)
      (entries_congr hys fun b hb => hentries b (hbehind b (List.mem_append_left _ hb)).1)
    have happ : xs ++ p :: ys = xs ++ [p] ++ ys := by rw [List.append_assoc, List.singleton_append]
    rw [happ]
    exact happend
  · exact (hmap (hbehind _ hsent).1 (fun _ _ => rfl) fun _ _ => rfl).trans hp.sentinel

/-- A change of bucket links before the call is part of what the call did. -/
theorem Becomes.of_same {table : Option (Nat → Addr)} {ns' : List Addr}
    (hbecomes : Becomes h₁ { l with hashTable := table } ns h' l' ns' es)
    (hframe : ∀ b, b ∉ ns → h₁.node b = h.node b) : Becomes h l ns h' l' ns' es where
  holds := hbecomes.holds
  sentinel := hbecomes.sentinel
  size := hbecomes.size
  moves := {
    frame := fun b hb hb' => (hbecomes.moves.frame b hb hb').trans
      (hframe b fun hm => hb (List.mem_append_left _ hm))
    freed := hbecomes.moves.freed
    fresh := fun b hb hb' => (hframe b fun hm => hb' (List.mem_append_left _ hm)).symm.trans
      (hbecomes.moves.fresh b hb hb') }

/-- The list without the node `x`, when the hash table holds its other nodes. -/
theorem Plain.unlink_becomes {w x : Addr} {gs : List Entry}
    (hp : h.Plain l (xs ++ w :: x :: ys) es)
    (hxs : List.Forall₂ (fun a e => h.entry a = some e) (xs ++ [w]) fs)
    (hys : List.Forall₂ (fun a e => h.entry a = some e) ys gs) (hn : h.node x = some n)
    (hhash : l.hashTableSize ≠ 0 →
      h.Hashed l (fun b => b ∈ xs ++ w :: x :: ys ∧ b ≠ x)) :
    Becomes h l (xs ++ w :: x :: ys) (((h.adjust w fun v => { v with next := n.next }).adjust
      n.next fun v => { v with prev := w }).freed x) l (xs ++ w :: ys) (fs ++ gs) := by
  obtain ⟨-, -, -, -, -, -, hnext, hplain⟩ := hp.unlink hxs hys hn
  have hw : w ∈ xs ++ w :: ys ++ [l.sentinel] :=
    List.mem_append_left _ (List.mem_append_right _ List.mem_cons_self)
  have hnext' : n.next ∈ xs ++ w :: ys ++ [l.sentinel] := by
    rw [List.append_assoc]
    exact List.mem_append_right _ (List.mem_cons_of_mem _ hnext)
  have hperm : (xs ++ w :: x :: ys).Perm (x :: (xs ++ w :: ys)) := by
    have hmiddle : (xs ++ [w] ++ x :: ys).Perm (x :: (xs ++ [w] ++ ys)) := List.perm_middle
    simpa only [List.append_assoc, List.singleton_append] using hmiddle
  have hmem : ∀ b, b ∈ xs ++ w :: x :: ys ↔ b = x ∨ b ∈ xs ++ w :: ys :=
    fun b => hperm.mem_iff.trans List.mem_cons
  have hx : x ∉ xs ++ w :: ys := by
    have hnodup := (List.nodup_append.mp hp.chain.nodup).1
    exact (List.nodup_cons.mp (hperm.nodup_iff.mp hnodup)).1
  refine ⟨{ toPlain := hplain, hash := fun hsize => ?_ }, rfl, rfl, fun b hb hb' => ?_,
    fun b hb hb' => ?_, fun b hb hb' => ?_⟩
  · have hothers : h.Hashed l (· ∈ xs ++ w :: ys) := by
      refine (hhash hsize).mem_congr fun b _ _ => ?_
      rw [hmem b]
      constructor
      · rintro ⟨he | hb, hne⟩
        · exact absurd he hne
        · exact hb
      · intro hb
        exact ⟨.inr hb, fun he => hx (he ▸ hb)⟩
    refine hothers.congr (fun b hb => ?_) rfl rfl
    have hne : b ≠ x := fun he => hx (he ▸ hb)
    rw [freed_node_of_ne hne]
    refine (adjust_map ?_).trans (adjust_map ?_)
    · exact fun _ _ => rfl
    · exact fun _ _ => rfl
  · have hbx : b ≠ x := by
      rintro rfl
      exact hb (List.mem_append_left _ ((hmem b).mpr (.inl rfl)))
    have hbw : b ≠ w := fun he => hb' (he ▸ hw)
    have hbn : b ≠ n.next := fun he => hb' (he ▸ hnext')
    rw [freed_node_of_ne hbx, adjust_node_of_ne hbn, adjust_node_of_ne hbw]
  · rcases List.mem_append.mp hb with hm | hm
    · rcases (hmem b).mp hm with rfl | hm
      · exact freed_node_self
      · exact absurd (List.mem_append_left _ hm) hb'
    · exact absurd (List.mem_append_right _ hm) hb'
  · rcases List.mem_append.mp hb with hm | hm
    · exact absurd (List.mem_append_left _ ((hmem b).mpr (.inr hm))) hb'
    · exact absurd (List.mem_append_right _ hm) hb'

/-- `ListRemoveById` removes the first entry with the id, and returns its data. -/
theorem Holds.listRemoveById (hl : h.Holds l ns es)
    (hdistinct : l.hashTableSize ≠ 0 → (es.map Prod.fst).Nodup) :
    ∃ h' l' ns', h.listRemoveById l i
        = .ok (firstData (fun e => decide (e.1 = i)) es, h', l') ∧
      Becomes h l ns h' l' ns' (es.eraseP fun e => decide (e.1 = i)) := by
  obtain ⟨x, h₁, table, hok, hfinds, hsame, hframe, hhash⟩ := hl.takeNode (i := i) hdistinct
  have hp₁ := hl.toPlain.same table hsame
  have hentry : ∀ b, h₁.entry b = h.entry b := fun _ => hsame.map fun _ => rfl
  have hrest : ∃ h' l' ns', (if x = NULL then .ok (NULL, h₁, { l with hashTable := table })
      else if x = l.head then h₁.listDequeue { l with hashTable := table }
      else do
        let n ← h₁.read x
        let h ← h₁.modify n.prev fun m => { m with next := n.next }
        let n ← h.read x
        let h ← h.modify n.next fun m => { m with prev := n.prev }
        let n ← h.read x
        let h ← h.free x
        return (n.data, h, { l with hashTable := table }))
        = .ok (firstData (fun e => decide (e.1 = i)) es, h', l') ∧
      Becomes h l ns h' l' ns' (es.eraseP fun e => decide (e.1 = i)) := by
    cases hfinds with
    | absent hnot =>
        have hnot' : ∀ e ∈ es, ¬ decide (e.1 = i) = true := fun e he => by simpa using hnot e he
        rw [if_pos rfl, firstData_absent hnot', List.eraseP_of_forall_not hnot']
        refine ⟨h₁, _, ns, rfl, { toPlain := hp₁, hash := fun hsize => ?_ }, rfl, rfl,
          fun b hb _ => hframe b fun hm => hb (List.mem_append_left _ hm),
          fun b hb hb' => absurd hb hb', fun b hb hb' => absurd hb hb'⟩
        refine (hhash hsize).mem_congr fun b n hn => ?_
        exact and_iff_left (ne_null hn)
    | @first xs ys fs gs _ e hq hnot hxs ha hys =>
        obtain ⟨n₀, hn₀, -, -⟩ := node_of_entry ha
        have hq' : decide (e.1 = i) = true := by simpa using hq
        have hnot' : ∀ f ∈ fs, ¬ decide (f.1 = i) = true := fun f hf => by simpa using hnot f hf
        obtain ⟨n, hn, -, hdata⟩ := node_of_entry ((hentry x).trans ha)
        rw [if_neg (ne_null hn₀), firstData_first hq' hnot', eraseP_first hq' hnot']
        rcases List.eq_nil_or_concat' xs with rfl | ⟨ws, w, rfl⟩
        · -- The head goes the way of `ListDequeue`, which asks the hash table once more.
          obtain rfl := List.forall₂_nil_left_iff.mp hxs
          have hhead : x = l.head := hp₁.head_eq.symm
          have hx : x ∉ ys := fun hm =>
            (List.nodup_cons.mp hp₁.chain.nodup).1 (List.mem_append_left _ hm)
          obtain ⟨h', l', hdequeue, hbecomes⟩ := hp₁.listDequeue hhash (fun b hb => hb.1)
            (fun b hb => ⟨List.mem_cons_of_mem x hb, fun he => hx (he ▸ hb)⟩)
            fun hsize => (List.nodup_cons.mp (hdistinct hsize)).1
          rw [if_pos hhead]
          exact ⟨h', l', ys, hdequeue, hbecomes.of_same hframe⟩
        -- The node stands behind `w`, and is not the head.
        · have hshape : ws ++ [w] ++ x :: ys = ws ++ w :: x :: ys := by
            rw [List.append_assoc, List.singleton_append]
          rw [hshape] at hp₁ hhash hframe
          have hhead : x ≠ l.head := by
            rintro rfl
            refine hp₁.chain.links.notMem_tail hp₁.chain.nodup ?_
            cases ws with
            | nil => exact List.mem_cons_self
            | cons c ws =>
                exact List.mem_append_left _ (List.mem_append_right _
                  (List.mem_cons_of_mem _ List.mem_cons_self))
          have hxs₁ := entries_congr hxs fun b _ => hentry b
          have hys₁ := entries_congr hys fun b _ => hentry b
          obtain ⟨rfl, ⟨v, hv⟩, ⟨m, hm⟩, hwx, hnx, hnw, -, -⟩ := hp₁.unlink hxs₁ hys₁ hn
          have hbecomes := hp₁.unlink_becomes hxs₁ hys₁ hn hhash
          have hn' := (adjust_node_of_ne (f := fun m => { m with next := n.next })
            hwx.symm).trans hn
          have hm' := (adjust_node_of_ne (f := fun m => { m with next := n.next })
            hnw).trans hm
          have hn'' := (adjust_node_of_ne (f := fun m => { m with prev := n.prev })
            hnx.symm).trans hn'
          rw [if_neg hhead, hshape]
          simp only [read_eq hn, ok_bind, modify_eq hv, read_eq hn', modify_eq hm', read_eq hn'',
            free_eq hn'', hdata]
          exact ⟨_, _, _, rfl, hbecomes.of_same hframe⟩
  unfold Heap.listRemoveById
  by_cases hsize : l.hashTableSize = 0
  · rw [if_neg (not_not_intro hsize)] at hok
    obtain ⟨node, hfind, hret⟩ := bind_eq_ok.mp hok
    simp only [pure_eq_ok, Except.ok.injEq, Prod.mk.injEq] at hret
    obtain ⟨rfl, rfl, hl'⟩ := hret
    rw [← hl'] at hrest
    simp only [if_neg (not_not_intro hsize), hfind, ok_bind]
    exact hrest
  · rw [if_pos hsize] at hok
    simp only [if_pos hsize, hok, ok_bind]
    exact hrest

theorem Becomes.refl (hl : h.Holds l ns es) : Becomes h l ns h l ns es where
  holds := hl
  sentinel := rfl
  size := rfl
  moves := ⟨fun _ _ _ => rfl, fun _ hb hb' => absurd hb hb', fun _ hb hb' => absurd hb hb'⟩

/-- `ListFindFirstLessThanIdAndRemove` removes the first entry whose id is at most the given
one, and returns its data. -/
theorem Holds.listFindFirstLessThanIdAndRemove (hl : h.Holds l ns es)
    (hdistinct : l.hashTableSize ≠ 0 → (es.map Prod.fst).Nodup) :
    ∃ h' l' ns', h.listFindFirstLessThanIdAndRemove l i
        = .ok (firstData (fun e => decide (e.1 ≤ i)) es, h', l') ∧
      Becomes h l ns h' l' ns' (es.eraseP fun e => decide (e.1 ≤ i)) := by
  unfold Heap.listFindFirstLessThanIdAndRemove
  by_cases hempty : listEmpty l = true
  · rw [if_pos hempty]
    obtain rfl := hl.listEmpty_iff_entries.mp hempty
    exact ⟨h, l, ns, rfl, .refl hl⟩
  rw [if_neg hempty]
  obtain ⟨a, hfinds, hnone, hsome⟩ := findLessThan_spec (i := i) hl.chain.links hl.chain.notMem
    hl.entries hl.length_lt rfl
  cases hfinds with
  | absent hnot =>
      have hnot' : ∀ e ∈ es, ¬ decide (e.1 ≤ i) = true := fun e he => by simpa using hnot e he
      rw [hnone rfl, firstData_absent hnot', List.eraseP_of_forall_not hnot']
      exact ⟨h, l, ns, rfl, .refl hl⟩
  | @first xs ys fs gs _ e hq hnot _ ha _ =>
      obtain ⟨n, hn, hid, hdata⟩ := node_of_entry ha
      have hq' : decide (e.1 ≤ i) = true := by simpa using hq
      have hnot' : ∀ f ∈ fs, ¬ decide (f.1 ≤ i) = true := fun f hf => by simpa using hnot f hf
      -- The first entry at most `i` is the first one with its id.
      have hsame : decide (e.1 = n.id) = true := by simpa using hid.symm
      have hother : ∀ f ∈ fs, ¬ decide (f.1 = n.id) = true := by
        intro f hf
        have hgt := hnot f hf
        have hle : n.id ≤ i := hid ▸ hq
        simp only [decide_eq_true_eq]
        omega
      obtain ⟨h', l', ns', hok, hbecomes⟩ := hl.listRemoveById (i := n.id) hdistinct
      rw [eraseP_first hsame hother] at hbecomes
      rw [hsome n hn, hok, firstData_first hq' hnot', eraseP_first hq' hnot', ← hdata]
      exact ⟨h', l', ns', rfl, hbecomes⟩

/-- The data of the first entry, `NULL` when there is none. -/
def headData : List Entry → Addr
  | [] => NULL
  | e :: _ => e.2

/-- `ListDequeue` takes the first entry and returns its data. -/
theorem Holds.listDequeue (hl : h.Holds l ns es)
    (hdistinct : l.hashTableSize ≠ 0 → (es.map Prod.fst).Nodup) :
    ∃ h' l' ns', h.listDequeue l = .ok (headData es, h', l') ∧
      Becomes h l ns h' l' ns' es.tail := by
  cases ns with
  | nil =>
      obtain rfl := List.forall₂_nil_left_iff.mp hl.entries
      refine ⟨h, l, [], ?_, .refl hl⟩
      unfold Heap.listDequeue
      rw [if_pos (hl.listEmpty_iff.mpr rfl)]
      rfl
  | cons a ns =>
      obtain ⟨e, es', -, -, rfl⟩ := List.forall₂_cons_left_iff.mp hl.entries
      obtain ⟨h', l', hok, hbecomes⟩ := hl.toPlain.listDequeue hl.hash (fun b hb => hb)
        (fun b hb => List.mem_cons_of_mem a hb)
        fun hsize => (List.nodup_cons.mp (hdistinct hsize)).1
      exact ⟨h', l', ns, hok, hbecomes⟩

/-- `ListPeak` returns the data of the first entry. -/
theorem Holds.listPeak (hl : h.Holds l ns es) : h.listPeak l = .ok (headData es) := by
  unfold Heap.listPeak
  cases ns with
  | nil =>
      obtain rfl := List.forall₂_nil_left_iff.mp hl.entries
      obtain ⟨n, hn, hdata⟩ := hl.node_sentinel
      have hhead : l.head = l.sentinel := hl.chain.links
      rw [hhead, read_eq hn, ok_bind, hdata]
      rfl
  | cons a ns =>
      obtain ⟨e, es', ha, -, rfl⟩ := List.forall₂_cons_left_iff.mp hl.entries
      obtain ⟨n, hn, -, hdata⟩ := node_of_entry ha
      rw [hl.head_eq, read_eq hn, ok_bind, hdata]
      rfl

/-- `ListMap` passes the data of each entry, in order, unless it is `NULL`. -/
theorem Holds.listMap (hl : h.Holds l ns es) :
    h.listMap l = .ok ((es.map Prod.snd).filter (· ≠ NULL)) := by
  unfold Heap.listMap
  by_cases hempty : listEmpty l = true
  · rw [if_pos hempty, hl.listEmpty_iff_entries.mp hempty]
    rfl
  · rw [if_neg hempty]
    exact mapData_spec hl.chain.links hl.chain.notMem hl.entries hl.length_lt

/-- `ListNewList` makes an empty list. -/
theorem listNewList_holds {k : Nat} (hs : h.node s = none) (h0 : s ≠ NULL) :
    (h.listNewList s k).1.Holds (h.listNewList s k).2 [] [] ∧
      Moves h (h.listNewList s k).1 [] [s] := by
  have hself : (h.calloc s).node s = some {} := calloc_node_self h0
  refine ⟨{ chain := ⟨rfl, List.nodup_singleton s⟩, entries := .nil, sentinel := ?_,
            hash := fun hsize => ?_ }, fun b _ hb => ?_, fun b hb _ => ?_, fun b hb _ => ?_⟩
  · show ((h.calloc s).node s).map ListNode.data = some NULL
    rw [hself]
    rfl
  · have hpos : k > 0 := Nat.pos_of_ne_zero hsize
    refine ⟨fun _ => NULL, if_pos hpos, fun b => ⟨[], rfl, List.nodup_nil, fun a => ?_⟩⟩
    exact iff_of_false List.not_mem_nil fun ha => List.not_mem_nil ha.1
  · exact calloc_node_of_ne fun he => hb (he ▸ List.mem_singleton_self s)
  · cases hb
  · obtain rfl := List.mem_singleton.mp hb
    exact hs

/-- `ListDestroy` frees the sentinel of an empty list. -/
theorem Holds.listDestroy (hl : h.Holds l ns []) :
    ∃ h', h.listDestroy l = .ok h' ∧ Moves h h' (ns ++ [l.sentinel]) [] := by
  obtain rfl := List.forall₂_nil_right_iff.mp hl.entries
  obtain ⟨n, hn, -⟩ := hl.node_sentinel
  refine ⟨h.freed l.sentinel, ?_, fun b hb _ => ?_, fun b hb _ => ?_, fun b hb _ => ?_⟩
  · unfold Heap.listDestroy cAssert
    rw [hl.listEmpty_iff.mpr rfl, if_pos rfl, ok_bind, free_eq hn]
  · exact freed_node_of_ne fun he => hb (he ▸ List.mem_singleton_self _)
  · obtain rfl := List.mem_singleton.mp hb
    exact freed_node_self
  · cases hb

/-- A call on another list leaves a list as it is. -/
theorem Holds.congr (hl : h.Holds l ns es)
    (hnode : ∀ a ∈ ns ++ [l.sentinel], h'.node a = h.node a) : h'.Holds l ns es where
  chain := {
    links := hl.chain.links.congr fun u hu v hv huv =>
      huv.congr (by rw [hnode u (List.mem_append_left _ hu)])
        (by rw [hnode v (List.mem_of_mem_tail hv)])
    nodup := hl.chain.nodup }
  entries := by
    refine entries_congr hl.entries fun a ha => ?_
    unfold entry
    rw [hnode a (List.mem_append_left _ ha)]
  sentinel := by
    rw [hnode _ (List.mem_append_right _ (List.mem_singleton_self _))]
    exact hl.sentinel
  hash hsize := by
    refine (hl.hash hsize).congr (fun b hb => ?_) rfl rfl
    rw [hnode b (List.mem_append_left _ hb)]

end Heap

end Theynix
