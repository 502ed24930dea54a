import Mathlib.Data.List.Basic

/-!
# `Theynix.Lib.Segment`: chains of links between two ends

`Segment R z p l` says that the chain that starts at `p` passes through the nodes `l`, in
order, and then arrives at `z`, where `R a b` says that node `a` is linked to `b`. It is the
meaning of a linked list whose nodes end in a sentinel or in a null pointer. With a relation
that reads links both ways it is the meaning of a doubly linked list.

A segment is cut at any node and put together again with `append_iff`, and `congr` carries it
over to other links. Its side condition names the nodes whose outgoing link is read and those
whose incoming link is read, so that a node may be taken out or put in between two segments.
-/

set_option autoImplicit false

namespace Theynix.Lib

universe u
variable {α : Type u}

/-- The chain from the third argument passes through the nodes of the list to `z`. -/
def Segment (R : α → α → Prop) (z : α) : α → List α → Prop
  | p, [] => p = z
  | p, a :: l => p = a ∧ ∃ q, R a q ∧ Segment R z q l

namespace Segment

variable {R R' : α → α → Prop} {z p q a : α} {l xs ys : List α}

theorem nil : Segment R z z [] := rfl

theorem cons (h : R a q) (ht : Segment R z q l) : Segment R z a (a :: l) := ⟨rfl, q, h, ht⟩

/-- A segment starts with its first node, or at its end. -/
theorem head_mem (h : Segment R z p l) : p ∈ l ++ [z] := by
  cases l with
  | nil =>
      have he : p = z := h
      simp [he]
  | cons a l =>
      obtain ⟨rfl, -⟩ := h
      exact List.mem_cons_self

/-- A segment is cut between two of its nodes. -/
theorem append_iff :
    Segment R z p (xs ++ ys) ↔ ∃ q, Segment R q p xs ∧ Segment R z q ys := by
  induction xs generalizing p with
  | nil =>
      constructor
      · intro h
        exact ⟨p, nil, h⟩
      · rintro ⟨q, hq, h⟩
        have he : p = q := hq
        rw [he]
        exact h
  | cons a xs ih =>
      constructor
      · rintro ⟨rfl, q, hlink, h⟩
        obtain ⟨r, hxs, hys⟩ := ih.mp h
        exact ⟨r, cons hlink hxs, hys⟩
      · rintro ⟨r, ⟨rfl, q, hlink, hxs⟩, hys⟩
        exact cons hlink (ih.mpr ⟨r, hxs, hys⟩)

/-- A segment depends only on the links out of its nodes and into the nodes behind the first
one. -/
theorem congr (h : Segment R z p l)
    (hlinks : ∀ u ∈ l, ∀ v ∈ (l ++ [z]).tail, R u v → R' u v) : Segment R' z p l := by
  induction l generalizing p with
  | nil => exact h
  | cons a l ih =>
      obtain ⟨rfl, q, hlink, ht⟩ := h
      have hq : q ∈ l ++ [z] := ht.head_mem
      refine cons (hlinks p List.mem_cons_self q hq hlink) (ih ht ?_)
      intro u hu v hv
      exact hlinks u (List.mem_cons_of_mem p hu) v (List.mem_of_mem_tail hv)

/-- A last node, linked to the end. -/
theorem snoc (h : Segment R a p xs) (hlink : R a z) : Segment R z p (xs ++ [a]) :=
  append_iff.mpr ⟨a, h, cons hlink nil⟩

/-- No node but the first, and not the end, is the one that the segment starts with. -/
theorem notMem_tail (h : Segment R z p l) (hnodup : (l ++ [z]).Nodup) : p ∉ (l ++ [z]).tail := by
  cases l with
  | nil => exact List.not_mem_nil
  | cons a l =>
      obtain ⟨rfl, -⟩ := h
      exact (List.nodup_cons.mp hnodup).1

/-- Every node of a segment has a link. -/
theorem linked_of_mem (h : Segment R z p l) (ha : a ∈ l) : ∃ q ∈ l ++ [z], R a q := by
  obtain ⟨xs, ys, rfl⟩ := List.append_of_mem ha
  obtain ⟨q, -, hys⟩ := append_iff.mp h
  obtain ⟨rfl, r, hlink, hr⟩ := hys
  refine ⟨r, ?_, hlink⟩
  have hmem := hr.head_mem
  simp only [List.append_assoc, List.cons_append, List.mem_append, List.mem_cons] at hmem ⊢
  exact .inr (.inr hmem)

end Segment

end Theynix.Lib
