/-!
# `Theynix.Lib.Walk`: following links to a last node

`Walk next z a l` says that following `next` from `a` up to the first visit of `z` passes
through exactly the nodes `l`, in order. It is the meaning of a linked list that is kept as
a first node, a last node and one link per node. A walk is determined by its ends
(`Walk.unique`), so it passes through no node twice (`Walk.nodup`).

The two ends of a queue are `Walk.step`, which takes the first node off, and `Walk.snoc`,
which links a new last node in.
-/

set_option autoImplicit false

namespace Theynix.Lib

universe u
variable {α : Type u}

/-- Following `next` from the third argument to the first visit of `z` passes through the
nodes of the list. -/
inductive Walk (next : α → α) (z : α) : α → List α → Prop
  | last : Walk next z z [z]
  | step {a : α} {l : List α} : a ≠ z → Walk next z (next a) l → Walk next z a (a :: l)

namespace Walk

variable {next next' : α → α} {z a b w : α} {l l' : List α}

/-- A walk starts with its first node. -/
theorem eq_cons (h : Walk next z a l) : ∃ t, l = a :: t := by
  cases h with
  | last => exact ⟨[], rfl⟩
  | step _ _ => exact ⟨_, rfl⟩

theorem ne_nil (h : Walk next z a l) : l ≠ [] := by
  obtain ⟨t, rfl⟩ := h.eq_cons
  exact List.cons_ne_nil a t

theorem last_mem (h : Walk next z a l) : z ∈ l := by
  induction h with
  | last => exact List.mem_singleton_self z
  | step _ _ ih => exact List.mem_cons_of_mem _ ih

/-- A walk whose first node is the last one has length one. -/
theorem eq_singleton (h : Walk next z z l) : l = [z] := by
  cases h with
  | last => rfl
  | step hne _ => exact absurd rfl hne

/-- A walk whose first node is not the last one goes on from the next node. -/
theorem tail (h : Walk next z a l) (hne : a ≠ z) :
    ∃ t, l = a :: t ∧ Walk next z (next a) t := by
  cases h with
  | last => exact absurd rfl hne
  | step _ ht => exact ⟨_, rfl, ht⟩

/-- A walk is determined by its ends. -/
theorem unique (h : Walk next z a l) (h' : Walk next z a l') : l = l' := by
  induction h generalizing l' with
  | last => exact h'.eq_singleton.symm
  | step hne _ ih =>
      obtain ⟨t, rfl, ht⟩ := h'.tail hne
      rw [ih ht]

/-- A walk reads only the links of its nodes, and not the last node's. -/
theorem congr (h : Walk next z a l) (heq : ∀ x ∈ l, x ≠ z → next' x = next x) :
    Walk next' z a l := by
  induction h with
  | last => exact .last
  | @step a t hne _ ih =>
      refine .step hne ?_
      rw [heq a List.mem_cons_self hne]
      exact ih fun x hx => heq x (List.mem_cons_of_mem a hx)

/-- A new last node, linked behind the old one. -/
theorem snoc (h : Walk next z a l) (hw : w ∉ l) (hlink : next z = w) :
    Walk next w a (l ++ [w]) := by
  induction h with
  | last =>
      have hzw : z ≠ w := fun e => hw (by simp [e])
      exact .step hzw (hlink ▸ .last)
  | @step a t hne _ ih =>
      have haw : a ≠ w := fun e => hw (by simp [e])
      exact .step haw (ih fun hm => hw (List.mem_cons_of_mem a hm))

/-- From every node of a walk the rest of the walk is a walk, and it is shorter unless the
node is the first one. -/
theorem of_mem (h : Walk next z a l) (hb : b ∈ l) :
    ∃ t, Walk next z b t ∧ t.length ≤ l.length := by
  induction h with
  | last =>
      obtain rfl := List.mem_singleton.mp hb
      exact ⟨[b], .last, Nat.le_refl _⟩
  | @step a t hne ht ih =>
      rcases List.mem_cons.mp hb with rfl | hb
      · exact ⟨b :: t, .step hne ht, Nat.le_refl _⟩
      · obtain ⟨t', hw, hlen⟩ := ih hb
        exact ⟨t', hw, Nat.le_trans hlen (Nat.le_succ _)⟩

/-- A walk passes through no node twice: a second visit would start the same walk again,
and a walk is no longer than itself. -/
theorem nodup (h : Walk next z a l) : l.Nodup := by
  induction h with
  | last => simp
  | @step a t hne ht ih =>
      refine List.nodup_cons.mpr ⟨fun hmem => ?_, ih⟩
      obtain ⟨t', hw, hlen⟩ := ht.of_mem hmem
      have heq : t' = a :: t := hw.unique (.step hne ht)
      rw [heq, List.length_cons] at hlen
      omega

end Walk

end Theynix.Lib
