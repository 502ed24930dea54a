/-!
# `Theynix.Lib.Placement`: elements that wait in exactly one of many queues

`occ q a` says how often the element `a` occurs in the queue `q`. `Placed occ inside` says
that every element of `inside` occurs in exactly one queue, and there once, and that the
other elements occur nowhere. Queue operations change the counts by one occurrence, which
is the relation `Adds`. The rules are

* `Placed.add`: an element from outside is put into a queue;
* `Placed.remove`: an element is taken out of its queue;
* `Placed.move`: an element goes from one queue to another.
-/

set_option autoImplicit false

namespace Theynix.Lib

universe u v
variable {ι : Type u} {α : Type v}

/-- Every element of `inside` is in exactly one queue, once; the others are in none. -/
structure Placed (occ : ι → α → Nat) (inside : α → Prop) : Prop where
  once : ∀ {a : α}, inside a → ∃ q, occ q a = 1 ∧ ∀ q', q' ≠ q → occ q' a = 0
  nowhere : ∀ {a : α}, ¬ inside a → ∀ q, occ q a = 0

/-- `occ'` has one more occurrence of `a` in the queue `q`, and is otherwise `occ`. -/
def Adds [DecidableEq ι] [DecidableEq α] (q : ι) (a : α) (occ occ' : ι → α → Nat) : Prop :=
  ∀ r b, occ' r b = occ r b + if r = q ∧ b = a then 1 else 0

/-- The counts change in one queue only, and there for one element. -/
theorem Adds.of_queue [DecidableEq ι] [DecidableEq α] {q : ι} {a : α} {occ occ' : ι → α → Nat}
    (hq : ∀ b, occ' q b = occ q b + if b = a then 1 else 0)
    (hother : ∀ r, r ≠ q → ∀ b, occ' r b = occ r b) : Adds q a occ occ' := by
  intro r b
  by_cases hr : r = q
  · subst hr
    simp [hq]
  · rw [hother r hr, if_neg fun e => hr e.1, Nat.add_zero]

theorem Adds.congr [DecidableEq ι] [DecidableEq α] {q : ι} {a : α}
    {occ₁ occ₁' occ occ' : ι → α → Nat} (h : Adds q a occ₁ occ₁')
    (h₁ : ∀ r b, occ r b = occ₁ r b) (h₂ : ∀ r b, occ' r b = occ₁' r b) : Adds q a occ occ' := by
  intro r b
  rw [h₁, h₂]
  exact h r b

/-! ## Counting in a list -/

section
variable [DecidableEq α]

theorem count_concat (l : List α) (a b : α) :
    (l ++ [a]).count b = l.count b + if b = a then 1 else 0 := by
  rw [List.count_append, List.count_singleton]
  by_cases h : b = a
  · simp [h]
  · have h' : (a == b) = false := by simpa using Ne.symm h
    simp [h, h']

theorem count_cons (l : List α) (a b : α) :
    (a :: l).count b = l.count b + if b = a then 1 else 0 := by
  rw [List.count_cons]
  by_cases h : b = a
  · simp [h]
  · have h' : (a == b) = false := by simpa using Ne.symm h
    simp [h, h']

theorem count_of_mem_erase {l : List α} {a : α} (h : a ∈ l) (b : α) :
    l.count b = (l.erase a).count b + if b = a then 1 else 0 := by
  rw [← count_cons]
  exact (List.perm_cons_erase h).count_eq b

end

/-! ## The rules -/

namespace Placed

variable {occ occ' : ι → α → Nat} {inside inside' : α → Prop} {a : α} {q q' : ι}

theorem congr (h : Placed occ inside) (hocc : ∀ r b, occ' r b = occ r b)
    (hinside : ∀ b, inside' b ↔ inside b) : Placed occ' inside' where
  once {b} hb := by
    obtain ⟨r, h₁, h₀⟩ := h.once ((hinside b).mp hb)
    refine ⟨r, ?_, fun r' hr' => ?_⟩
    · rw [hocc, h₁]
    · rw [hocc, h₀ r' hr']
  nowhere {b} hb r := by
    rw [hocc]
    exact h.nowhere (fun hb' => hb ((hinside b).mpr hb')) r

/-- An element that occurs somewhere is inside. -/
theorem inside_of_occ (h : Placed occ inside) (ha : occ q a ≠ 0) : inside a :=
  Classical.byContradiction fun hout => ha (h.nowhere hout q)

/-- An element that occurs in a queue occurs there once, and nowhere else. -/
theorem unique (h : Placed occ inside) (ha : occ q a ≠ 0) :
    occ q a = 1 ∧ ∀ q', q' ≠ q → occ q' a = 0 := by
  obtain ⟨r, h₁, h₀⟩ := h.once (h.inside_of_occ ha)
  have hqr : q = r := Classical.byContradiction fun hne => ha (h₀ q hne)
  exact hqr ▸ ⟨h₁, h₀⟩

theorem le_one (h : Placed occ inside) (q : ι) (a : α) : occ q a ≤ 1 := by
  by_cases ha : occ q a = 0
  · omega
  · exact Nat.le_of_eq (h.unique ha).1

variable [DecidableEq ι] [DecidableEq α]

/-- An element from outside is put into the queue `q`. -/
theorem add (h : Placed occ inside) (ha : ¬ inside a) (hadd : Adds q a occ occ') :
    Placed occ' (fun b => inside b ∨ b = a) where
  once {b} hb := by
    by_cases hba : b = a
    · subst hba
      refine ⟨q, ?_, fun r hr => ?_⟩
      · rw [hadd, h.nowhere ha, if_pos ⟨rfl, rfl⟩]
      · rw [hadd, h.nowhere ha, if_neg fun e => hr e.1]
    · obtain ⟨r, h₁, h₀⟩ := h.once (hb.resolve_right hba)
      refine ⟨r, ?_, fun r' hr' => ?_⟩
      · rw [hadd, h₁, if_neg fun e => hba e.2]
      · rw [hadd, h₀ r' hr', if_neg fun e => hba e.2]
  nowhere {b} hb r := by
    rw [hadd, h.nowhere (fun hi => hb (.inl hi)), if_neg fun e => hb (.inr e.2)]

/-- An element is taken out of the queue `q`. -/
theorem remove (h : Placed occ inside) (hadd : Adds q a occ' occ) :
    inside a ∧ Placed occ' (fun b => inside b ∧ b ≠ a) := by
  have hqa : occ q a ≠ 0 := by
    rw [hadd, if_pos ⟨rfl, rfl⟩]
    omega
  have hin := h.inside_of_occ hqa
  obtain ⟨hone, hzero⟩ := h.unique hqa
  have hgone : ∀ r, occ' r a = 0 := by
    intro r
    have hr := hadd r a
    by_cases hrq : r = q
    · subst hrq
      rw [if_pos ⟨rfl, rfl⟩] at hr
      omega
    · rw [hzero r hrq] at hr
      omega
  have hsame : ∀ r b, b ≠ a → occ' r b = occ r b := by
    intro r b hb
    rw [hadd r b, if_neg fun e => hb e.2, Nat.add_zero]
  refine ⟨hin, ?_, ?_⟩
  · rintro b ⟨hb, hne⟩
    obtain ⟨r, h₁, h₀⟩ := h.once hb
    refine ⟨r, ?_, fun r' hr' => ?_⟩
    · rw [hsame r b hne, h₁]
    · rw [hsame r' b hne, h₀ r' hr']
  · intro b hb r
    by_cases hba : b = a
    · rw [hba, hgone r]
    · rw [hsame r b hba, h.nowhere (fun hi => hb ⟨hi, hba⟩)]

/-- An element goes from the queue `q` to the queue `q'`. -/
theorem move {mid : ι → α → Nat} (h : Placed occ inside) (hout : Adds q a mid occ)
    (hin : Adds q' a mid occ') : Placed occ' inside := by
  obtain ⟨ha, hmid⟩ := h.remove hout
  refine (hmid.add (fun hi => hi.2 rfl) hin).congr (fun _ _ => rfl) fun b => ?_
  constructor
  · intro hb
    by_cases hba : b = a
    · exact .inr hba
    · exact .inl ⟨hb, hba⟩
  · rintro (hb | rfl)
    · exact hb.1
    · exact ha

end Placed

end Theynix.Lib
