import Mathlib.Data.List.Nodup

/-!
# `Theynix.Lib.Pool`: a pool that hands out what has been free longest

A pool has items that are free, in the order in which they will be handed out, and items
that are held. `take` hands out the first free item, and `give` puts a held item behind the
free ones. No item is in two places: that is part of the structure.
-/

set_option autoImplicit false

namespace Theynix.Lib

universe u
variable {α : Type u}

/-- A pool of items. -/
structure Pool (α : Type u) where
  free : List α
  held : List α
  apart : (free ++ held).Nodup

namespace Pool

variable {p : Pool α} {a : α}

/-- A pool in which nothing is held. -/
def ofFree (free : List α) (h : free.Nodup) : Pool α :=
  ⟨free, [], by rwa [List.append_nil]⟩

theorem not_held_of_free (h : a ∈ p.free) : a ∉ p.held :=
  fun hheld => (List.nodup_append.mp p.apart).2.2 a h a hheld rfl

theorem not_free_of_held (h : a ∈ p.held) : a ∉ p.free := fun hfree => not_held_of_free hfree h

/-- The first free item is handed out. -/
def take (p : Pool α) : Option (α × Pool α) :=
  match p with
  | ⟨[], _, _⟩ => none
  | ⟨a :: free, held, apart⟩ => some (a, ⟨free, a :: held, List.nodup_middle.mpr apart⟩)

theorem take_eq_none : p.take = none ↔ p.free = [] := by
  obtain ⟨free, held, apart⟩ := p
  cases free with
  | nil => exact iff_of_true rfl rfl
  | cons a free => exact iff_of_false (fun h => by cases h) (fun h => by cases h)

theorem take_eq_some {p' : Pool α} (h : p.take = some (a, p')) :
    p.free = a :: p'.free ∧ p'.held = a :: p.held := by
  obtain ⟨free, held, apart⟩ := p
  cases free with
  | nil => cases h
  | cons b free =>
      cases h
      exact ⟨rfl, rfl⟩

variable [DecidableEq α]

/-- A held item becomes free, behind the others. -/
def give (p : Pool α) (a : α) (h : a ∈ p.held) : Pool α where
  free := p.free ++ [a]
  held := p.held.erase a
  apart := by
    rw [List.append_assoc]
    exact (List.Perm.append_left p.free (List.perm_cons_erase h)).nodup_iff.mp p.apart

theorem mem_give_held {b : α} (h : a ∈ p.held) : b ∈ (p.give a h).held ↔ b ∈ p.held ∧ b ≠ a := by
  have hnodup : p.held.Nodup := (List.nodup_append.mp p.apart).2.1
  show b ∈ p.held.erase a ↔ _
  rw [hnodup.mem_erase_iff, and_comm]

end Pool

end Theynix.Lib
