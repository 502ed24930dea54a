/-!
# `Theynix.Lib.Except`: taking a successful computation apart

`bind_eq_ok` splits a bind that succeeded into its two halves. The others evaluate a bind
whose first half is known.
-/

set_option autoImplicit false

namespace Theynix.Lib

universe u
variable {ε α β : Type u}

theorem bind_eq_ok {x : Except ε α} {f : α → Except ε β} {b : β} :
    (x >>= f) = .ok b ↔ ∃ a, x = .ok a ∧ f a = .ok b := by
  cases x with
  | ok a =>
      constructor
      · intro h
        exact ⟨a, rfl, h⟩
      · rintro ⟨_, ha, h⟩
        cases ha
        exact h
  | error e =>
      constructor
      · intro h
        cases h
      · rintro ⟨_, ha, _⟩
        cases ha

@[simp] theorem ok_bind (a : α) (f : α → Except ε β) : (Except.ok a >>= f) = f a := rfl

@[simp] theorem error_bind (e : ε) (f : α → Except ε β) :
    (Except.error e >>= f) = .error e := rfl

@[simp] theorem pure_eq_ok (a : α) : (pure a : Except ε α) = .ok a := rfl

/-- A conditional that succeeded took one of its branches, which succeeded. -/
theorem ite_eq_ok {c : Prop} [Decidable c] {x y : Except ε α} {a : α}
    (h : (if c then x else y) = .ok a) : c ∧ x = .ok a ∨ ¬ c ∧ y = .ok a := by
  by_cases hc : c
  · rw [if_pos hc] at h
    exact .inl ⟨hc, h⟩
  · rw [if_neg hc] at h
    exact .inr ⟨hc, h⟩

/-- A computation that did not fail has a result. -/
theorem exists_of_isOk {x : Except ε α} (h : x.isOk = true) : ∃ a, x = .ok a := by
  cases x with
  | ok a => exact ⟨a, rfl⟩
  | error e => cases h

end Theynix.Lib
