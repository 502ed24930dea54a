/-!
# `Theynix.Lib.Ledger`: tokens held by slots or waiting in a queue

A ledger says which token each slot holds and which tokens are free, in queue order. It is
`Exclusive` when no token is in two places: no two slots hold the same token, no held token
is free, and no token is free twice. The operations of an allocator are moves between the
slots and the queue. Each keeps `Exclusive`:

* `Exclusive.fresh`: an empty slot takes a token that was nowhere;
* `Exclusive.take`: an empty slot takes the first free token;
* `Exclusive.give`: a slot gives its token back to the end of the queue;
* `Exclusive.mono`: slots may be forgotten together with the tokens they hold.
-/

set_option autoImplicit false

namespace Theynix.Lib

universe u v
variable {ρ : Type u} {φ : Type v}

/-- No token is held twice, free twice, or both held and free. -/
structure Exclusive (held : ρ → Option φ) (free : List φ) : Prop where
  nodup : free.Nodup
  inj : ∀ {r r' : ρ} {f : φ}, held r = some f → held r' = some f → r = r'
  notFree : ∀ {r : ρ} {f : φ}, held r = some f → f ∉ free

namespace Exclusive

variable {held held' : ρ → Option φ} {free : List φ} {f : φ} {r : ρ}

/-- Slots may be emptied and their tokens lost. -/
theorem mono (h : Exclusive held free)
    (hsub : ∀ {r : ρ} {f : φ}, held' r = some f → held r = some f) : Exclusive held' free where
  nodup := h.nodup
  inj h₁ h₂ := h.inj (hsub h₁) (hsub h₂)
  notFree h₁ := h.notFree (hsub h₁)

/-- Slot `r` takes a token that is neither held nor free. Every other slot keeps its token or
is emptied. -/
theorem fresh (h : Exclusive held free) (hfree : f ∉ free) (hheld : ∀ r', held r' ≠ some f)
    (hr : ∀ {f' : φ}, held' r = some f' → f' = f)
    (hother : ∀ {r' : ρ} {f' : φ}, r' ≠ r → held' r' = some f' → held r' = some f') :
    Exclusive held' free := by
  have hkeep : ∀ {r' : ρ} {f' : φ}, r' ≠ r → held' r' = some f' → f' ≠ f := by
    intro r' f' hne hh heq
    exact hheld r' (heq ▸ hother hne hh)
  refine ⟨h.nodup, ?_, ?_⟩
  · intro r₁ r₂ f' h₁ h₂
    by_cases e₁ : r₁ = r <;> by_cases e₂ : r₂ = r
    · rw [e₁, e₂]
    · exact absurd (hr (e₁ ▸ h₁)) (hkeep e₂ h₂)
    · exact absurd (hr (e₂ ▸ h₂)) (hkeep e₁ h₁)
    · exact h.inj (hother e₁ h₁) (hother e₂ h₂)
  · intro r₁ f' h₁ hmem
    by_cases e₁ : r₁ = r
    · exact hfree (hr (e₁ ▸ h₁) ▸ hmem)
    · exact h.notFree (hother e₁ h₁) hmem

/-- Slot `r` takes the first free token. Every other slot keeps its token or is emptied. -/
theorem take (h : Exclusive held (f :: free)) (hr : ∀ {f' : φ}, held' r = some f' → f' = f)
    (hother : ∀ {r' : ρ} {f' : φ}, r' ≠ r → held' r' = some f' → held r' = some f') :
    Exclusive held' free := by
  have hnd := List.nodup_cons.mp h.nodup
  have htail : Exclusive held free :=
    ⟨hnd.2, h.inj, fun hh hmem => h.notFree hh (List.mem_cons_of_mem f hmem)⟩
  exact htail.fresh hnd.1 (fun _ hh => h.notFree hh List.mem_cons_self) hr hother

/-- Slot `r` gives its token `f` back to the end of the queue. -/
theorem give (h : Exclusive held free) (hr : held r = some f) (hr' : held' r = none)
    (hother : ∀ {r' : ρ} {f' : φ}, r' ≠ r → held' r' = some f' → held r' = some f') :
    Exclusive held' (free ++ [f]) := by
  have hne : ∀ {r' : ρ} {f' : φ}, held' r' = some f' → r' ≠ r := by
    intro r' f' hh e
    rw [e, hr'] at hh
    cases hh
  refine ⟨?_, ?_, ?_⟩
  · refine List.nodup_append.mpr ⟨h.nodup, by simp, ?_⟩
    intro x hx y hy hxy
    rw [List.mem_singleton.mp hy] at hxy
    exact h.notFree hr (hxy ▸ hx)
  · intro r₁ r₂ f' h₁ h₂
    exact h.inj (hother (hne h₁) h₁) (hother (hne h₂) h₂)
  · intro r₁ f' h₁ hmem
    rcases List.mem_append.mp hmem with hmem | hmem
    · exact h.notFree (hother (hne h₁) h₁) hmem
    · have hf : f' = f := List.mem_singleton.mp hmem
      exact hne h₁ (h.inj (hother (hne h₁) h₁) (hf ▸ hr))

end Exclusive

end Theynix.Lib
