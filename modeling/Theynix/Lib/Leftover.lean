/-!
# `Theynix.Lib.Leftover`: how much a queue of requests can leave behind

Requests for an amount are served one after the other from a supply. A request that asks for
more than there is takes nothing. Between two of them others may take as much as they like.
`worst requests supply` is the most that can be left when all requests have had their turn.
It is reached when nobody else takes anything, or when somebody takes just enough that the
next request is not served.
-/

set_option autoImplicit false

namespace Theynix.Lib

/-- The most that can be left of a supply after the requests have had their turns. -/
def worst : List Nat → Nat → Nat
  | [], supply => supply
  | request :: requests, supply =>
    if request ≤ supply then
      max (worst requests (supply - request)) (worst requests (request - 1))
    else worst requests supply

/-- There is never more left than there was. -/
theorem worst_le (requests : List Nat) (supply : Nat) : worst requests supply ≤ supply := by
  induction requests generalizing supply with
  | nil => exact Nat.le_refl _
  | cons request requests ih =>
      unfold worst
      split
      · have h₁ := ih (supply - request)
        have h₂ := ih (request - 1)
        omega
      · exact ih supply

/-- When somebody else takes from the supply, no more is left. -/
theorem worst_mono (requests : List Nat) {supply supply' : Nat} (h : supply ≤ supply') :
    worst requests supply ≤ worst requests supply' := by
  induction requests generalizing supply supply' with
  | nil => exact h
  | cons request requests ih =>
      unfold worst
      by_cases hserved : request ≤ supply
      · rw [if_pos hserved, if_pos (Nat.le_trans hserved h)]
        have hrest := ih (Nat.sub_le_sub_right h request)
        omega
      · rw [if_neg hserved]
        split
        · -- The larger supply serves a request that the smaller one does not.
          have hrest := ih (show supply ≤ request - 1 by omega)
          omega
        · exact ih h

/-- The first request is served. -/
theorem worst_served {request supply : Nat} (requests : List Nat) (h : request ≤ supply) :
    worst requests (supply - request) ≤ worst (request :: requests) supply := by
  rw [worst, if_pos h]
  exact Nat.le_max_left _ _

/-- The first request asks for more than there is. -/
theorem worst_blocked {request supply : Nat} (requests : List Nat) (h : supply < request) :
    worst (request :: requests) supply = worst requests supply := by
  rw [worst, if_neg (Nat.not_le.mpr h)]

end Theynix.Lib
