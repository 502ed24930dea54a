/-!
# `Theynix.Lib.Stream`: a stream that loses and repeats nothing

The abstract stream holds what has been put into it and not been taken out. `Stream.step` is
partial: only what is at the front can be taken. That a list of events has a run therefore
says that nothing was lost, repeated or reordered, and `run_puts` says it as an equation:
what was put in is what was taken out, followed by what is still there.
-/

set_option autoImplicit false

namespace Theynix.Lib

universe u
variable {α : Type u}

/-- What can happen to a stream. -/
inductive StreamEvent (α : Type u)
  /-- Elements enter at the end. -/
  | put (xs : List α)
  /-- Elements leave at the front. -/
  | take (xs : List α)

namespace Stream

/-- Everything that was put in, in order. -/
def puts (es : List (StreamEvent α)) : List α :=
  es.flatMap fun e => match e with | .put xs => xs | .take _ => []

/-- Everything that was taken out, in order. -/
def takes (es : List (StreamEvent α)) : List α :=
  es.flatMap fun e => match e with | .put _ => [] | .take xs => xs

@[simp] theorem puts_append (es es' : List (StreamEvent α)) :
    puts (es ++ es') = puts es ++ puts es' :=
  List.flatMap_append

@[simp] theorem takes_append (es es' : List (StreamEvent α)) :
    takes (es ++ es') = takes es ++ takes es' :=
  List.flatMap_append

@[simp] theorem puts_put_cons (xs : List α) (es : List (StreamEvent α)) :
    puts (.put xs :: es) = xs ++ puts es :=
  rfl

@[simp] theorem takes_put_cons (xs : List α) (es : List (StreamEvent α)) :
    takes (.put xs :: es) = takes es :=
  rfl

/-- Taking puts nothing in. -/
@[simp] theorem puts_map_take {β : Type} (l : List β) (f : β → List α) :
    puts (l.map fun x => .take (f x)) = [] := by
  simp [puts, List.flatMap_map]

@[simp] theorem takes_map_take {β : Type} (l : List β) (f : β → List α) :
    takes (l.map fun x => .take (f x)) = l.flatMap f := by
  simp [takes, List.flatMap_map]

variable [DecidableEq α]

/-- The effect of an event on what is in the stream: `none` when the stream does not allow
it. -/
def step (inside : List α) : StreamEvent α → Option (List α)
  | .put xs => some (inside ++ xs)
  | .take xs => if xs <+: inside then some (inside.drop xs.length) else none

/-- The effect of a list of events. -/
def run (inside : List α) (es : List (StreamEvent α)) : Option (List α) := es.foldlM step inside

@[simp] theorem run_nil (inside : List α) : run inside [] = some inside := rfl

/-- One more event. -/
theorem run_concat {inside inside' : List α} {es : List (StreamEvent α)} {e : StreamEvent α}
    (h : run inside es = some inside') : run inside (es ++ [e]) = step inside' e := by
  unfold run at h ⊢
  rw [List.foldlM_append, h]
  simp

/-- What is at the front can be taken. -/
theorem step_take (xs inside : List α) : step (xs ++ inside) (.take xs) = some inside := by
  simp [step]

/-- What was put in is what was taken out and what is still there. -/
theorem run_puts {inside inside' : List α} {es : List (StreamEvent α)}
    (h : run inside es = some inside') : inside ++ puts es = takes es ++ inside' := by
  induction es generalizing inside with
  | nil =>
      cases h
      simp [puts, takes]
  | cons e es ih =>
      unfold run at h
      rw [List.foldlM_cons] at h
      obtain ⟨inside₁, hstep, hrun⟩ := Option.bind_eq_some_iff.mp h
      have hih := ih hrun
      cases e with
      | put xs =>
          cases hstep
          simpa [puts, takes] using hih
      | take xs =>
          simp only [step] at hstep
          split at hstep
          · rename_i hprefix
            obtain ⟨rest, rfl⟩ := hprefix
            cases hstep
            simpa [puts, takes] using hih
          · cases hstep

end Stream

end Theynix.Lib
