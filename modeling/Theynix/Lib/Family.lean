import Mathlib.Data.List.Nodup
import Mathlib.Data.Set.Insert

/-!
# `Theynix.Lib.Family`: parents, children and the results of the dead

A family is who is alive, who is whose parent, and for each parent the results that its dead
children have left and that it has not collected yet. `Runs` says which events are possible:
a live parent gets a child that is new, somebody who is alive dies and leaves a result, a
live parent collects the oldest result that is left to it. Who dies leaves its children
without a parent, and what they have left to it is lost.

* `Runs.delivered`: what the children of a live parent have left is what it has collected,
  followed by what it can still collect.
* `Runs.collected_prefix`: what a parent, live or dead, has collected is what its children
  left first.
* `Runs.left_once`: every child leaves one result.
-/

set_option autoImplicit false

namespace Theynix.Lib

universe u v
variable {π : Type u} {ρ : Type v}

/-- What can happen in a family. -/
inductive FamilyEvent (π : Type u) (ρ : Type v)
  | fork (parent child : π)
  /-- Somebody dies and leaves a result. -/
  | exit (proc : π) (result : ρ)
  /-- A parent collects the result of a child. -/
  | wait (parent child : π) (result : ρ)
deriving DecidableEq

/-- Who is alive, who is whose parent, and the results that are left to each parent. -/
structure Family (π : Type u) (ρ : Type v) where
  alive : Set π
  parent : π → Option π
  zombies : π → List (π × ρ)

namespace Family

variable [DecidableEq π]

/-- A new child. -/
def fork (F : Family π ρ) (p c : π) : Family π ρ :=
  { F with
    alive := insert c F.alive
    parent := fun d => if d = c then some p else F.parent d }

/-- A death. -/
def exit (F : Family π ρ) (c : π) (r : ρ) : Family π ρ where
  alive := F.alive \ {c}
  parent d := if F.parent d = some c then none else F.parent d
  zombies p :=
    if p = c then [] else if F.parent c = some p then F.zombies p ++ [(c, r)] else F.zombies p

/-- The parent has collected the result of a child, and `rest` is left. -/
def wait (F : Family π ρ) (p c : π) (rest : List (π × ρ)) : Family π ρ :=
  { F with
    parent := fun d => if d = c then none else F.parent d
    zombies := fun q => if q = p then rest else F.zombies q }

/-- The families that a list of events leads to. At first nobody has a parent. -/
inductive Runs (first : Set π) : List (FamilyEvent π ρ) → Family π ρ → Prop
  | start : Runs first [] { alive := first, parent := fun _ => none, zombies := fun _ => [] }
  | fork {es : List (FamilyEvent π ρ)} {F : Family π ρ} {p c : π} (run : Runs first es F)
      (alive : p ∈ F.alive) (new : c ∉ first) (once : ∀ q, .fork q c ∉ es) :
      Runs first (es ++ [.fork p c]) (F.fork p c)
  | exit {es : List (FamilyEvent π ρ)} {F : Family π ρ} {c : π} (r : ρ) (run : Runs first es F)
      (alive : c ∈ F.alive) : Runs first (es ++ [.exit c r]) (F.exit c r)
  | wait {es : List (FamilyEvent π ρ)} {F : Family π ρ} {p c : π} {r : ρ} {rest : List (π × ρ)}
      (run : Runs first es F) (alive : p ∈ F.alive) (zombies : F.zombies p = (c, r) :: rest) :
      Runs first (es ++ [.wait p c r]) (F.wait p c rest)

/-- The result that a child of a parent leaves in an event, when `es` says who is a child. -/
def leaves [DecidableEq ρ] (es : List (FamilyEvent π ρ)) (p : π) :
    FamilyEvent π ρ → Option (π × ρ)
  | .exit c r => if .fork p c ∈ es then some (c, r) else none
  | _ => none

/-- The result that a parent collects in an event. -/
def collects (p : π) : FamilyEvent π ρ → Option (π × ρ)
  | .wait q c r => if q = p then some (c, r) else none
  | _ => none

/-- The results that the children of a parent have left, oldest first. -/
def left [DecidableEq ρ] (es : List (FamilyEvent π ρ)) (p : π) : List (π × ρ) :=
  es.filterMap (leaves es p)

/-- The results that a parent has collected, oldest first. -/
def collected (es : List (FamilyEvent π ρ)) (p : π) : List (π × ρ) := es.filterMap (collects p)

namespace Runs

variable {first : Set π} {es : List (FamilyEvent π ρ)} {F : Family π ρ} {p c : π}

/-- Who has been alive was alive at first or was forked. -/
theorem alive_known (h : Runs first es F) (hc : c ∈ F.alive) :
    c ∈ first ∨ ∃ p, .fork p c ∈ es := by
  induction h with
  | start => exact .inl hc
  | fork _ _ _ _ ih =>
      rcases hc with rfl | hc
      · exact .inr ⟨_, List.mem_append_right _ (List.mem_singleton.mpr rfl)⟩
      · exact (ih hc).imp_right fun ⟨p, hp⟩ => ⟨p, List.mem_append_left _ hp⟩
  | exit _ _ _ ih =>
      exact (ih hc.1).imp_right fun ⟨p, hp⟩ => ⟨p, List.mem_append_left _ hp⟩
  | wait _ _ _ ih =>
      exact (ih hc).imp_right fun ⟨p, hp⟩ => ⟨p, List.mem_append_left _ hp⟩

/-- Who has died was alive at first or was forked, and is not alive again. -/
theorem exit_known (h : Runs first es F) {r : ρ} (hc : .exit c r ∈ es) :
    (c ∈ first ∨ ∃ p, .fork p c ∈ es) ∧ c ∉ F.alive := by
  induction h with
  | start => cases hc
  | fork run _ new once ih =>
      rcases List.mem_append.mp hc with hc | hc
      · obtain ⟨hknown, hdead⟩ := ih hc
        refine ⟨hknown.imp_right fun ⟨p, hp⟩ => ⟨p, List.mem_append_left _ hp⟩, ?_⟩
        rintro (rfl | halive)
        · rcases hknown with hfirst | ⟨q, hq⟩
          · exact new hfirst
          · exact once q hq
        · exact hdead halive
      · cases (List.mem_singleton.mp hc)
  | exit r run alive ih =>
      rcases List.mem_append.mp hc with hc | hc
      · obtain ⟨hknown, hdead⟩ := ih hc
        exact ⟨hknown.imp_right fun ⟨p, hp⟩ => ⟨p, List.mem_append_left _ hp⟩, fun h => hdead h.1⟩
      · cases List.mem_singleton.mp hc
        exact ⟨(alive_known run alive).imp_right fun ⟨p, hp⟩ => ⟨p, List.mem_append_left _ hp⟩,
          fun h => h.2 rfl⟩
  | wait run _ _ ih =>
      rcases List.mem_append.mp hc with hc | hc
      · obtain ⟨hknown, hdead⟩ := ih hc
        exact ⟨hknown.imp_right fun ⟨p, hp⟩ => ⟨p, List.mem_append_left _ hp⟩, hdead⟩
      · cases (List.mem_singleton.mp hc)

/-- A parent is alive, and has forked its child. -/
theorem parent_alive (h : Runs first es F) (hp : F.parent c = some p) :
    p ∈ F.alive ∧ .fork p c ∈ es := by
  induction h with
  | start => cases hp
  | fork run alive _ _ ih =>
      simp only [Family.fork] at hp ⊢
      split at hp
      · rename_i hc
        cases hp
        subst hc
        exact ⟨.inr alive, List.mem_append_right _ (List.mem_singleton.mpr rfl)⟩
      · exact ⟨.inr (ih hp).1, List.mem_append_left _ (ih hp).2⟩
  | exit _ _ _ ih =>
      simp only [Family.exit] at hp ⊢
      split at hp
      · cases hp
      · rename_i hne
        refine ⟨⟨(ih hp).1, fun e => hne ?_⟩, List.mem_append_left _ (ih hp).2⟩
        rw [hp, Set.mem_singleton_iff.mp e]
  | wait _ _ _ ih =>
      simp only [Family.wait] at hp ⊢
      split at hp
      · cases hp
      · exact ⟨(ih hp).1, List.mem_append_left _ (ih hp).2⟩

/-- Nobody is its own parent. -/
theorem parent_ne (h : Runs first es F) (hp : F.parent c = some p) : p ≠ c := by
  induction h with
  | start => cases hp
  | fork run alive new once ih =>
      simp only [Family.fork] at hp
      split at hp
      · rename_i hc
        cases hp
        rintro rfl
        rcases alive_known run alive with hfirst | ⟨q, hq⟩
        · exact new (hc ▸ hfirst)
        · exact once q (hc ▸ hq)
      · exact ih hp
  | exit _ _ _ ih =>
      simp only [Family.exit] at hp
      split at hp
      · cases hp
      · exact ih hp
  | wait _ _ _ ih =>
      simp only [Family.wait] at hp
      split at hp
      · cases hp
      · exact ih hp

/-- What can be collected has been left by somebody who died. -/
theorem zombies_exit (h : Runs first es F) {r : ρ} (hz : (c, r) ∈ F.zombies p) :
    .exit c r ∈ es := by
  induction h with
  | start => cases hz
  | fork _ _ _ _ ih => exact List.mem_append_left _ (ih hz)
  | exit _ _ _ ih =>
      simp only [Family.exit] at hz
      split at hz
      · cases hz
      split at hz
      · rcases List.mem_append.mp hz with hz | hz
        · exact List.mem_append_left _ (ih hz)
        · cases List.mem_singleton.mp hz
          exact List.mem_append_right _ (List.mem_singleton.mpr rfl)
      · exact List.mem_append_left _ (ih hz)
  | wait _ _ zombies ih =>
      simp only [Family.wait] at hz
      split at hz
      · rename_i hq
        subst hq
        exact List.mem_append_left _ (ih (zombies ▸ List.mem_cons_of_mem _ hz))
      · exact List.mem_append_left _ (ih hz)

/-- A child has its parent as long as both are alive. -/
theorem parent_of_fork (h : Runs first es F) (hfork : .fork p c ∈ es)
    (hp : ∀ r, .exit p r ∉ es) (hc : c ∈ F.alive) : F.parent c = some p := by
  induction h with
  | start => cases hfork
  | @fork _ _ q d run _ _ once ih =>
      simp only [Family.fork]
      split
      · rename_i hcd
        subst hcd
        rcases List.mem_append.mp hfork with hfork | hfork
        · exact absurd hfork (once p)
        · cases List.mem_singleton.mp hfork
          rfl
      · rename_i hcd
        have hold : FamilyEvent.fork p c ∈ _ := (List.mem_append.mp hfork).resolve_right fun hm => by
          cases List.mem_singleton.mp hm
          exact hcd rfl
        exact ih hold (fun r hr => hp r (List.mem_append_left _ hr)) (hc.resolve_left hcd)
  | @exit _ _ d r run _ ih =>
      have hold : FamilyEvent.fork p c ∈ _ := (List.mem_append.mp hfork).resolve_right fun hm =>
        by cases List.mem_singleton.mp hm
      have hparent := ih hold (fun r hr => hp r (List.mem_append_left _ hr)) hc.1
      have hpd : p ≠ d := by
        rintro rfl
        exact hp r (List.mem_append_right _ (List.mem_singleton.mpr rfl))
      simp only [Family.exit]
      rw [if_neg (by rw [hparent]; exact fun e => hpd (Option.some.inj e)), hparent]
  | @wait _ _ q d r rest run _ zombies ih =>
      have hold : FamilyEvent.fork p c ∈ _ := (List.mem_append.mp hfork).resolve_right fun hm =>
        by cases List.mem_singleton.mp hm
      have hparent := ih hold (fun r hr => hp r (List.mem_append_left _ hr)) hc
      -- The child whose result is collected is dead.
      have hcd : c ≠ d := by
        rintro rfl
        exact (exit_known run (zombies_exit run (zombies ▸ List.mem_cons_self))).2 hc
      simp only [Family.wait]
      rw [if_neg hcd, hparent]

/-! ## What is delivered -/

section
variable [DecidableEq ρ]

/-- A new child has left nothing. -/
theorem left_fork (h : Runs first es F) {q d : π} (new : d ∉ first) (once : ∀ q, .fork q d ∉ es) :
    left (es ++ [.fork q d]) p = left es p := by
  unfold left
  rw [List.filterMap_append]
  refine (List.append_nil _).trans (List.filterMap_congr fun e he => ?_)
  cases e with
  | exit c r =>
      have hcd : c ≠ d := by
        rintro rfl
        rcases (exit_known h he).1 with hfirst | ⟨q, hq⟩
        · exact new hfirst
        · exact once q hq
      have hmem : FamilyEvent.fork p c ∈ es ++ [.fork q d] ↔ FamilyEvent.fork p c ∈ es := by
        simp [hcd]
      simp only [leaves, hmem]
  | fork _ _ => rfl
  | wait _ _ _ => rfl

theorem left_exit {d : π} {r : ρ} :
    left (es ++ [.exit d r]) p = left es p ++ if .fork p d ∈ es then [(d, r)] else [] := by
  have hleaves : leaves (es ++ [.exit d r]) p = leaves es p := by
    funext e
    cases e <;> simp [leaves]
  unfold left
  rw [hleaves, List.filterMap_append]
  congr 1
  simp only [List.filterMap_cons, List.filterMap_nil, leaves]
  split
  · rename_i hfork
    split at hfork <;> simp_all
  · rename_i hfork
    split at hfork <;> simp_all

theorem left_wait {q d : π} {r : ρ} : left (es ++ [.wait q d r]) p = left es p := by
  have hleaves : leaves (es ++ [.wait q d r]) p = leaves es p := by
    funext e
    cases e <;> simp [leaves]
  unfold left
  rw [hleaves, List.filterMap_append]
  exact List.append_nil _

omit [DecidableEq ρ] in
theorem collected_concat {e : FamilyEvent π ρ} :
    collected (es ++ [e]) p = collected es p ++ (collects p e).toList := by
  unfold collected
  rw [List.filterMap_append]
  cases h : collects p e <;> simp [h]

/-- What the children of a parent that has not died have left is what it has collected,
followed by what it can still collect. -/
theorem delivered_of_not_exit (h : Runs first es F) (hp : ∀ r, .exit p r ∉ es) :
    left es p = collected es p ++ F.zombies p := by
  induction h with
  | start => rfl
  | fork run _ new once ih =>
      have hold := ih fun r hr => hp r (List.mem_append_left _ hr)
      rw [left_fork run new once, hold, collected_concat]
      exact (congrArg (· ++ _) (List.append_nil _)).symm
  | @exit es F d r run alive ih =>
      have hold := ih fun r hr => hp r (List.mem_append_left _ hr)
      have hpd : p ≠ d := by
        rintro rfl
        exact hp r (List.mem_append_right _ (List.mem_singleton.mpr rfl))
      have hparent : F.parent d = some p ↔ .fork p d ∈ es :=
        ⟨fun e => (parent_alive run e).2, fun hfork =>
          parent_of_fork run hfork (fun r hr => hp r (List.mem_append_left _ hr)) alive⟩
      have hcollected : collected (es ++ [.exit d r]) p = collected es p :=
        collected_concat.trans (List.append_nil _)
      rw [left_exit, hold, hcollected]
      simp only [Family.exit, if_neg hpd, hparent]
      split
      · exact List.append_assoc _ _ _
      · exact List.append_nil _
  | @wait es F q d r rest run _ zombies ih =>
      have hold := ih fun r hr => hp r (List.mem_append_left _ hr)
      rw [left_wait, hold, collected_concat]
      by_cases hqp : q = p
      · subst hqp
        simp [collects, Family.wait, zombies]
      · have hpq : ¬ p = q := fun e => hqp e.symm
        simp [collects, Family.wait, hqp, hpq]

/-- What the children of a live parent have left is what it has collected, followed by what
it can still collect. -/
theorem delivered (h : Runs first es F) (hp : p ∈ F.alive) :
    left es p = collected es p ++ F.zombies p :=
  delivered_of_not_exit h fun _ hr => (exit_known h hr).2 hp

/-- What a parent has collected is what its children left first. -/
theorem collected_prefix (h : Runs first es F) (p : π) : collected es p <+: left es p := by
  induction h with
  | start => exact List.prefix_rfl
  | fork run _ new once ih =>
      rw [left_fork run new once, collected_concat]
      simpa [collects] using ih
  | exit _ _ _ ih =>
      rw [left_exit, collected_concat]
      refine List.IsPrefix.trans ?_ (List.prefix_append _ _)
      simpa [collects] using ih
  | @wait es F q d r rest run alive zombies ih =>
      rw [left_wait, collected_concat]
      by_cases hqp : q = p
      · subst hqp
        rw [delivered run alive, zombies]
        exact ⟨rest, by simp [collects]⟩
      · simpa [collects, hqp] using ih

/-- Every child leaves one result. -/
theorem left_once (h : Runs first es F) (p : π) : ((left es p).map Prod.fst).Nodup := by
  induction h with
  | start => exact List.nodup_nil
  | fork run _ new once ih => rwa [left_fork run new once]
  | @exit es F d r run alive ih =>
      rw [left_exit]
      split
      · rw [List.map_append, List.map_singleton]
        refine List.nodup_append.mpr ⟨ih, by simp, fun x hx y hy => ?_⟩
        rw [List.mem_singleton] at hy
        rintro rfl
        obtain ⟨⟨c, r'⟩, hmem, rfl⟩ := List.mem_map.mp hx
        obtain ⟨e, he, heq⟩ := List.mem_filterMap.mp hmem
        -- Who has left a result is dead, so it does not die again.
        cases e with
        | exit c' r'' =>
            simp only [leaves, Option.ite_none_right_eq_some, Option.some.injEq] at heq
            cases heq.2
            exact (exit_known run he).2 ((show c = d from hy) ▸ alive)
        | fork _ _ => cases heq
        | wait _ _ _ => cases heq
      · rwa [List.append_nil]
  | wait run _ _ ih => rwa [left_wait]

end

end Runs

end Family

end Theynix.Lib
