import Mathlib.Data.List.Perm.Basic

/-!
# `Theynix.Lib.Timers`: timers that expire after a number of ticks

The abstract timers are a list of sleepers, each with the number of ticks it still sleeps. A
tick takes one from each, and those that come to zero are due, in the order of the list.
`Timers.step` is partial: nothing but waking the next sleeper that is due may happen while
any is due. That a list of events has a run therefore says that every sleeper is woken in
the tick in which it has to be.

* `Awaits.step` is what one event does to a sleeper: it is woken, or there is one tick less
  to sleep for each tick.
* `run_sleep` is the deadline: between falling asleep for `n` ticks and being woken there
  are `n` ticks, and who has not been woken has slept for fewer.
-/

set_option autoImplicit false

namespace Theynix.Lib

universe u
variable {α : Type u}

/-- What can happen to timers. -/
inductive TimerEvent (α : Type u)
  /-- Somebody falls asleep for a number of ticks. -/
  | sleep (a : α) (ticks : Nat)
  | tick
  /-- A sleeper is woken. -/
  | wake (a : α)
deriving DecidableEq

/-- Who sleeps, with the ticks that are left, and who is due to be woken. -/
structure Timers (α : Type u) where
  asleep : List (α × Nat) := []
  due : List α := []

namespace Timers

/-- Whether a sleeper is due at the next tick. -/
def expires (x : α × Nat) : Bool := x.2 ≤ 1

/-- The timers after a tick. -/
def afterTick (asleep : List (α × Nat)) : Timers α where
  asleep := (asleep.filter fun x => !expires x).map fun x => (x.1, x.2 - 1)
  due := (asleep.filter expires).map Prod.fst

variable [DecidableEq α]

/-- The effect of an event: `none` when it may not happen. -/
def step (t : Timers α) : TimerEvent α → Option (Timers α)
  | .sleep a ticks =>
    if t.due = [] ∧ 0 < ticks ∧ a ∉ t.asleep.map Prod.fst then
      some { asleep := t.asleep ++ [(a, ticks)] }
    else none
  | .tick => if t.due = [] then some (afterTick t.asleep) else none
  | .wake a => if t.due.head? = some a then some { t with due := t.due.tail } else none

/-- The effect of a list of events. -/
def run (t : Timers α) (es : List (TimerEvent α)) : Option (Timers α) := es.foldlM step t

@[simp] theorem run_nil (t : Timers α) : t.run [] = some t := rfl

/-- One more event. -/
theorem run_concat {t t' : Timers α} {es : List (TimerEvent α)} {e : TimerEvent α}
    (h : t.run es = some t') : t.run (es ++ [e]) = t'.step e := by
  unfold run at h ⊢
  rw [List.foldlM_append, h]
  simp

theorem run_append {t t' : Timers α} {es es' : List (TimerEvent α)} (h : t.run es = some t') :
    t.run (es ++ es') = t'.run es' := by
  unfold run at h ⊢
  rw [List.foldlM_append, h]
  rfl

/-- Waking everybody who is due, in order. -/
theorem run_wake_all (asleep : List (α × Nat)) (due : List α) :
    run { asleep := asleep, due := due } (due.map .wake) = some { asleep := asleep } := by
  induction due with
  | nil => rfl
  | cons a due ih =>
      unfold run at ih ⊢
      rw [List.map_cons, List.foldlM_cons]
      simpa [step] using ih

/-- The number of ticks in a list of events. -/
def ticks (es : List (TimerEvent α)) : Nat :=
  es.countP fun e => match e with | .tick => true | _ => false

/-- Whether an event is about a sleeper. -/
def About (a : α) : TimerEvent α → Prop
  | .sleep b _ => b = a
  | .tick => False
  | .wake b => b = a

/-- Nobody is in the timers twice. -/
def Once (t : Timers α) : Prop := (t.due ++ t.asleep.map Prod.fst).Nodup

/-- Somebody sleeps for `left` more ticks, or is due. -/
def Awaits (t : Timers α) (a : α) (left : Nat) : Prop :=
  left = 0 ∧ a ∈ t.due ∨ 0 < left ∧ (a, left) ∈ t.asleep

omit [DecidableEq α] in
theorem once_empty : Once ({} : Timers α) := List.nodup_nil

omit [DecidableEq α] in
/-- A tick makes sleepers due, which stay in the timers once. -/
theorem Once.afterTick {t : Timers α} (h : Once t) (hdue : t.due = []) :
    Once (afterTick t.asleep) := by
  unfold Once at h ⊢
  rw [hdue, List.nil_append] at h
  have hmap : (Timers.afterTick t.asleep).asleep.map Prod.fst
      = (t.asleep.filter fun x => !expires x).map Prod.fst := by
    simp [Timers.afterTick, List.map_map, Function.comp_def]
  rw [hmap]
  have hperm := (List.filter_append_perm expires t.asleep).map Prod.fst
  rw [List.map_append] at hperm
  exact hperm.nodup_iff.mpr h

/-- Who is woken was the first that is due. -/
theorem step_wake {t t' : Timers α} {b : α} (h : t.step (.wake b) = some t') :
    ∃ rest, t.due = b :: rest ∧ t' = { t with due := rest } := by
  simp only [step] at h
  split at h
  case isFalse => cases h
  case isTrue hhead =>
    cases hdue : t.due with
    | nil => simp [hdue] at hhead
    | cons c rest =>
        simp only [hdue, List.head?_cons, Option.some.injEq] at hhead
        cases h
        exact ⟨rest, by rw [hhead], by simp [hdue]⟩

/-- One event. -/
theorem Once.step {t t' : Timers α} {e : TimerEvent α} (h : Once t)
    (hstep : t.step e = some t') : Once t' := by
  cases e with
  | sleep b n =>
      simp only [Timers.step] at hstep
      split at hstep
      case isFalse => cases hstep
      case isTrue hc =>
        obtain ⟨hdue, -, hb⟩ := hc
        cases hstep
        unfold Once at h ⊢
        rw [hdue, List.nil_append] at h
        rw [List.nil_append, List.map_append]
        refine List.nodup_append.mpr ⟨h, by simp, fun x hx y hy => ?_⟩
        rw [List.map_singleton, List.mem_singleton] at hy
        rintro rfl
        rw [hy] at hx
        exact hb hx
  | tick =>
      simp only [Timers.step] at hstep
      split at hstep
      case isFalse => cases hstep
      case isTrue hdue =>
        cases hstep
        exact h.afterTick hdue
  | wake b =>
      obtain ⟨rest, hrest, rfl⟩ := step_wake hstep
      unfold Once at h ⊢
      rw [hrest, List.cons_append, List.nodup_cons] at h
      exact h.2

/-- A sleeper is woken when it is due. Any other event is not about it, and a tick leaves it
one tick less to sleep. -/
theorem Awaits.step {t t' : Timers α} {e : TimerEvent α} {a : α} {left : Nat}
    (honce : Once t) (h : Awaits t a left) (hstep : t.step e = some t') :
    e = .wake a ∧ left = 0 ∨
      ¬ About a e ∧ ∃ left', Awaits t' a left' ∧ ticks [e] + left' = left := by
  cases e with
  -- Nobody is due while someone goes to sleep.
  | sleep b n =>
      simp only [Timers.step] at hstep
      split at hstep
      case isFalse => cases hstep
      case isTrue hc =>
        obtain ⟨hdue, -, hb⟩ := hc
        cases hstep
        rcases h with ⟨-, hmem⟩ | ⟨hpos, hmem⟩
        · rw [hdue] at hmem
          cases hmem
        · refine .inr ⟨fun e : b = a => hb (e ▸ List.mem_map_of_mem hmem), left,
            .inr ⟨hpos, List.mem_append_left _ hmem⟩, by simp [ticks]⟩
  | tick =>
      simp only [Timers.step] at hstep
      split at hstep
      case isFalse => cases hstep
      case isTrue hdue =>
        cases hstep
        rcases h with ⟨-, hmem⟩ | ⟨hpos, hmem⟩
        · rw [hdue] at hmem
          cases hmem
        · have hone : ticks ([.tick] : List (TimerEvent α)) = 1 := rfl
          refine .inr ⟨fun hf => hf, left - 1, ?_, by omega⟩
          -- The last tick makes it due, any other one brings it nearer.
          by_cases hexp : left ≤ 1
          · refine .inl ⟨by omega, List.mem_map.mpr ⟨(a, left), ?_, rfl⟩⟩
            exact List.mem_filter.mpr ⟨hmem, decide_eq_true hexp⟩
          · refine .inr ⟨by omega, List.mem_map.mpr ⟨(a, left), ?_, rfl⟩⟩
            exact List.mem_filter.mpr ⟨hmem, by simp [expires, hexp]⟩
  | wake b =>
      obtain ⟨rest, hrest, rfl⟩ := step_wake hstep
      unfold Once at honce
      rw [hrest, List.cons_append, List.nodup_cons] at honce
      rcases h with ⟨hzero, hmem⟩ | ⟨hpos, hmem⟩
      · rw [hrest, List.mem_cons] at hmem
        by_cases hab : a = b
        · exact .inl ⟨by rw [hab], hzero⟩
        · exact .inr ⟨fun e : b = a => hab e.symm, left,
            .inl ⟨hzero, hmem.resolve_left hab⟩, by simp [ticks]⟩
      · refine .inr ⟨fun e : b = a => honce.1 ?_, left, .inr ⟨hpos, hmem⟩, by simp [ticks]⟩
        exact List.mem_append_right _ (e ▸ List.mem_map_of_mem hmem)

omit [DecidableEq α] in
theorem ticks_cons (e : TimerEvent α) (es : List (TimerEvent α)) :
    ticks (e :: es) = ticks [e] + ticks es := by
  rw [ticks, ← List.singleton_append, List.countP_append]
  rfl

/-- A sleeper is woken after as many ticks as it had left, or has not been woken yet. -/
theorem Awaits.run {t t' : Timers α} {es : List (TimerEvent α)} {a : α} {left : Nat}
    (honce : Once t) (h : Awaits t a left) (hrun : t.run es = some t') :
    (∃ before after, es = before ++ .wake a :: after ∧ (∀ e ∈ before, ¬ About a e) ∧
      ticks before = left) ∨
    ((∀ e ∈ es, ¬ About a e) ∧ ∃ left', Awaits t' a left' ∧ ticks es + left' = left) := by
  induction es generalizing t left with
  | nil =>
      cases hrun
      exact .inr ⟨fun _ he => (by cases he), left, h, by simp [ticks]⟩
  | cons e es ih =>
      unfold Timers.run at hrun
      rw [List.foldlM_cons] at hrun
      obtain ⟨t₁, hstep, hrest⟩ := Option.bind_eq_some_iff.mp hrun
      rcases h.step honce hstep with ⟨rfl, rfl⟩ | ⟨hother, left₁, h₁, hleft⟩
      · exact .inl ⟨[], es, rfl, fun _ he => (by cases he), rfl⟩
      rcases ih (honce.step hstep) h₁ hrest with ⟨before, after, rfl, hbefore, hticks⟩ |
        ⟨hes, left', h', hticks⟩
      · refine .inl ⟨e :: before, after, rfl, fun x hx => ?_, ?_⟩
        · rcases List.mem_cons.mp hx with rfl | hx
          · exact hother
          · exact hbefore x hx
        · rw [ticks_cons]
          omega
      · refine .inr ⟨fun x hx => ?_, left', h', ?_⟩
        · rcases List.mem_cons.mp hx with rfl | hx
          · exact hother
          · exact hes x hx
        · rw [ticks_cons]
          omega

theorem Once.run {t t' : Timers α} {es : List (TimerEvent α)} (h : Once t)
    (hrun : t.run es = some t') : Once t' := by
  induction es generalizing t with
  | nil =>
      cases hrun
      exact h
  | cons e es ih =>
      unfold Timers.run at hrun
      rw [List.foldlM_cons] at hrun
      obtain ⟨t₁, hstep, hrest⟩ := Option.bind_eq_some_iff.mp hrun
      exact ih (h.step hstep) hrest

/-- Who falls asleep for `n` ticks is woken in the `n`th tick from then on, or has slept for
fewer ticks and still sleeps. -/
theorem run_sleep {t : Timers α} {before after : List (TimerEvent α)} {a : α} {n : Nat}
    (h : run {} (before ++ .sleep a n :: after) = some t) :
    (∃ slept later, after = slept ++ .wake a :: later ∧ (∀ e ∈ slept, ¬ About a e) ∧
      ticks slept = n) ∨
    ((∀ e ∈ after, ¬ About a e) ∧ ∃ left, Awaits t a left ∧ ticks after + left = n) := by
  unfold run at h
  rw [List.foldlM_append] at h
  obtain ⟨t₁, hbefore, hafter⟩ := Option.bind_eq_some_iff.mp h
  rw [List.foldlM_cons] at hafter
  obtain ⟨t₂, hsleep, hrest⟩ := Option.bind_eq_some_iff.mp hafter
  have honce : Once t₁ := once_empty.run hbefore
  refine Awaits.run (honce.step hsleep) ?_ hrest
  simp only [step] at hsleep
  split at hsleep
  case isFalse => cases hsleep
  case isTrue hc =>
    cases hsleep
    exact .inr ⟨hc.2.1, List.mem_append_right _ (List.mem_singleton.mpr rfl)⟩

end Timers

end Theynix.Lib
