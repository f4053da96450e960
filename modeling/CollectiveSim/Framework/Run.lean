import Mathlib

/-!
# Guarded runs of an event machine

A machine is a partial step function: the event names every choice, and `none` means that the
event is not enabled in the state. A run is guarded by a predicate on the state an event is taken
from, so "every step meets the condition" is part of the run and not of the machine.
-/

namespace CollectiveSim.Framework

variable {σ τ α : Type*}

/-- The events `es` lead from `s` to `t`, and every one of them meets `ok` where it is taken. -/
inductive Run (step : σ → α → Option σ) (ok : σ → α → Prop) : σ → List α → σ → Prop
  | nil (s : σ) : Run step ok s [] s
  | cons {s t u : σ} {a : α} {as : List α} (hok : ok s a) (hstep : step s a = some t)
      (hrest : Run step ok t as u) : Run step ok s (a :: as) u

/-- Every event is allowed. -/
def anyEvent : σ → α → Prop := fun _ _ => True

instance (s : σ) (a : α) : Decidable (anyEvent s a) := isTrue trivial

namespace Run

variable {step : σ → α → Option σ} {ok ok' : σ → α → Prop}

theorem append {s t u : σ} {as bs : List α} (h : Run step ok s as t) (h' : Run step ok t bs u) :
    Run step ok s (as ++ bs) u := by
  induction h with
  | nil s => exact h'
  | cons hok hstep _ ih => exact .cons hok hstep (ih h')

theorem of_append {s u : σ} {as bs : List α} (h : Run step ok s (as ++ bs) u) :
    ∃ t, Run step ok s as t ∧ Run step ok t bs u := by
  induction as generalizing s with
  | nil => exact ⟨s, .nil s, h⟩
  | cons a as ih =>
      cases h with
      | cons hok hstep hrest =>
          obtain ⟨t, hfront, hback⟩ := ih hrest
          exact ⟨t, .cons hok hstep hfront, hback⟩

theorem mono {s t : σ} {as : List α} (himp : ∀ s a, ok s a → ok' s a) (h : Run step ok s as t) :
    Run step ok' s as t := by
  induction h with
  | nil s => exact .nil s
  | cons hok hstep _ ih => exact .cons (himp _ _ hok) hstep ih

theorem any {s t : σ} {as : List α} (h : Run step ok s as t) : Run step anyEvent s as t :=
  h.mono fun _ _ _ => trivial

/-- An invariant kept by every guarded step holds at the end of every guarded run. -/
theorem invariant {Inv : σ → Prop}
    (hkeep : ∀ s a t, Inv s → ok s a → step s a = some t → Inv t)
    {s t : σ} {as : List α} (h : Run step ok s as t) (hs : Inv s) : Inv t := by
  induction h with
  | nil s => exact hs
  | cons hok hstep _ ih => exact ih (hkeep _ _ _ hs hok hstep)

theorem length_add_le {Inv : σ → Prop} {measure : σ → Nat}
    (huse : ∀ s a t, Inv s → step s a = some t → Inv t ∧ measure t < measure s)
    {s t : σ} {as : List α} (h : Run step ok s as t) (hs : Inv s) :
    as.length + measure t ≤ measure s := by
  induction h with
  | nil s => exact Nat.le_of_eq (Nat.zero_add _)
  | cons _ hstep _ ih =>
      obtain ⟨ht, hlt⟩ := huse _ _ _ hs hstep
      have hle := ih ht
      rw [List.length_cons]
      omega

/-- A machine whose events use up a measure can be run until nothing is enabled. -/
theorem exists_stopped {Inv : σ → Prop} {measure : σ → Nat}
    (huse : ∀ s a t, Inv s → step s a = some t → Inv t ∧ measure t < measure s)
    (s : σ) (hs : Inv s) : ∃ as t, Run step anyEvent s as t ∧ ∀ a, step t a = none := by
  induction hmeasure : measure s using Nat.strong_induction_on generalizing s with
  | _ n ih =>
      by_cases hstop : ∀ a, step s a = none
      · exact ⟨[], s, .nil s, hstop⟩
      · obtain ⟨a, ha⟩ := not_forall.mp hstop
        obtain ⟨t, ht⟩ := Option.ne_none_iff_exists'.mp ha
        obtain ⟨hinv, hlt⟩ := huse _ _ _ hs ht
        obtain ⟨as, u, hrun, hu⟩ := ih (measure t) (by omega) t hinv rfl
        exact ⟨a :: as, u, .cons trivial ht hrun, hu⟩

/-- Where the guard is exactly what one step needs to keep a property, the runs that have the
property in every state are exactly the guarded ones. -/
theorem guarded_iff {I P : σ → Prop} (hP : ∀ s, I s → P s)
    (hkeep : ∀ s a t, I s → ok s a → step s a = some t → I t)
    (hbreak : ∀ s a t, I s → ¬ ok s a → step s a = some t → ¬ P t)
    {s t : σ} {as : List α} (h : Run step anyEvent s as t) (hs : I s) :
    (∀ bs cs u, as = bs ++ cs → Run step anyEvent s bs u → P u) ↔ Run step ok s as t := by
  constructor
  · intro hall
    induction h with
    | nil s => exact .nil s
    | @cons s t u a as _ hstep _ ih =>
        have hok : ok s a := by
          by_contra hnot
          exact hbreak s a t hs hnot hstep (hall [a] as t rfl (.cons trivial hstep (.nil t)))
        refine .cons hok hstep (ih (hkeep s a t hs hok hstep) ?_)
        intro bs cs v heq hrun
        exact hall (a :: bs) cs v (by rw [heq]; rfl) (.cons trivial hstep hrun)
  · intro hrun
    clear h
    induction hrun with
    | nil s =>
        intro bs cs u heq hbs
        obtain ⟨rfl, -⟩ := List.append_eq_nil_iff.mp heq.symm
        cases hbs
        exact hP _ hs
    | @cons s t u a as hok hstep _ ih =>
        intro bs cs v heq hbs
        cases hbs with
        | nil => exact hP _ hs
        | cons _ hstep' hrest =>
            rw [List.cons_append, List.cons.injEq] at heq
            obtain ⟨rfl, rfl⟩ := heq
            rw [hstep] at hstep'
            cases hstep'
            exact ih (hkeep _ _ _ hs hok hstep) _ _ _ rfl hrest

/-- Events that carry the value of a counter, which they alone move, carry consecutive values. -/
theorem filterMap_eq_range' (Inv : σ → Prop) (note : α → Option Nat) (counter : σ → Nat)
    (hkeep : ∀ s a t, Inv s → ok s a → step s a = some t → Inv t ∧
      ((note a = none ∧ counter t = counter s) ∨
        (note a = some (counter s) ∧ counter t = counter s + 1)))
    {s t : σ} {as : List α} (h : Run step ok s as t) (hs : Inv s) :
    counter s ≤ counter t ∧
    as.filterMap note = List.range' (counter s) (counter t - counter s) := by
  induction h with
  | nil s => exact ⟨Nat.le_refl _, by rw [Nat.sub_self]; rfl⟩
  | @cons s t u a as hok hstep _ ih =>
      obtain ⟨hinv, hnote⟩ := hkeep _ _ _ hs hok hstep
      obtain ⟨hle, hlog⟩ := ih hinv
      rcases hnote with ⟨hnone, heq⟩ | ⟨hsome, heq⟩
      · rw [List.filterMap_cons_none hnone, hlog, heq]
        exact ⟨by omega, rfl⟩
      · have hsub : counter u - counter s = counter u - counter t + 1 := by omega
        rw [List.filterMap_cons_some hsome, hlog, heq, hsub, List.range'_succ]
        exact ⟨by omega, by rw [heq]⟩

end Run

/-- Execute a list of events, stopping with `none` at the first that is not enabled. -/
def exec (step : σ → α → Option σ) : σ → List α → Option σ
  | s, [] => some s
  | s, a :: as => (step s a).bind fun t => exec step t as

@[simp] theorem exec_nil (step : σ → α → Option σ) (s : σ) : exec step s [] = some s := rfl

theorem exec_cons (step : σ → α → Option σ) (s : σ) (a : α) (as : List α) :
    exec step s (a :: as) = (step s a).bind fun t => exec step t as := rfl

/-- Where a guard is exactly what lets an event happen, a list of events can be executed if each meets
the guard in the state that it finds. -/
theorem exec_ne_none_iff {step : σ → α → Option σ} {ok : σ → α → Prop}
    (hok : ∀ s a, step s a = none ↔ ¬ ok s a) (s : σ) (as : List α) :
    exec step s as ≠ none ↔
      ∀ bs a cs t, as = bs ++ a :: cs → exec step s bs = some t → ok t a := by
  induction as generalizing s with
  | nil => simp
  | cons a as ih =>
      rw [exec_cons]
      cases hstep : step s a with
      | none =>
          have hnot := (hok s a).mp hstep
          simp only [Option.bind_none, ne_eq, not_true_eq_false, false_iff]
          exact fun hall => hnot (hall [] a as s rfl rfl)
      | some t =>
          have hfirst : ok s a := by
            by_contra hnot
            rw [(hok s a).mpr hnot] at hstep
            cases hstep
          rw [Option.bind_some, ih t]
          constructor
          · intro h bs b cs u heq hbs
            cases bs with
            | nil =>
                cases heq
                cases hbs
                exact hfirst
            | cons b' bs =>
                cases heq
                rw [exec_cons, hstep, Option.bind_some] at hbs
                exact h bs b cs u rfl hbs
          · intro h bs b cs u heq hbs
            apply h (a :: bs) b cs u (by rw [heq]; rfl)
            rwa [exec_cons, hstep, Option.bind_some]

/-- Execute a list of events, also checking a decidable guard before each of them. -/
def execGuarded (step : σ → α → Option σ) (ok : σ → α → Prop) [∀ s a, Decidable (ok s a)] :
    σ → List α → Option σ :=
  exec fun s a => if ok s a then step s a else none

theorem run_of_execGuarded (step : σ → α → Option σ) (ok : σ → α → Prop)
    [∀ s a, Decidable (ok s a)] (s t : σ) (as : List α)
    (h : execGuarded step ok s as = some t) : Run step ok s as t := by
  induction as generalizing s with
  | nil =>
      cases h
      exact .nil _
  | cons a as ih =>
      rw [execGuarded, exec_cons, Option.bind_eq_some_iff] at h
      obtain ⟨u, hu, hrest⟩ := h
      by_cases hok : ok s a
      · rw [if_pos hok] at hu
        exact .cons hok hu (ih u hrest)
      · rw [if_neg hok] at hu
        cases hu

/-- A guarded run and a fact about its last state, both found by evaluation. -/
theorem exists_run (step : σ → α → Option σ) (ok : σ → α → Prop) [∀ s a, Decidable (ok s a)]
    (P : σ → Prop) [DecidablePred P] (s : σ) (as : List α)
    (h : (execGuarded step ok s as).any (fun t => decide (P t)) = true) :
    ∃ t, Run step ok s as t ∧ P t := by
  rw [Option.any_eq_true] at h
  obtain ⟨t, ht, hP⟩ := h
  exact ⟨t, run_of_execGuarded step ok s t as ht, of_decide_eq_true hP⟩

end CollectiveSim.Framework
