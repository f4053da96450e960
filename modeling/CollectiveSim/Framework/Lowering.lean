import Mathlib

/-!
# Loops that only lower a value

A loop over a list lowers an accumulator or leaves it. The result is below the start value and below
what any single round would set, and above whatever bounds the start value and every round.
-/

namespace CollectiveSim.Framework

variable {α β : Type*} [Preorder α] {f : α → β → α} {d v : α} {x : β} {xs : List β}

theorem foldl_le (hlower : ∀ v x, f v x ≤ v) : xs.foldl f v ≤ v := by
  induction xs generalizing v with
  | nil => exact le_rfl
  | cons x xs ih => exact ih.trans (hlower v x)

theorem foldl_le_of_mem (hlower : ∀ v x, f v x ≤ v) (hx : x ∈ xs) (hd : ∀ v, f v x ≤ d) :
    xs.foldl f v ≤ d := by
  induction xs generalizing v with
  | nil => cases hx
  | cons y ys ih =>
      cases List.mem_cons.mp hx with
      | inl heq =>
          subst heq
          rw [List.foldl_cons]
          exact (foldl_le hlower).trans (hd v)
      | inr hmem => exact ih hmem

theorem le_foldl (hv : d ≤ v) (hkeep : ∀ v, d ≤ v → ∀ x ∈ xs, d ≤ f v x) : d ≤ xs.foldl f v := by
  induction xs generalizing v with
  | nil => exact hv
  | cons x xs ih =>
      apply ih (hkeep v hv x List.mem_cons_self)
      intro w hw y hy
      exact hkeep w hw y (List.mem_cons_of_mem x hy)

end CollectiveSim.Framework
