import Mathlib

/-!
# Smoothed averages and bounded rates

A rate controller keeps an exponentially weighted average of its feedback, cuts its rate by half of
that share, and clamps what comes out.
-/

namespace CollectiveSim.Framework

section Clamp

variable {K : Type*} [LinearOrder K]

/-- Clamp from below, then from above. -/
def clampRate (lo hi r : K) : K := min hi (max lo r)

theorem clampRate_le (lo hi r : K) : clampRate lo hi r ≤ hi := min_le_left _ _

theorem le_clampRate {lo hi : K} (h : lo ≤ hi) (r : K) : lo ≤ clampRate lo hi r :=
  le_min h (le_max_left _ _)

end Clamp

variable {K : Type*} [Field K] [LinearOrder K] [IsStrictOrderedRing K]

/-- One step of an exponentially weighted average with gain `g`. -/
def ewma (g avg x : K) : K := (1 - g) * avg + g * x

/-- An average that cuts a rate, and goes on to do so: a negative gain only drives it up from one. -/
structure IsShare (g avg : K) : Prop where
  nonneg : 0 ≤ avg
  one_le : g < 0 → 1 ≤ avg

theorem isShare_one (g : K) : IsShare g 1 := ⟨zero_le_one, fun _ => le_refl 1⟩

theorem IsShare.ewma {g avg x : K} (h : IsShare g avg) (hg : g ≤ 1) (hx0 : 0 ≤ x) (hx1 : x ≤ 1) :
    IsShare g (ewma g avg x) := by
  have hrest : 0 ≤ 1 - g := by linarith
  have hdrive : g < 0 → 1 ≤ Framework.ewma g avg x := by
    intro hneg
    have hup : 0 ≤ (1 - g) * (avg - 1) := mul_nonneg hrest (by linarith [h.one_le hneg])
    have hback : 0 ≤ -g * (1 - x) := mul_nonneg (by linarith) (by linarith)
    have hsplit : Framework.ewma g avg x - 1 = (1 - g) * (avg - 1) + -g * (1 - x) := by
      rw [Framework.ewma]
      ring
    linarith
  constructor
  · rcases lt_or_ge g 0 with hneg | hpos
    · linarith [hdrive hneg]
    · exact add_nonneg (mul_nonneg hrest h.nonneg) (mul_nonneg hpos hx0)
  · exact hdrive

/-- Cut a rate by half of a share of it, but not below `lo`. -/
def cutRate (lo r avg : K) : K := max lo (r * (1 - avg / 2))

omit [IsStrictOrderedRing K] in
theorem le_cutRate (lo r avg : K) : lo ≤ cutRate lo r avg := le_max_left _ _

theorem cutRate_le {lo r avg : K} (hlo : lo ≤ r) (hr : 0 ≤ r) (havg : 0 ≤ avg) :
    cutRate lo r avg ≤ r := by
  apply max_le hlo
  have hloss : 0 ≤ r * (avg / 2) := mul_nonneg hr (by linarith)
  linarith [mul_sub r 1 (avg / 2)]

/-- A negative share raises the rate. -/
theorem lt_cutRate {lo r avg : K} (hr : 0 < r) (havg : avg < 0) : r < cutRate lo r avg := by
  apply lt_max_of_lt_right
  have hgain : 0 < r * -(avg / 2) := mul_pos hr (by linarith)
  linarith [mul_sub r 1 (avg / 2), mul_neg r (avg / 2)]

theorem le_halfway {r target : K} (h : r ≤ target) : r ≤ r / 2 + target / 2 := by linarith

theorem halfway_le {r target : K} (h : r ≤ target) : r / 2 + target / 2 ≤ target := by linarith

end CollectiveSim.Framework
