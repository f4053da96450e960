import Mathlib

/-!
# Procedures that work in place

What a procedure has written stays written when it stops with an error.
-/

namespace CollectiveSim.Framework

variable {σ α ε : Type*}

/-- The state that is left and the error, if the procedure ended in one. -/
structure Outcome (σ ε : Type*) where
  left : σ
  error : Option ε

namespace Outcome

/-- A loop that returns at the first error. -/
def loop (body : σ → α → Outcome σ ε) : σ → List α → Outcome σ ε
  | s, [] => ⟨s, none⟩
  | s, a :: as =>
      match (body s a).error with
      | none => loop body (body s a).left as
      | some e => ⟨(body s a).left, some e⟩

/-- A step that either succeeds or leaves `partly s a`. -/
def ofExcept (f : σ → α → Except ε σ) (partly : σ → α → σ) (s : σ) (a : α) : Outcome σ ε :=
  match f s a with
  | .ok s' => ⟨s', none⟩
  | .error e => ⟨partly s a, some e⟩

theorem loop_error {body : σ → α → Outcome σ ε} {s : σ} {as : List α} {e : ε}
    (h : (loop body s as).error = some e) :
    ∃ done a rest, as = done ++ a :: rest ∧ (loop body s done).error = none ∧
      (body (loop body s done).left a).error = some e ∧
      (loop body s as).left = (body (loop body s done).left a).left := by
  induction as generalizing s with
  | nil => cases h
  | cons a as ih =>
      rw [loop] at h ⊢
      cases hbody : (body s a).error with
      | some e' =>
          simp only [hbody] at h ⊢
          refine ⟨[], a, as, rfl, rfl, ?_, rfl⟩
          rw [← h]
          exact hbody
      | none =>
          simp only [hbody] at h ⊢
          obtain ⟨done, b, rest, has, hdone, herror, hleft⟩ := ih h
          have hcons : loop body s (a :: done) = loop body (body s a).left done := by
            rw [loop, hbody]
          refine ⟨a :: done, b, rest, by rw [has]; rfl, ?_⟩
          rw [hcons]
          exact ⟨hdone, herror, hleft⟩

theorem loop_ofExcept_ok {f : σ → α → Except ε σ} {partly : σ → α → σ} {s t : σ} {as : List α}
    (h : as.foldlM f s = .ok t) : loop (ofExcept f partly) s as = ⟨t, none⟩ := by
  induction as generalizing s with
  | nil =>
      cases h
      rfl
  | cons a as ih =>
      rw [List.foldlM_cons] at h
      cases ha : f s a with
      | error e =>
          rw [ha] at h
          cases h
      | ok s' =>
          rw [ha] at h
          simp only [loop, ofExcept, ha]
          exact ih h

theorem loop_ofExcept_error {f : σ → α → Except ε σ} {partly : σ → α → σ} {s : σ} {as : List α} {e : ε}
    (h : as.foldlM f s = .error e) : (loop (ofExcept f partly) s as).error = some e := by
  induction as generalizing s with
  | nil => cases h
  | cons a as ih =>
      rw [List.foldlM_cons] at h
      cases ha : f s a with
      | error e' =>
          rw [ha] at h
          cases h
          simp only [loop, ofExcept, ha]
      | ok s' =>
          rw [ha] at h
          simp only [loop, ofExcept, ha]
          exact ih h

theorem loop_read {ρ : Type*} (read : α → Except ε ρ) (write : σ → ρ → σ)
    {body : σ → α → Outcome σ ε}
    (hok : ∀ s a r, read a = .ok r → body s a = ⟨write s r, none⟩)
    (herror : ∀ s a e, read a = .error e → (body s a).error = some e)
    {s : σ} {as : List α} (h : (loop body s as).error = none) :
    ∃ rs, List.Forall₂ (fun a r => read a = .ok r) as rs ∧ (loop body s as).left = rs.foldl write s := by
  induction as generalizing s with
  | nil => exact ⟨[], .nil, rfl⟩
  | cons a as ih =>
      rw [loop] at h ⊢
      cases ha : read a with
      | error e =>
          rw [herror s a e ha] at h
          cases h
      | ok r =>
          simp only [hok s a r ha] at h ⊢
          obtain ⟨rs, hreads, hleft⟩ := ih h
          exact ⟨r :: rs, .cons ha hreads, hleft⟩

end Outcome

end CollectiveSim.Framework
