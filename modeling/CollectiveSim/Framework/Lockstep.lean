import Mathlib

/-!
# Two computations in lockstep

Two fallible computations agree when they stop with one error or end in related values. Folds agree
when their steps do, at every element that the second one reaches.
-/

namespace CollectiveSim.Framework

universe u

variable {ε : Type*} {α β γ δ ι : Type u}

inductive Agree (R : α → β → Prop) : Except ε α → Except ε β → Prop
  | ok {a : α} {b : β} (h : R a b) : Agree R (.ok a) (.ok b)
  | error (e : ε) : Agree R (.error e) (.error e)

namespace Agree

variable {R R' : α → β → Prop} {S : γ → δ → Prop}

theorem bind {x : Except ε α} {y : Except ε β} {f : α → Except ε γ} {g : β → Except ε δ}
    (h : Agree R x y) (hf : ∀ a b, R a b → Agree S (f a) (g b)) : Agree S (x >>= f) (y >>= g) := by
  cases h with
  | ok h => exact hf _ _ h
  | error e => exact .error e

theorem bind_same {x y : Except ε ι} {f : ι → Except ε γ} {g : ι → Except ε δ} (hxy : x = y)
    (hf : ∀ i, y = .ok i → Agree S (f i) (g i)) : Agree S (x >>= f) (y >>= g) := by
  subst hxy
  cases x with
  | ok i => exact hf i rfl
  | error e => exact .error e

theorem mono {x : Except ε α} {y : Except ε β} (h : Agree R x y)
    (hR : ∀ a b, R a b → y = .ok b → R' a b) : Agree R' x y := by
  cases h with
  | ok h => exact .ok (hR _ _ h rfl)
  | error e => exact .error e

theorem eq {x y : Except ε α} (h : Agree Eq x y) : x = y := by
  cases h with
  | ok h => rw [h]
  | error e => rfl

end Agree

/-- `P` holds at every element that the fold reaches. -/
def Along (P : β → ι → Prop) (f : β → ι → Except ε β) : List ι → β → Prop
  | [], _ => True
  | i :: l, b => P b i ∧ ∀ b', f b i = .ok b' → Along P f l b'

instance decidableForallOk (x : Except ε β) (P : β → Prop) [∀ b, Decidable (P b)] :
    Decidable (∀ b, x = .ok b → P b) :=
  match x with
  | .ok b => decidable_of_iff (P b) ⟨fun h _ hb => by cases hb; exact h, fun h => h b rfl⟩
  | .error _ => isTrue fun _ hb => by cases hb

def Along.decidable (P : β → ι → Prop) (f : β → ι → Except ε β) [∀ b i, Decidable (P b i)] :
    ∀ l b, Decidable (Along P f l b)
  | [], _ => isTrue trivial
  | i :: l, b =>
      have := Along.decidable P f l
      inferInstanceAs (Decidable (P b i ∧ ∀ b', f b i = .ok b' → Along P f l b'))

instance (P : β → ι → Prop) (f : β → ι → Except ε β) [∀ b i, Decidable (P b i)] (l : List ι)
    (b : β) : Decidable (Along P f l b) :=
  Along.decidable P f l b

theorem Agree.foldlM {R : α → β → Prop} {P : β → ι → Prop} {f : α → ι → Except ε α}
    {g : β → ι → Except ε β} {l : List ι} {a : α} {b : β}
    (hstep : ∀ a b, ∀ i ∈ l, R a b → P b i → Agree R (f a i) (g b i)) (hl : Along P g l b)
    (h : R a b) : Agree R (l.foldlM f a) (l.foldlM g b) := by
  induction l generalizing a b with
  | nil => exact .ok h
  | cons i l ih =>
      have hi := hstep a b i List.mem_cons_self h hl.1
      rw [List.foldlM_cons, List.foldlM_cons]
      refine (hi.mono fun a' b' hr hb => And.intro hr (hl.2 b' hb)).bind ?_
      intro a' b' hab
      exact ih (fun a b j hj => hstep a b j (List.mem_cons_of_mem _ hj)) hab.2 hab.1

end CollectiveSim.Framework
