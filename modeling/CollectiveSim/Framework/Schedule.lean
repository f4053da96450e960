import Mathlib

/-!
# Executing operations in any allowed order

Operations that are not ordered commute, so two orders that both respect a precedence give the same
result. Operations commute when neither writes what the other touches.
-/

namespace CollectiveSim.Framework

variable {α σ : Type*}

/-! ### Orders that respect a precedence -/

/-- No element stands before one that has to precede it. -/
def Extends (C : α → α → Prop) (l : List α) : Prop := l.Pairwise fun a b => ¬ C b a

/-- An element that commutes with all those in front of it can go first. -/
theorem foldl_move {exec : σ → α → σ} {a : α} {front back : List α}
    (h : ∀ x ∈ front, ∀ s, exec (exec s x) a = exec (exec s a) x) (s : σ) :
    (front ++ a :: back).foldl exec s = (a :: (front ++ back)).foldl exec s := by
  induction front generalizing s with
  | nil => rfl
  | cons x front ih =>
      have hmove := ih (fun y hy => h y (List.mem_cons_of_mem x hy)) (exec s x)
      rw [List.cons_append, List.foldl_cons, hmove, List.foldl_cons, h x List.mem_cons_self,
        List.foldl_cons, List.cons_append, List.foldl_cons]

/-- Two orders of the same elements that respect a precedence give the same result when elements that
it does not order commute. -/
theorem Extends.foldl_eq {C : α → α → Prop} {exec : σ → α → σ} {l₁ l₂ : List α}
    (hperm : l₁.Perm l₂) (h₁ : Extends C l₁) (h₂ : Extends C l₂)
    (hcomm : ∀ a ∈ l₁, ∀ b ∈ l₁, ¬ C a b → ¬ C b a →
      ∀ s, exec (exec s a) b = exec (exec s b) a) (s : σ) :
    l₁.foldl exec s = l₂.foldl exec s := by
  induction l₁ generalizing l₂ s with
  | nil => rw [hperm.nil_eq]
  | cons a l₁ ih =>
      obtain ⟨front, back, rfl⟩ := List.append_of_mem (hperm.subset List.mem_cons_self)
      have hrest : l₁.Perm (front ++ back) :=
        (hperm.trans List.perm_middle).cons_inv
      obtain ⟨hfirst, htail⟩ := List.pairwise_cons.mp h₁
      obtain ⟨-, -, hcross⟩ := List.pairwise_append.mp h₂
      rw [foldl_move _ s, List.foldl_cons, List.foldl_cons]
      · apply ih hrest htail
        · exact h₂.sublist (List.Sublist.append_left (List.sublist_cons_self a back) front)
        · intro x hx y hy
          exact hcomm x (List.mem_cons_of_mem a hx) y (List.mem_cons_of_mem a hy)
      · intro x hx t
        have hx' : x ∈ l₁ := hrest.symm.subset (List.mem_append_left back hx)
        -- in one order `a` stands before `x`, in the other behind it
        have hxa : ¬ C x a := hfirst x hx'
        have hax : ¬ C a x := hcross x hx a List.mem_cons_self
        exact hcomm x (List.mem_cons_of_mem a hx') a List.mem_cons_self hxa hax t

/-- A list that was built by adding elements whose predecessors it already had. -/
inductive Closed (C : α → α → Prop) : List α → Prop
  | nil : Closed C []
  | snoc {l : List α} {a : α} (h : Closed C l) (ha : ∀ x, C x a → x ∈ l) : Closed C (l ++ [a])

namespace Closed

variable {C : α → α → Prop} {l : List α}

theorem mem_of_pred (h : Closed C l) {a b : α} (hb : b ∈ l) (hab : C a b) : a ∈ l := by
  induction h with
  | nil => cases hb
  | snoc h ha ih =>
      rcases List.mem_append.mp hb with hb | hb
      · exact List.mem_append_left _ (ih hb)
      · rw [List.mem_singleton.mp hb] at hab
        exact List.mem_append_left _ (ha a hab)

theorem mem_of_transGen (h : Closed C l) {a b : α} (hb : b ∈ l) (hab : Relation.TransGen C a b) :
    a ∈ l := by
  induction hab using Relation.TransGen.head_induction_on with
  | single hab => exact h.mem_of_pred hb hab
  | head hab _ ih => exact h.mem_of_pred ih hab

theorem extend (h : Closed C l) (hnodup : l.Nodup) : Extends (Relation.TransGen C) l := by
  induction h with
  | nil => exact List.Pairwise.nil
  | @snoc l a h ha ih =>
      obtain ⟨hl, -, hdisj⟩ := List.nodup_append'.mp hnodup
      apply List.pairwise_append.mpr
      refine ⟨ih hl, List.pairwise_singleton _ a, fun x hx y hy hyx => ?_⟩
      rw [List.mem_singleton.mp hy] at hyx
      exact hdisj (h.mem_of_transGen hx hyx) (List.mem_singleton_self a)

end Closed

/-! ### Operations that commute -/

section Local

variable {Loc Val : Type*} {get : σ → Loc → Val}

/-- The operation changes only the written locations, and what it puts there depends only on the
touched ones. -/
structure Local (get : σ → Loc → Val) (touched written : Loc → Prop) (f : σ → σ) : Prop where
  frame : ∀ s l, ¬ written l → get (f s) l = get s l
  depends : ∀ s t, (∀ l, touched l → get s l = get t l) → ∀ l, written l → get (f s) l = get (f t) l

theorem Local.comm {f g : σ → σ} {touched touched' written written' : Loc → Prop}
    (hf : Local get touched written f) (hg : Local get touched' written' g)
    (hext : ∀ s t, (∀ l, get s l = get t l) → s = t) (hsub : ∀ l, written' l → touched' l)
    (hfg : ∀ l, written l → ¬ touched' l) (hgf : ∀ l, written' l → ¬ touched l) (s : σ) :
    g (f s) = f (g s) := by
  apply hext
  intro l
  by_cases hl : written l
  · have hl' : ¬ written' l := fun h => hfg l hl (hsub l h)
    rw [hg.frame _ l hl']
    apply hf.depends _ _ _ l hl
    intro k hk
    exact (hg.frame s k fun h => hgf k h hk).symm
  · rw [hf.frame _ l hl]
    by_cases hl' : written' l
    · apply hg.depends _ _ _ l hl'
      intro k hk
      exact hf.frame s k fun h => hfg k h hk
    · rw [hg.frame _ l hl', hf.frame _ l hl, hg.frame _ l hl']

end Local

end CollectiveSim.Framework
