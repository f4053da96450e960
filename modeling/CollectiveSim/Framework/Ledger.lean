import Mathlib

/-!
# Ledgers

A ledger books each entry of a list under a key. The total of a key is what the entries under it
add up to, in whatever order they were booked. A table of counters agrees with a ledger when every
counter is moved with its total.
-/

open scoped BigOperators

namespace CollectiveSim.Framework

variable {α κ : Type*} [DecidableEq κ]

/-- Add an amount to one counter of a table. -/
def bump (f : κ → Nat) (k : κ) (n : Nat) : κ → Nat := Function.update f k (f k + n)

@[simp] theorem bump_self (f : κ → Nat) (k : κ) (n : Nat) : bump f k n k = f k + n :=
  Function.update_self ..

@[simp] theorem bump_of_ne {f : κ → Nat} {j k : κ} (h : j ≠ k) (n : Nat) : bump f k n j = f j :=
  Function.update_of_ne h ..

theorem bump_apply (f : κ → Nat) (j k : κ) (n : Nat) :
    bump f k n j = f j + if j = k then n else 0 := by
  by_cases h : j = k
  · subst h
    rw [bump_self, if_pos rfl]
  · rw [bump_of_ne h, if_neg h, Nat.add_zero]

theorem sum_bump {s : Finset κ} {k : κ} (hk : k ∈ s) (f : κ → Nat) (n : Nat) :
    ∑ j ∈ s, bump f k n j = ∑ j ∈ s, f j + n := by
  simp only [bump_apply, Finset.sum_add_distrib]
  rw [Finset.sum_ite_eq' s k fun _ => n, if_pos hk]

theorem sum_update_entry {β : Type*} {s : Finset κ} {k : κ} (hk : k ∈ s) (g : β → Nat) (f : κ → β)
    (v : β) : ∑ j ∈ s, g (Function.update f k v j) + g (f k) = ∑ j ∈ s, g (f j) + g v := by
  have hrest : ∑ j ∈ s.erase k, g (Function.update f k v j) = ∑ j ∈ s.erase k, g (f j) :=
    Finset.sum_congr rfl fun j hj => by rw [Function.update_of_ne (Finset.ne_of_mem_erase hj)]
  rw [← Finset.sum_erase_add _ _ hk, ← Finset.sum_erase_add _ (fun j => g (f j)) hk, hrest,
    Function.update_self]
  omega

/-- What the entries booked under `k` add up to. -/
def total (key : α → κ) (amount : α → Nat) (l : List α) (k : κ) : Nat :=
  ((l.filter fun a => key a = k).map amount).sum

section

variable (key : α → κ) (amount : α → Nat)

@[simp] theorem total_nil (k : κ) : total key amount [] k = 0 := rfl

theorem total_cons (a : α) (l : List α) :
    total key amount (a :: l) = bump (total key amount l) (key a) (amount a) := by
  funext k
  rw [bump_apply, total, List.filter_cons]
  by_cases h : key a = k
  · rw [if_pos (decide_eq_true h), if_pos h.symm, List.map_cons, List.sum_cons, Nat.add_comm]
    rfl
  · rw [if_neg (by simpa using h), if_neg (Ne.symm h)]
    rfl

theorem total_perm {l l' : List α} (h : l.Perm l') : total key amount l = total key amount l' :=
  funext fun _ => ((h.filter _).map amount).sum_eq

theorem total_erase [BEq α] [LawfulBEq α] {a : α} {l : List α} (h : a ∈ l) :
    bump (total key amount (l.erase a)) (key a) (amount a) = total key amount l := by
  rw [← total_cons key amount a, total_perm key amount (List.perm_cons_erase h)]

theorem total_eq_zero {l : List α} {k : κ} (h : ∀ a ∈ l, key a ≠ k) : total key amount l k = 0 := by
  have hnil : (l.filter fun a => decide (key a = k)) = [] := by
    rw [List.filter_eq_nil_iff]
    intro a ha hk
    exact h a ha (of_decide_eq_true hk)
  rw [total, hnil]
  rfl

theorem exists_of_total_pos {l : List α} {k : κ} (h : 0 < total key amount l k) :
    ∃ a ∈ l, key a = k := by
  by_contra hnone
  push Not at hnone
  exact absurd (total_eq_zero key amount hnone) (Nat.ne_of_gt h)

end

end CollectiveSim.Framework
