import Mathlib

/-!
# Round robin

A list is served in rotation: the search for the next one to serve starts behind the one served last.
The rank of an element is the number of others in front of it in this search. Serving another element
lowers it, removing others does not raise it, and a new element at the end raises it by at most one.
-/

namespace CollectiveSim.Framework.RoundRobin

variable {α : Type*}

/-- The order in which the search goes through the list. -/
def order (l : List α) (last : Nat) : List α := l.rotate (last + 1)

variable {l l' : List α} {last i j k : Nat} {p q : α}

@[simp] theorem mem_order : p ∈ order l last ↔ p ∈ l := List.mem_rotate

theorem exists_split (h : l[i]? = some q) :
    ∃ front back, l = front ++ q :: back ∧ front.length = i := by
  obtain ⟨hi, rfl⟩ := List.getElem?_eq_some_iff.mp h
  refine ⟨l.take i, l.drop (i + 1), ?_, List.length_take_of_le (Nat.le_of_lt hi)⟩
  rw [List.getElem_cons_drop, List.take_append_drop]

/-- The search after one element has been served begins behind it. -/
theorem order_served (front back : List α) :
    order (front ++ q :: back) front.length = back ++ front ++ [q] := by
  have hlen : front.length + 1 = (front ++ [q]).length := by simp
  rw [order, hlen, List.append_cons, List.rotate_append_length_eq]
  exact (List.append_assoc _ _ _).symm

theorem order_order (hl : l.Nodup) (hj : l[j]? = some q) (hk : (order l last)[k]? = some q) :
    order l j = order (order l last) k := by
  obtain ⟨hj, hjq⟩ := List.getElem?_eq_some_iff.mp hj
  obtain ⟨hk, hkq⟩ := List.getElem?_eq_some_iff.mp hk
  have hindex : (k + (last + 1)) % l.length = j := by
    have hget := List.getElem_rotate l (last + 1) k hk
    rw [← hjq] at hkq
    exact hl.getElem_inj_iff.mp (hget.symm.trans hkq)
  rw [order, order, order, List.rotate_rotate, ← List.rotate_mod l (last + 1 + (k + 1)), ← hindex,
    ← List.rotate_mod]
  congr 1
  rw [Nat.mod_add_mod]
  congr 1
  omega

theorem sublist_split {front back : List α} (h : l'.Sublist (front ++ q :: back))
    (hnodup : (front ++ q :: back).Nodup) (hq : q ∈ l') :
    ∃ front' back', l' = front' ++ q :: back' ∧ front'.Sublist front ∧ back'.Sublist back := by
  obtain ⟨l₁, l₂, rfl, h₁, h₂⟩ := List.sublist_append_iff.mp h
  obtain ⟨-, hback, hdisjoint⟩ := List.nodup_append.mp hnodup
  have hq₁ : q ∉ l₁ := fun hmem => hdisjoint q (h₁.subset hmem) q List.mem_cons_self rfl
  have hq₂ : q ∈ l₂ := (List.mem_append.mp hq).resolve_left hq₁
  cases h₂ with
  | cons _ h₂ => exact absurd (h₂.subset hq₂) (List.nodup_cons.mp hback).1
  | cons_cons _ h₂ => exact ⟨l₁, _, rfl, h₁, h₂⟩

theorem order_sublist (hl : l.Nodup) (hsub : l'.Sublist l) (hi : l[i]? = some q)
    (hj : l'[j]? = some q) : (order l' j).Sublist (order l i) := by
  obtain ⟨front, back, rfl, rfl⟩ := exists_split hi
  obtain ⟨front', back', rfl, hfront, hback⟩ :=
    sublist_split hsub hl (List.mem_of_getElem? hj)
  have hj' : j = front'.length := by
    have hself : (front' ++ q :: back')[front'.length]? = some q := by simp
    obtain ⟨hlt, -⟩ := List.getElem?_eq_some_iff.mp hj
    exact (List.getElem?_inj hlt (hl.sublist hsub)).mp (hj.trans hself.symm)
  rw [hj', order_served, order_served]
  exact (hback.append hfront).append (List.Sublist.refl _)

variable [DecidableEq α]

/-- The number of elements that the search meets before `p`. -/
def rank (l : List α) (last : Nat) (p : α) : Nat := (order l last).idxOf p

theorem rank_lt (h : p ∈ l) : rank l last p < l.length := by
  rw [rank, ← List.length_rotate l (last + 1)]
  exact List.idxOf_lt_length_iff.mpr (mem_order.mpr h)

theorem idxOf_sublist_le (h : l'.Sublist l) (hl : l.Nodup) (hp : p ∈ l') :
    l'.idxOf p ≤ l.idxOf p := by
  induction h with
  | slnil => cases hp
  | @cons xs ys y h ih =>
      obtain ⟨hy, hys⟩ := List.nodup_cons.mp hl
      have hne : y ≠ p := fun heq => hy (heq ▸ h.subset hp)
      rw [List.idxOf_cons_ne _ hne]
      exact Nat.le_succ_of_le (ih hys hp)
  | @cons_cons xs ys y h ih =>
      obtain ⟨hy, hys⟩ := List.nodup_cons.mp hl
      by_cases heq : y = p
      · rw [heq, List.idxOf_cons_self, List.idxOf_cons_self]
      · rw [List.idxOf_cons_ne _ heq, List.idxOf_cons_ne _ heq]
        exact Nat.succ_le_succ (ih hys ((List.mem_cons.mp hp).resolve_left (Ne.symm heq)))

theorem rank_le_of_find? {suitable : α → Bool} (h : (order l last).find? suitable = some q)
    (hp : suitable p = true) : rank l last q ≤ rank l last p := by
  obtain ⟨-, front, back, hsplit, hfront⟩ := List.find?_eq_some_iff_append.mp h
  have hp' : p ∉ front := by
    intro hmem
    have hnot := hfront p hmem
    rw [hp] at hnot
    cases hnot
  rw [rank, rank, hsplit, List.idxOf_append_of_notMem hp']
  by_cases hq : q ∈ front
  · rw [List.idxOf_append_of_mem hq]
    exact Nat.le_add_right_of_le (Nat.le_of_lt (List.idxOf_lt_length_iff.mpr hq))
  · rw [List.idxOf_append_of_notMem hq, List.idxOf_cons_self]
    omega

/-- Serving the first suitable element lowers the rank of every element behind it, also when elements
are removed at the same time. -/
theorem rank_served (hl : l.Nodup) (hsub : l'.Sublist l) (hj : l'[j]? = some q) (hp : p ∈ l')
    (hlt : rank l last q < rank l last p) : rank l' j p < rank l last p := by
  have hq : q ∈ l := hsub.subset (List.mem_of_getElem? hj)
  obtain ⟨i, hi⟩ := List.mem_iff_getElem?.mp hq
  have hle : rank l' j p ≤ (order l i).idxOf p :=
    idxOf_sublist_le (order_sublist hl hsub hi hj) (List.nodup_rotate.mpr hl) (mem_order.mpr hp)
  obtain ⟨front, back, hsplit, hlen⟩ : ∃ front back, order l last = front ++ q :: back ∧
      front.length = rank l last q := by
    apply exists_split
    rw [rank, List.getElem?_eq_getElem (List.idxOf_lt_length_iff.mpr (mem_order.mpr hq))]
    simp
  have hself : (order l last)[front.length]? = some q := by simp [hsplit]
  rw [order_order hl hi hself, hsplit, order_served] at hle
  have hp' : p ∈ front ++ q :: back := by
    rw [← hsplit]
    exact mem_order.mpr (hsub.subset hp)
  have hfront : p ∉ front := by
    intro hmem
    have hidx : rank l last p < front.length := by
      rw [rank, hsplit, List.idxOf_append_of_mem hmem]
      exact List.idxOf_lt_length_iff.mpr hmem
    omega
  have hne : q ≠ p := by
    rintro rfl
    exact Nat.lt_irrefl _ hlt
  have hback : p ∈ back :=
    (List.mem_cons.mp ((List.mem_append.mp hp').resolve_left hfront)).resolve_left (Ne.symm hne)
  have hrank : rank l last p = front.length + (back.idxOf p + 1) := by
    rw [rank, hsplit, List.idxOf_append_of_notMem hfront, List.idxOf_cons_ne _ hne]
  rw [List.append_assoc, List.idxOf_append_of_mem hback] at hle
  omega

theorem rank_append (hlast : last < l.length) (p x : α) :
    rank (l ++ [x]) last p ≤ rank l last p + 1 := by
  rw [rank, rank, order, order, List.rotate_eq_drop_append_take (by simp; omega),
    List.rotate_eq_drop_append_take (by omega), List.drop_append_of_le_length (by omega),
    List.take_append_of_le_length (by omega), List.append_assoc]
  by_cases hfront : p ∈ l.drop (last + 1)
  · rw [List.idxOf_append_of_mem hfront, List.idxOf_append_of_mem hfront]
    exact Nat.le_succ _
  · rw [List.idxOf_append_of_notMem hfront, List.idxOf_append_of_notMem hfront,
      List.singleton_append]
    by_cases hx : x = p
    · rw [hx, List.idxOf_cons_self]
      omega
    · rw [List.idxOf_cons_ne _ hx]
      omega

end CollectiveSim.Framework.RoundRobin
