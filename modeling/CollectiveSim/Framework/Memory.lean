import Mathlib

/-!
# Ranges of a memory

Reading and writing a list of consecutive cells.
-/

namespace CollectiveSim.Framework

variable {β : Type*}

/-- The `n` cells from `a` on. -/
def readRange (m : Nat → β) (a n : Nat) : List β := (List.range n).map fun i => m (a + i)

/-- Put the data into the cells from `a` on. -/
def writeRange (m : Nat → β) (a : Nat) (data : List β) : Nat → β :=
  fun x => if a ≤ x then data[x - a]?.getD (m x) else m x

section

variable {m m' : Nat → β} {a : Nat}

@[simp] theorem readRange_length (m : Nat → β) (a n : Nat) : (readRange m a n).length = n := by
  rw [readRange, List.length_map, List.length_range]

@[simp] theorem readRange_zero (m : Nat → β) (a : Nat) : readRange m a 0 = [] := rfl

theorem readRange_add (m : Nat → β) (a n k : Nat) :
    readRange m a (n + k) = readRange m a n ++ readRange m (a + n) k := by
  rw [readRange, List.range_add, List.map_append, List.map_map]
  congr 1
  apply List.map_congr_left
  intro i _
  rw [Function.comp_apply, Nat.add_assoc]

theorem readRange_congr {n : Nat} (h : ∀ x, a ≤ x → x < a + n → m x = m' x) :
    readRange m a n = readRange m' a n := by
  apply List.map_congr_left
  intro i hi
  have hlt := List.mem_range.mp hi
  exact h (a + i) (by omega) (by omega)

theorem readRange_drop (m : Nat → β) (a : Nat) {n k : Nat} (h : k ≤ n) :
    (readRange m a n).drop k = readRange m (a + k) (n - k) := by
  obtain ⟨j, rfl⟩ := Nat.exists_eq_add_of_le h
  rw [readRange_add, Nat.add_sub_cancel_left]
  exact List.drop_left' (readRange_length m a k)

@[simp] theorem writeRange_nil (m : Nat → β) (a : Nat) : writeRange m a [] = m := by
  funext x
  simp [writeRange]

theorem writeRange_of_not_mem {data : List β} {x : Nat} (h : x < a ∨ a + data.length ≤ x) :
    writeRange m a data x = m x := by
  rw [writeRange]
  by_cases hx : a ≤ x
  · rw [if_pos hx, List.getElem?_eq_none (by omega)]
    rfl
  · rw [if_neg hx]

theorem writeRange_of_getElem? {data : List β} {i : Nat} {y : β} (h : data[i]? = some y) :
    writeRange m a data (a + i) = y := by
  rw [writeRange, if_pos (Nat.le_add_right a i), Nat.add_sub_cancel_left, h]
  rfl

theorem readRange_writeRange_self (m : Nat → β) (a : Nat) (data : List β) :
    readRange (writeRange m a data) a data.length = data := by
  apply List.ext_getElem
  · exact readRange_length _ _ _
  · intro i hi hi'
    have hcell := writeRange_of_getElem? (m := m) (a := a) (List.getElem?_eq_getElem hi')
    simp only [readRange, List.getElem_map, List.getElem_range, hcell]

theorem readRange_writeRange_of_disjoint {data : List β} {b n : Nat}
    (h : b + n ≤ a ∨ a + data.length ≤ b) :
    readRange (writeRange m a data) b n = readRange m b n := by
  apply readRange_congr
  intro x hlo hhi
  exact writeRange_of_not_mem (by omega)

theorem readRange_writeRange_append (m : Nat → β) (a k : Nat) (data : List β) :
    readRange (writeRange m (a + k) data) a (k + data.length) = readRange m a k ++ data := by
  rw [readRange_add, readRange_writeRange_self, readRange_writeRange_of_disjoint (by omega)]

end

end CollectiveSim.Framework
