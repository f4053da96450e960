import Mathlib

/-!
# Slices of a stream

`SliceAt s i xs` says that `xs` stands in `s` at offset `i`. It is the shape in which a stream cut
into messages, packets or fragments is reassembled.
-/

namespace CollectiveSim.Framework

variable {α : Type*}

def SliceAt (s : List α) (i : Nat) (xs : List α) : Prop :=
  ∃ pre post, s = pre ++ xs ++ post ∧ pre.length = i

namespace SliceAt

variable {s xs ys : List α} {i j : Nat}

theorem middle (pre xs post : List α) : SliceAt (pre ++ xs ++ post) pre.length xs :=
  ⟨pre, post, rfl, rfl⟩

theorem append_right (h : SliceAt s i xs) (t : List α) : SliceAt (s ++ t) i xs := by
  obtain ⟨pre, post, rfl, rfl⟩ := h
  exact ⟨pre, post ++ t, by simp, rfl⟩

theorem end_le (h : SliceAt s i xs) : i + xs.length ≤ s.length := by
  obtain ⟨pre, post, rfl, rfl⟩ := h
  simp

theorem take_append (h : SliceAt s i xs) : s.take i ++ xs = s.take (i + xs.length) := by
  obtain ⟨pre, post, rfl, rfl⟩ := h
  rw [List.append_assoc, List.take_left', ← List.append_assoc, List.take_left']
  · simp
  · rfl

theorem trans (h : SliceAt s i xs) (h' : SliceAt xs j ys) : SliceAt s (i + j) ys := by
  obtain ⟨pre, post, rfl, rfl⟩ := h
  obtain ⟨pre', post', rfl, rfl⟩ := h'
  exact ⟨pre ++ pre', post' ++ post, by simp, by simp⟩

theorem range_map (f : Nat → α) {n j k : Nat} (h : j + k ≤ n) :
    SliceAt ((List.range n).map f) j ((List.range k).map fun i => f (j + i)) := by
  refine ⟨(List.range j).map f, (List.range (n - (j + k))).map fun i => f (j + k + i), ?_, by simp⟩
  have hn : n = j + k + (n - (j + k)) := by omega
  conv_lhs => rw [hn]
  rw [List.range_add, List.range_add]
  simp [Function.comp_def]

end SliceAt

end CollectiveSim.Framework
