import Mathlib

/-!
# Dictionaries in order of insertion

A dictionary is the list of its entries. Setting a key that is there replaces its value and leaves
the entry where it is; a new key goes to the end.
-/

namespace CollectiveSim.Framework

variable {κ α : Type*} [DecidableEq κ]

namespace Dict

def get? (d : List (κ × α)) (k : κ) : Option α :=
  match d with
  | [] => none
  | (k', v) :: d => if k' = k then some v else get? d k

def set (d : List (κ × α)) (k : κ) (v : α) : List (κ × α) :=
  match d with
  | [] => [(k, v)]
  | (k', v') :: d => if k' = k then (k', v) :: d else (k', v') :: set d k v

/-- Set one key after the other. -/
def setAll (d : List (κ × α)) (entries : List (κ × α)) : List (κ × α) :=
  entries.foldl (fun d e => set d e.1 e.2) d

@[simp] theorem get?_nil (k : κ) : get? ([] : List (κ × α)) k = none := rfl

theorem get?_cons (k' : κ) (v : α) (d : List (κ × α)) (k : κ) :
    get? ((k', v) :: d) k = if k' = k then some v else get? d k := rfl

theorem get?_set (d : List (κ × α)) (k : κ) (v : α) (x : κ) :
    get? (set d k v) x = if k = x then some v else get? d x := by
  induction d with
  | nil => rfl
  | cons e d ih =>
      rw [set]
      by_cases hk : e.1 = k
      · rw [if_pos hk, get?_cons, get?_cons, hk]
        split <;> rfl
      · rw [if_neg hk, get?_cons, get?_cons, ih]
        split
        · next hx => rw [if_neg fun h => hk (hx.trans h.symm)]
        · rfl

theorem get?_append (d d' : List (κ × α)) (k : κ) :
    get? (d ++ d') k = (get? d k).or (get? d' k) := by
  induction d with
  | nil => rfl
  | cons e d ih =>
      rw [List.cons_append, get?_cons, get?_cons, ih]
      split <;> rfl

theorem get?_setAll (entries d : List (κ × α)) (x : κ) :
    get? (setAll d entries) x = (get? entries.reverse x).or (get? d x) := by
  induction entries generalizing d with
  | nil => rfl
  | cons e es ih =>
      rw [setAll, List.foldl_cons, ← setAll, ih, get?_set, List.reverse_cons, get?_append,
        get?_cons, Option.or_assoc]
      congr 1
      split <;> rfl

theorem mem_of_get? {d : List (κ × α)} {k : κ} {v : α} (h : get? d k = some v) : (k, v) ∈ d := by
  induction d with
  | nil => cases h
  | cons e d ih =>
      rw [get?_cons] at h
      split at h
      · next hk =>
          cases h
          exact hk ▸ List.mem_cons_self
      · exact List.mem_cons_of_mem _ (ih h)

theorem get?_isSome_iff {d : List (κ × α)} {k : κ} : (get? d k).isSome ↔ k ∈ d.map Prod.fst := by
  induction d with
  | nil => simp
  | cons e d ih =>
      rw [get?_cons, List.map_cons, List.mem_cons, ← ih]
      split
      · next h => simp [h]
      · next h => simp [Ne.symm h]

theorem nodup_set {d : List (κ × α)} (h : (d.map Prod.fst).Nodup) (k : κ) (v : α) :
    ((set d k v).map Prod.fst).Nodup := by
  induction d with
  | nil => simp [set]
  | cons e d ih =>
      rw [List.map_cons, List.nodup_cons] at h
      rw [set]
      by_cases hk : e.1 = k
      · simpa [hk] using h
      · rw [if_neg hk, List.map_cons, List.nodup_cons]
        refine ⟨fun hmem => h.1 ?_, ih h.2⟩
        rw [← get?_isSome_iff, get?_set, if_neg (Ne.symm hk)] at hmem
        exact get?_isSome_iff.mp hmem

theorem nodup_setAll (entries : List (κ × α)) {d : List (κ × α)} (h : (d.map Prod.fst).Nodup) :
    ((setAll d entries).map Prod.fst).Nodup := by
  induction entries generalizing d with
  | nil => exact h
  | cons e entries ih => exact ih (nodup_set h e.1 e.2)

theorem set_of_not_mem {d : List (κ × α)} {k : κ} (h : k ∉ d.map Prod.fst) (v : α) :
    set d k v = d ++ [(k, v)] := by
  induction d with
  | nil => rfl
  | cons e d ih =>
      rw [List.map_cons, List.mem_cons, not_or] at h
      rw [set, if_neg (Ne.symm h.1), ih h.2, List.cons_append]

theorem setAll_of_nodup {d entries : List (κ × α)}
    (h : ((d ++ entries).map Prod.fst).Nodup) : setAll d entries = d ++ entries := by
  induction entries generalizing d with
  | nil => simp [setAll]
  | cons e entries ih =>
      have hnew : e.1 ∉ d.map Prod.fst := by
        rw [List.map_append, List.map_cons, List.nodup_append] at h
        intro hmem
        exact h.2.2 e.1 hmem e.1 List.mem_cons_self rfl
      rw [setAll, List.foldl_cons, ← setAll, set_of_not_mem hnew]
      have happend : d ++ [(e.1, e.2)] ++ entries = d ++ e :: entries := by simp
      rw [ih (by rwa [happend]), happend]

theorem getElem?_of_get?_zipIdx {keys : List κ} {k : κ} {n : Nat}
    (h : get? (setAll [] keys.zipIdx) k = some n) : keys[n]? = some k := by
  rw [get?_setAll, get?_nil, Option.or_none] at h
  have hmem := List.mem_reverse.mp (mem_of_get? h)
  exact List.mem_zipIdx_iff_getElem?.mp hmem

theorem get?_zipIdx_isSome_iff {keys : List κ} {k : κ} :
    (get? (setAll [] keys.zipIdx) k).isSome ↔ k ∈ keys := by
  rw [get?_setAll, get?_nil, Option.or_none, get?_isSome_iff, List.map_reverse, List.mem_reverse,
    List.zipIdx_map_fst]

end Dict

end CollectiveSim.Framework
