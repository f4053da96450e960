import Mathlib
import CollectiveSim.Framework.Slice

/-!
# Integers in byte buffers

Little- and big-endian encodings of a fixed number of bytes, reading at a position of a buffer, and
overwriting a range of it.
-/

namespace CollectiveSim.Framework

/-- The `k` low bytes of `n`, least significant first. -/
def encodeLE : Nat → Nat → List UInt8
  | 0, _ => []
  | k + 1, n => UInt8.ofNat n :: encodeLE k (n / 2 ^ 8)

def decodeLE : List UInt8 → Nat
  | [] => 0
  | b :: bs => b.toNat + 2 ^ 8 * decodeLE bs

/-- The `k` low bytes of `n`, most significant first. -/
def encodeBE (k n : Nat) : List UInt8 := (encodeLE k n).reverse

def decodeBE (bs : List UInt8) : Nat := decodeLE bs.reverse

@[simp] theorem encodeLE_length (k n : Nat) : (encodeLE k n).length = k := by
  induction k generalizing n with
  | zero => rfl
  | succ k ih => simp [encodeLE, ih]

@[simp] theorem encodeBE_length (k n : Nat) : (encodeBE k n).length = k := by
  simp [encodeBE]

theorem decodeLE_encodeLE (k n : Nat) : decodeLE (encodeLE k n) = n % 2 ^ (8 * k) := by
  induction k generalizing n with
  | zero => simp [encodeLE, decodeLE, Nat.mod_one]
  | succ k ih =>
      have hpow : 2 ^ (8 * (k + 1)) = 2 ^ 8 * 2 ^ (8 * k) := by
        rw [← Nat.pow_add, Nat.mul_add, Nat.add_comm]
      rw [encodeLE, decodeLE, ih, UInt8.toNat_ofNat', hpow, Nat.mod_mul]

theorem decodeBE_encodeBE (k n : Nat) : decodeBE (encodeBE k n) = n % 2 ^ (8 * k) := by
  rw [decodeBE, encodeBE, List.reverse_reverse, decodeLE_encodeLE]

theorem decodeBE_encodeBE_of_lt {k n : Nat} (h : n < 2 ^ (8 * k)) :
    decodeBE (encodeBE k n) = n := by
  rw [decodeBE_encodeBE, Nat.mod_eq_of_lt h]

theorem decodeLE_lt (bs : List UInt8) : decodeLE bs < 2 ^ (8 * bs.length) := by
  induction bs with
  | nil => exact Nat.one_pos
  | cons b bs ih =>
      have hb := b.toNat_lt
      have hpow : 2 ^ (8 * (bs.length + 1)) = 2 ^ 8 * 2 ^ (8 * bs.length) := by
        rw [← Nat.pow_add, Nat.mul_add, Nat.add_comm]
      rw [decodeLE, List.length_cons, hpow]
      omega

/-- The `k` bytes at position `pos`, or `none` past the end of the buffer. -/
def readAt (bytes : List UInt8) (pos k : Nat) : Option (List UInt8) :=
  if pos + k ≤ bytes.length then some ((bytes.drop pos).take k) else none

theorem SliceAt.readAt_eq {bytes xs : List UInt8} {pos : Nat} (h : SliceAt bytes pos xs) :
    readAt bytes pos xs.length = some xs := by
  rw [readAt, if_pos h.end_le]
  obtain ⟨pre, post, rfl, rfl⟩ := h
  rw [List.append_assoc, List.drop_left', List.take_left']
  · rfl
  · rfl

theorem getElem?_append_cons_of_ne {α : Type*} {pre post : List α} {x y : α} {i : Nat}
    (h : i ≠ pre.length) : (pre ++ x :: post)[i]? = (pre ++ y :: post)[i]? := by
  have hset : pre ++ y :: post = (pre ++ x :: post).set pre.length y := by
    rw [List.set_append_right _ _ (Nat.le_refl _), Nat.sub_self, List.set_cons_zero]
  rw [hset, List.getElem?_set_ne (Ne.symm h)]

/-- Overwrite the bytes from position `pos` on; what lies past the end is left out. -/
def patch (bytes : List UInt8) (pos : Nat) (bs : List UInt8) : List UInt8 :=
  bytes.mapIdx fun i b => if pos ≤ i then (bs[i - pos]?).getD b else b

@[simp] theorem patch_length (bytes : List UInt8) (pos : Nat) (bs : List UInt8) :
    (patch bytes pos bs).length = bytes.length := by
  simp [patch]

theorem patch_getElem? (bytes : List UInt8) (pos : Nat) (bs : List UInt8) (i : Nat) :
    (patch bytes pos bs)[i]? =
      bytes[i]?.map fun b => if pos ≤ i then (bs[i - pos]?).getD b else b := by
  rw [patch, List.getElem?_mapIdx]

theorem patch_getElem?_of_not_mem (bytes : List UInt8) {pos : Nat} {bs : List UInt8} {i : Nat}
    (h : i < pos ∨ pos + bs.length ≤ i) : (patch bytes pos bs)[i]? = bytes[i]? := by
  rw [patch_getElem?]
  rcases h with h | h
  · have hnot : ¬ pos ≤ i := by omega
    simp [hnot]
  · have hnone : bs[i - pos]? = none := List.getElem?_eq_none (by omega)
    simp [hnone]

theorem patch_getElem?_of_mem {bytes : List UInt8} {pos : Nat} {bs : List UInt8} {i : Nat}
    (hi : i < bs.length) (hlen : pos + i < bytes.length) :
    (patch bytes pos bs)[pos + i]? = bs[i]? := by
  rw [patch_getElem?, List.getElem?_eq_getElem hlen, List.getElem?_eq_getElem hi]
  simp [hi]

theorem patch_eq_self {bytes : List UInt8} {pos : Nat} {bs : List UInt8}
    (h : ∀ i, i < bs.length → bytes[pos + i]? = bs[i]?) : patch bytes pos bs = bytes := by
  apply List.ext_getElem?
  intro i
  by_cases hi : pos ≤ i ∧ i < pos + bs.length
  · have hsame := h (i - pos) (by omega)
    have hpos : pos + (i - pos) = i := by omega
    rw [hpos] at hsame
    rw [patch_getElem?, hsame, List.getElem?_eq_getElem (by omega)]
    simp [hi.1]
  · rw [patch_getElem?_of_not_mem bytes (by omega)]

theorem take_patch_zero {bytes bs : List UInt8} {k : Nat} (hbs : bs.length = k)
    (h : k ≤ bytes.length) : (patch bytes 0 bs).take k = bs := by
  apply List.ext_getElem?
  intro i
  rw [List.getElem?_take]
  by_cases hi : i < k
  · have hpatch : (patch bytes 0 bs)[0 + i]? = bs[i]? :=
      patch_getElem?_of_mem (by omega) (by omega)
    rw [if_pos hi, ← hpatch, Nat.zero_add]
  · rw [if_neg hi, List.getElem?_eq_none (by omega)]

theorem readAt_getElem? {bytes xs : List UInt8} {pos k : Nat} (h : readAt bytes pos k = some xs)
    {i : Nat} (hi : i < k) : xs[i]? = bytes[pos + i]? := by
  rw [readAt] at h
  by_cases hlen : pos + k ≤ bytes.length
  · rw [if_pos hlen, Option.some_inj] at h
    rw [← h, List.getElem?_take, if_pos hi, List.getElem?_drop]
  · rw [if_neg hlen] at h
    cases h

end CollectiveSim.Framework
