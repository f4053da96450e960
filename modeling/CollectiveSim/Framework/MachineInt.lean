import Mathlib

/-!
# Fixed-width integers as reduced naturals and integers

Counters are kept as `Nat` and `Int`; every place where a fixed width can wrap says so with one of
these reductions.
-/

namespace CollectiveSim.Framework

def u8 (n : Nat) : Nat := n % 2 ^ 8
def u16 (n : Nat) : Nat := n % 2 ^ 16
def u32 (n : Nat) : Nat := n % 2 ^ 32
def u64 (n : Nat) : Nat := n % 2 ^ 64

/-- Two's complement reduction to a signed width. -/
def i8 (z : Int) : Int := z.bmod (2 ^ 8)
def i16 (z : Int) : Int := z.bmod (2 ^ 16)
def i32 (z : Int) : Int := z.bmod (2 ^ 32)

/-- The unsigned 64-bit pattern of a signed value. -/
def toU64 (z : Int) : Nat := (z % 2 ^ 64).toNat

/-- `xs.at(ind % xs.size())`, where the index is converted to a `size_t`; the remainder by zero is
undefined. -/
def atModSize {α : Type*} (xs : List α) (ind : Int) : Option α := xs[toU64 ind % xs.length]?

theorem atModSize_map {α β : Type*} (f : α → β) (xs : List α) (ind : Int) :
    atModSize (xs.map f) ind = (atModSize xs ind).map f := by
  simp [atModSize]

theorem exists_atModSize {α : Type*} {xs : List α} (hne : xs ≠ []) (ind : Int) :
    ∃ x ∈ xs, atModSize xs ind = some x := by
  have hlt : toU64 ind % xs.length < xs.length := Nat.mod_lt _ (List.length_pos_iff.mpr hne)
  have hsome : atModSize xs ind = some (xs[toU64 ind % xs.length]) := List.getElem?_eq_getElem hlt
  exact ⟨_, List.getElem_mem hlt, hsome⟩

theorem atModSize_isSome {α : Type*} {xs : List α} (ind : Int) :
    (atModSize xs ind).isSome = true ↔ xs ≠ [] := by
  constructor
  · rintro h rfl
    cases h
  · intro hne
    obtain ⟨x, -, hx⟩ := exists_atModSize hne ind
    rw [hx]
    rfl

@[simp] theorem u8_of_lt {n : Nat} (h : n < 2 ^ 8) : u8 n = n := Nat.mod_eq_of_lt h
@[simp] theorem u16_of_lt {n : Nat} (h : n < 2 ^ 16) : u16 n = n := Nat.mod_eq_of_lt h
@[simp] theorem u32_of_lt {n : Nat} (h : n < 2 ^ 32) : u32 n = n := Nat.mod_eq_of_lt h
@[simp] theorem u64_of_lt {n : Nat} (h : n < 2 ^ 64) : u64 n = n := Nat.mod_eq_of_lt h

theorem u8_lt (n : Nat) : u8 n < 2 ^ 8 := Nat.mod_lt _ (by decide)
theorem u16_lt (n : Nat) : u16 n < 2 ^ 16 := Nat.mod_lt _ (by decide)
theorem u32_lt (n : Nat) : u32 n < 2 ^ 32 := Nat.mod_lt _ (by decide)
theorem u32_le (n : Nat) : u32 n ≤ n := Nat.mod_le _ _
/-- Unsigned subtraction, which wraps below zero. -/
def sub32 (a b : Nat) : Nat := u32 (a + (2 ^ 32 - u32 b))
def sub64 (a b : Nat) : Nat := u64 (a + (2 ^ 64 - u64 b))

theorem sub32_lt (a b : Nat) : sub32 a b < 2 ^ 32 := u32_lt _

theorem sub32_of_le {a b : Nat} (h : b ≤ a) (ha : a < 2 ^ 32) : sub32 a b = a - b := by
  rw [sub32, u32_of_lt (Nat.lt_of_le_of_lt h ha), u32]
  omega

theorem sub64_of_le {a b : Nat} (h : b ≤ a) (ha : a < 2 ^ 64) : sub64 a b = a - b := by
  rw [sub64, u64_of_lt (Nat.lt_of_le_of_lt h ha), u64]
  omega

theorem bmod_eq_self {z : Int} {w : Nat} (hw : 0 < w) (hlo : -(2 ^ (w - 1) : Int) ≤ z)
    (hhi : z < 2 ^ (w - 1)) : z.bmod (2 ^ w) = z := by
  have hp : (2 : Int) ^ w = 2 * 2 ^ (w - 1) := by
    rw [← pow_succ', Nat.sub_add_cancel hw]
  apply Int.bmod_eq_of_le
  · push_cast
    rw [hp]
    omega
  · push_cast
    rw [hp]
    omega

theorem i8_of_mem {z : Int} (hlo : -2 ^ 7 ≤ z) (hhi : z < 2 ^ 7) : i8 z = z :=
  bmod_eq_self (w := 8) (by decide) hlo hhi

theorem i16_of_mem {z : Int} (hlo : -2 ^ 15 ≤ z) (hhi : z < 2 ^ 15) : i16 z = z :=
  bmod_eq_self (w := 16) (by decide) hlo hhi

end CollectiveSim.Framework
