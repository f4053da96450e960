import Mathlib

/-!
# Scanning text

Maximal runs of one class of characters, the bracket that closes another one, and numerals in
several bases.
-/

namespace CollectiveSim.Framework

variable {α : Type*}

/-! ## Runs -/

/-- The next element, if there is one, ends a run of `p`. -/
def Stops (p : α → Bool) (xs : List α) : Prop := ∀ x ∈ xs.head?, p x = false

@[simp] theorem stops_nil (p : α → Bool) : Stops p [] := by simp [Stops]

@[simp] theorem stops_cons (p : α → Bool) (x : α) (xs : List α) :
    Stops p (x :: xs) ↔ p x = false := by
  simp [Stops]

theorem stops_dropWhile (p : α → Bool) (xs : List α) : Stops p (xs.dropWhile p) := by
  intro x hx
  have h := List.head?_dropWhile_not p xs
  rw [Option.mem_def.mp hx] at h
  exact h

theorem Stops.of_disjoint {p q : α → Bool} {xs ys : List α} (hxs : ∀ x ∈ xs, q x = true)
    (hdisj : ∀ x, q x = true → p x = false) (h : xs = [] → Stops p ys) : Stops p (xs ++ ys) := by
  cases xs with
  | nil => exact h rfl
  | cons x xs => simp [hdisj x (hxs x List.mem_cons_self)]

theorem takeWhile_run {p : α → Bool} {xs ys : List α} (hxs : ∀ x ∈ xs, p x = true)
    (hys : Stops p ys) : (xs ++ ys).takeWhile p = xs := by
  rw [List.takeWhile_append_of_pos hxs]
  cases ys with
  | nil => simp
  | cons y ys => simp [(stops_cons p y ys).mp hys]

theorem dropWhile_run {p : α → Bool} {xs ys : List α} (hxs : ∀ x ∈ xs, p x = true)
    (hys : Stops p ys) : (xs ++ ys).dropWhile p = ys := by
  rw [List.dropWhile_append_of_pos hxs]
  cases ys with
  | nil => rfl
  | cons y ys => simp [(stops_cons p y ys).mp hys]

theorem exists_run_split (p : α → Bool) (xs : List α) :
    ∃ run, xs = run ++ xs.dropWhile p ∧ ∀ x ∈ run, p x = true :=
  ⟨xs.takeWhile p, (List.takeWhile_append_dropWhile).symm, fun _ => List.mem_takeWhile_imp⟩

/-! ## Brackets -/

section Brackets

variable {opening closing : α}

/-- Every bracket is closed, and only these are closed. -/
inductive Balanced (opening closing : α) : List α → Prop
  | nil : Balanced opening closing []
  | other {x : α} : x ≠ opening → x ≠ closing → Balanced opening closing [x]
  | append {xs ys : List α} : Balanced opening closing xs → Balanced opening closing ys →
      Balanced opening closing (xs ++ ys)
  | nest {xs : List α} : Balanced opening closing xs →
      Balanced opening closing (opening :: xs ++ [closing])

theorem Balanced.of_forall {xs : List α} (h : ∀ x ∈ xs, x ≠ opening ∧ x ≠ closing) :
    Balanced opening closing xs := by
  induction xs with
  | nil => exact .nil
  | cons x xs ih =>
      obtain ⟨hopening, hclosing⟩ := h x List.mem_cons_self
      exact .append (.other hopening hclosing) (ih fun y hy => h y (List.mem_cons_of_mem x hy))

theorem map_prepend_append (xs ys : List α) (r : Option (List α × List α)) :
    (r.map (Prod.map (ys ++ ·) id)).map (Prod.map (xs ++ ·) id) =
      r.map (Prod.map ((xs ++ ys) ++ ·) id) := by
  cases r with
  | none => rfl
  | some r => simp [Prod.map]

variable [DecidableEq α]

/-- What stands before and behind the bracket that closes the innermost of `depth` open ones that
are counted: the scan ends at a closing bracket at which the depth is at most one. -/
def splitAtClosing (opening closing : α) : Nat → List α → Option (List α × List α)
  | _, [] => none
  | depth, x :: xs =>
      if x = closing ∧ ¬ 1 < depth then some ([], xs)
      else
        (splitAtClosing opening closing
          (if x = opening then depth + 1 else if x = closing then depth - 1 else depth) xs).map
            (Prod.map (List.cons x) id)

theorem Balanced.splitAtClosing_append (hne : opening ≠ closing) {xs : List α}
    (h : Balanced opening closing xs) {depth : Nat} (hdepth : 1 ≤ depth) (rest : List α) :
    splitAtClosing opening closing depth (xs ++ rest) =
      (splitAtClosing opening closing depth rest).map (Prod.map (xs ++ ·) id) := by
  induction h generalizing depth rest with
  | nil =>
      rw [List.nil_append]
      exact Option.map_id'.symm ▸ rfl
  | other hopening hclosing =>
      rw [List.singleton_append, splitAtClosing, if_neg (fun h => hclosing h.1), if_neg hopening,
        if_neg hclosing]
      rfl
  | append _ _ ihx ihy =>
      rw [List.append_assoc, ihx hdepth, ihy hdepth, map_prepend_append]
  | @nest xs _ ih =>
      have hone : 1 < depth + 1 := by omega
      rw [List.cons_append, List.cons_append, splitAtClosing, if_neg (fun h => hne h.1),
        if_pos rfl, List.append_assoc, ih (by omega), List.singleton_append, splitAtClosing,
        if_neg (fun h => h.2 hone), if_neg hne.symm, if_pos rfl, Nat.add_sub_cancel]
      cases splitAtClosing opening closing depth rest with
      | none => rfl
      | some r => simp [Prod.map]

theorem Balanced.splitAtClosing_eq (hne : opening ≠ closing) {xs : List α}
    (h : Balanced opening closing xs) (rest : List α) :
    splitAtClosing opening closing 1 (xs ++ closing :: rest) = some (xs, rest) := by
  rw [h.splitAtClosing_append hne (Nat.le_refl 1), splitAtClosing, if_pos ⟨rfl, by omega⟩]
  simp

theorem splitAtClosing_eq_some {depth : Nat} {xs before behind : List α}
    (h : splitAtClosing opening closing depth xs = some (before, behind)) :
    xs = before ++ closing :: behind := by
  induction xs generalizing depth before with
  | nil => cases h
  | cons x xs ih =>
      rw [splitAtClosing] at h
      by_cases hstop : x = closing ∧ ¬ 1 < depth
      · rw [if_pos hstop] at h
        cases h
        rw [hstop.1]
        rfl
      · rw [if_neg hstop] at h
        obtain ⟨⟨before', behind'⟩, hrec, heq⟩ := Option.map_eq_some_iff.mp h
        cases heq
        rw [ih hrec]
        rfl

end Brackets

/-! ## Numerals -/

/-- The value of a digit in a base of at most 16, and 16 for what is no digit. -/
def digitValue (c : Char) : Nat :=
  let n := c.toNat
  if 48 ≤ n ∧ n ≤ 57 then n - 48
  else if 97 ≤ n ∧ n ≤ 102 then n - 87
  else if 65 ≤ n ∧ n ≤ 70 then n - 55
  else 16

/-- The number that the digits at the front stand for behind `acc`, and what follows them. -/
def readDigits (base : Nat) : Nat → List Char → Nat × List Char
  | acc, [] => (acc, [])
  | acc, c :: cs =>
      if digitValue c < base then readDigits base (base * acc + digitValue c) cs else (acc, c :: cs)

/-- A numeral needs a digit. -/
def readNumeral (base : Nat) : List Char → Option (Nat × List Char)
  | [] => none
  | c :: cs => if digitValue c < base then some (readDigits base 0 (c :: cs)) else none

/-- What a zero at the front is followed by: hexadecimal digits behind an `x`, octal ones otherwise. -/
def readBehindZero : List Char → Option (Nat × List Char)
  | [] => some (0, [])
  | c :: cs => if c = 'x' ∨ c = 'X' then readNumeral 16 cs else some (readDigits 8 0 (c :: cs))

/-- The base is 16 behind `0x`, 8 behind another zero, and 10 otherwise. -/
def readInteger : List Char → Option (Nat × List Char)
  | [] => none
  | c :: cs => if c = '0' then readBehindZero cs else readNumeral 10 (c :: cs)

/-- Decimal digits, most significant first. -/
def decimal (n : Nat) : List Char := Nat.toDigits 10 n

theorem digitValue_digitChar {n : Nat} (h : n < 10) : digitValue n.digitChar = n := by
  simp only [digitValue, Nat.toNat_digitChar_of_lt_ten h]
  rw [if_pos (by omega)]
  omega

theorem readDigits_append {base acc : Nat} {cs rest : List Char}
    (h : ∀ c ∈ cs, digitValue c < base) :
    readDigits base acc (cs ++ rest) = readDigits base (readDigits base acc cs).1 rest := by
  induction cs generalizing acc with
  | nil => rfl
  | cons c cs ih =>
      have hc := h c List.mem_cons_self
      rw [List.cons_append, readDigits, readDigits, if_pos hc, if_pos hc]
      exact ih fun x hx => h x (List.mem_cons_of_mem c hx)

theorem readDigits_of_stops {base acc : Nat} {rest : List Char}
    (h : Stops (fun c => digitValue c < base) rest) : readDigits base acc rest = (acc, rest) := by
  cases rest with
  | nil => rfl
  | cons c cs =>
      have hc : ¬ digitValue c < base := by simpa using h
      rw [readDigits, if_neg hc]

theorem digitValue_lt_of_mem_decimal {n : Nat} {c : Char} (h : c ∈ decimal n) :
    digitValue c < 10 := by
  have hdigit := Nat.isDigit_of_mem_toDigits (by decide) (by decide) h
  have hrange : 48 ≤ c.toNat ∧ c.toNat ≤ 57 := by
    simpa [Char.isDigit, UInt32.le_iff_toNat_le] using hdigit
  simp only [digitValue]
  rw [if_pos hrange]
  omega

theorem readDigits_decimal (n : Nat) : (readDigits 10 0 (decimal n)).1 = n := by
  induction n using Nat.strongRecOn with
  | _ n ih =>
      by_cases hn : n < 10
      · rw [decimal, Nat.toDigits_of_lt_base hn, readDigits, digitValue_digitChar hn, if_pos hn]
        simp [readDigits]
      · have hmod := Nat.mod_lt n (by decide : 0 < 10)
        have hhighs : ∀ c ∈ Nat.toDigits 10 (n / 10), digitValue c < 10 := fun c hc =>
          digitValue_lt_of_mem_decimal hc
        rw [decimal, Nat.toDigits_of_base_le (by decide) (by omega), readDigits_append hhighs]
        have hhigh := ih (n / 10) (by omega)
        rw [decimal] at hhigh
        rw [hhigh, readDigits, digitValue_digitChar hmod, if_pos hmod]
        simp only [readDigits]
        omega

theorem decimal_ne_nil (n : Nat) : decimal n ≠ [] := Nat.toDigits_ne_nil

theorem head_decimal {n : Nat} (hn : n ≠ 0) : ∃ c cs, decimal n = c :: cs ∧ c ≠ '0' := by
  induction n using Nat.strongRecOn with
  | _ n ih =>
      by_cases hlt : n < 10
      · refine ⟨n.digitChar, [], Nat.toDigits_of_lt_base hlt, ?_⟩
        simpa using hn
      · obtain ⟨c, cs, hhigh, hc⟩ := ih (n / 10) (by omega) (by omega)
        rw [decimal] at hhigh
        refine ⟨c, cs ++ [(n % 10).digitChar], ?_, hc⟩
        rw [decimal, Nat.toDigits_of_base_le (by decide) (by omega), hhigh, List.cons_append]

theorem readNumeral_decimal (n : Nat) {rest : List Char}
    (h : Stops (fun c => digitValue c < 10) rest) :
    readNumeral 10 (decimal n ++ rest) = some (n, rest) := by
  have hall : ∀ c ∈ decimal n, digitValue c < 10 := fun c => digitValue_lt_of_mem_decimal
  have hread : readDigits 10 0 (decimal n ++ rest) = (n, rest) := by
    rw [readDigits_append hall, readDigits_of_stops h, readDigits_decimal]
  cases hd : decimal n with
  | nil => exact absurd hd (decimal_ne_nil n)
  | cons c cs =>
      rw [hd] at hread
      have hc : digitValue c < 10 := hall c (by rw [hd]; exact List.mem_cons_self)
      rw [List.cons_append] at hread ⊢
      rw [readNumeral, if_pos hc, hread]

theorem readInteger_decimal (n : Nat) : readInteger (decimal n) = some (n, []) := by
  by_cases hn : n = 0
  · rw [hn]
    rfl
  · obtain ⟨c, cs, hd, hc⟩ := head_decimal hn
    have hread := readNumeral_decimal n (stops_nil _)
    rw [List.append_nil, hd] at hread
    rw [hd, readInteger, if_neg hc, hread]

-- Texts with numbers in them are compared up to the digits.
attribute [irreducible] decimal

end CollectiveSim.Framework
