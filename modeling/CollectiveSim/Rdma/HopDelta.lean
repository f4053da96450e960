import CollectiveSim.Header.IntHeader
import CollectiveSim.Rdma.RateControl

/-!
# Differences of telemetry records

A record keeps 24 bits of the time and 20 bits of a byte counter in units of 128 times `multi`. The
difference of two records is right as long as it fits the field, whether or not the field has wrapped.
-/

namespace CollectiveSim.Rdma

open Framework

/-- The fields in the 64 bits of a record. -/
def IntHop.ofBits (bits : Nat) : IntHop where
  lineRate := bits % 2 ^ 3
  time := bits / 2 ^ 3 % 2 ^ 24
  bytes := bits / 2 ^ 27 % 2 ^ 20
  qlen := bits / 2 ^ 47 % 2 ^ 17

/-- The record that `Set` writes over the 64 bits `hop`. -/
def IntHop.set (multi hop time bytes qlen rate : Nat) : IntHop :=
  .ofBits (Header.IntHop.set multi hop time bytes qlen rate)

theorem delta_mod {m a b : Nat} (hle : b ≤ a) (hlt : a - b < m) :
    (if b % m ≤ a % m then a % m - b % m else a % m + m - b % m) = a - b := by
  obtain ⟨d, rfl⟩ := Nat.exists_eq_add_of_le hle
  rw [Nat.add_sub_cancel_left] at hlt ⊢
  have hb := Nat.mod_lt b (Nat.zero_lt_of_lt hlt)
  have hd := Nat.mod_eq_of_lt hlt
  by_cases hwrap : b % m + d < m
  · have hmod : (b + d) % m = b % m + d := by
      rw [Nat.add_mod, hd, Nat.mod_eq_of_lt hwrap]
    rw [hmod, if_pos (Nat.le_add_right _ _), Nat.add_sub_cancel_left]
  · have hmod : (b + d) % m = b % m + d - m := by
      rw [Nat.add_mod, hd, Nat.mod_eq_sub_mod (Nat.not_lt.mp hwrap), Nat.mod_eq_of_lt (by omega)]
    rw [hmod, if_neg (by omega)]
    omega

namespace IntHop

variable {multi hop time bytes qlen rate : Nat}

theorem lineRate_lt (multi hop time bytes qlen rate : Nat) : ∃ lineRate < 2 ^ 3,
    Header.IntHop.set multi hop time bytes qlen rate =
      lineRate + 2 ^ 3 * (time % 2 ^ 24) + 2 ^ 27 * (bytes / u32 (128 * multi) % 2 ^ 20) +
        2 ^ 47 * (qlen / u32 (80 * multi) % 2 ^ 17) := by
  refine ⟨_, ?_, rfl⟩
  split_ifs <;> omega

@[simp] theorem set_time : (set multi hop time bytes qlen rate).time = time % 2 ^ 24 := by
  obtain ⟨lineRate, hlt, hset⟩ := lineRate_lt multi hop time bytes qlen rate
  simp only [set, ofBits, hset]
  omega

@[simp] theorem set_bytes :
    (set multi hop time bytes qlen rate).bytes = bytes / u32 (128 * multi) % 2 ^ 20 := by
  obtain ⟨lineRate, hlt, hset⟩ := lineRate_lt multi hop time bytes qlen rate
  simp only [set, ofBits, hset]
  omega

theorem getTimeDelta_eq {a b : IntHop} {t t' : Nat} (ha : a.time = t' % 2 ^ 24)
    (hb : b.time = t % 2 ^ 24) (hle : t ≤ t') (hlt : t' - t < 2 ^ 24) :
    a.getTimeDelta b = t' - t := by
  rw [getTimeDelta, timeWidth, ha, hb]
  exact delta_mod hle hlt

theorem getBytesDelta_eq {a b : IntHop} {k k' : Nat} (ha : a.bytes = k' % 2 ^ 20)
    (hb : b.bytes = k % 2 ^ 20) (hle : k ≤ k') (hlt : k' - k < 2 ^ 20) (hpos : 0 < multi)
    (hmulti : 2 ^ 20 * 128 * multi ≤ 2 ^ 32) :
    a.getBytesDelta multi b = (k' - k) * (128 * multi) := by
  have hdelta := delta_mod hle hlt
  have hprod : (k' - k) * byteUnit * multi = (k' - k) * (128 * multi) := Nat.mul_assoc _ _ _
  have hfit : (k' - k) * (128 * multi) < 2 ^ 32 := by
    have hmul := Nat.mul_lt_mul_of_pos_right hlt (Nat.mul_pos (by decide : 0 < 128) hpos)
    omega
  rw [getBytesDelta, bytesWidth, ha, hb]
  split
  · rename_i hwrap
    rw [if_pos hwrap] at hdelta
    rw [hdelta, hprod, u32_of_lt hfit]
  · rename_i hwrap
    rw [if_neg hwrap] at hdelta
    rw [hdelta, hprod, u32_of_lt hfit]

theorem floor_delta {u b b' : Nat} (hu : 0 < u) (hle : b / u ≤ b' / u) :
    |((((b' / u - b / u) * u : Nat) : Int) - ((b' : Int) - b))| < u := by
  have hdiv := Nat.div_add_mod b u
  have hdiv' := Nat.div_add_mod b' u
  have hmod := Nat.mod_lt b hu
  have hmod' := Nat.mod_lt b' hu
  obtain ⟨d, hd⟩ := Nat.exists_eq_add_of_le hle
  rw [hd, Nat.add_sub_cancel_left]
  rw [hd, Nat.mul_add] at hdiv'
  have hcomm : d * u = u * d := Nat.mul_comm d u
  rw [abs_lt, hcomm]
  push_cast
  constructor <;> omega

/-- The differences of two records that `Set` wrote, also when a field has wrapped between them. -/
theorem delta_set {multi hop hop' t t' b b' qlen qlen' rate rate' : Nat}
    (hmulti : 2 ^ 20 * 128 * multi ≤ 2 ^ 32) (hpos : 0 < multi) (htime : t ≤ t')
    (htime' : t' - t < 2 ^ 24) (hbytes : b / (128 * multi) ≤ b' / (128 * multi))
    (hbytes' : b' / (128 * multi) - b / (128 * multi) < 2 ^ 20) :
    (set multi hop' t' b' qlen' rate').getTimeDelta (set multi hop t b qlen rate) = t' - t ∧
      |(((set multi hop' t' b' qlen' rate').getBytesDelta multi (set multi hop t b qlen rate) : Nat) :
        Int) - ((b' : Int) - b)| < 128 * multi := by
  have hunit : u32 (128 * multi) = 128 * multi := u32_of_lt (by omega)
  constructor
  · exact getTimeDelta_eq set_time set_time htime htime'
  · rw [getBytesDelta_eq set_bytes set_bytes (by rwa [hunit]) (by rwa [hunit]) hpos hmulti, hunit]
    exact_mod_cast floor_delta (Nat.mul_pos (by decide) hpos) hbytes

/-- Both fields wrap. -/
theorem delta_set_wrap :
    (set 32 0 (2 ^ 24 + 5) (2 ^ 32 + 5000) 0 0).getTimeDelta (set 32 0 (2 ^ 24 - 1) (2 ^ 32 - 1) 0 0) =
        2 ^ 24 + 5 - (2 ^ 24 - 1) ∧
      |(((set 32 0 (2 ^ 24 + 5) (2 ^ 32 + 5000) 0 0).getBytesDelta 32
        (set 32 0 (2 ^ 24 - 1) (2 ^ 32 - 1) 0 0) : Nat) : Int) -
          (((2 ^ 32 + 5000 : Nat) : Int) - (2 ^ 32 - 1 : Nat))| < 128 * (32 : Nat) :=
  delta_set (by decide) (by decide) (by decide) (by decide) (by decide) (by decide)

end IntHop

end CollectiveSim.Rdma
