import CollectiveSim.Msccl.PendingSends

/-!
# Fragments of the socket path

`Send` takes both headers off the MTU, rounds the rest down to whole elements and cuts the transfer
into fragments of at most so many bytes. All of it is unsigned and 32 bits wide.
-/

namespace CollectiveSim.Msccl

open Framework

/-- A fragment: the position of its first byte in the transfer and the number of its bytes. -/
structure Fragment where
  offset : Nat
  fragPayload : Nat
  deriving DecidableEq

/-- The size of the packet behind `AddHeader`. -/
def Fragment.wireSize (frag : Fragment) : Nat := frag.fragPayload + mscclHeaderSize

/-- The fragments are the bytes from `first` to `last`, in order. -/
def Contiguous : Nat → List Fragment → Nat → Prop
  | first, [], last => first = last
  | first, frag :: frags, last =>
      frag.offset = first ∧ 0 < frag.fragPayload ∧ Contiguous (first + frag.fragPayload) frags last

theorem Contiguous.snoc {first last : Nat} {frags : List Fragment} {n : Nat}
    (h : Contiguous first frags last) (hn : 0 < n) :
    Contiguous first (frags ++ [⟨last, n⟩]) (last + n) := by
  induction frags generalizing first with
  | nil =>
      obtain rfl : first = last := h
      exact ⟨rfl, hn, rfl⟩
  | cons frag frags ih => exact ⟨h.1, h.2.1, ih h.2.2⟩

/-- The loop of `Send`. -/
structure FragmentLoop where
  offset : Nat
  frags : List Fragment
  deriving DecidableEq

namespace FragmentLoop

def initial : FragmentLoop := ⟨0, []⟩

section

variable (cfg : SendConfig) (totalBytes : Nat)

/-- One pass of the loop. -/
def pass (s : FragmentLoop) : FragmentLoop :=
  let fragPayload := min cfg.maxPayload (sub32 totalBytes s.offset)
  { offset := u32 (s.offset + fragPayload), frags := s.frags ++ [⟨s.offset, fragPayload⟩] }

/-- The loop, with at most so many tests of its condition. -/
def run : Nat → FragmentLoop → Option FragmentLoop
  | 0, _ => none
  | fuel + 1, s => if s.offset < totalBytes then run fuel (s.pass cfg totalBytes) else some s

/-- The loop ends with fragments that are the bytes of the transfer in order, of whole elements, and
that fit the MTU with their header. -/
structure Cuts (frags : List Fragment) : Prop where
  contiguous : Contiguous 0 frags totalBytes
  whole : ∀ frag ∈ frags, cfg.dataType.getSizeBytes ∣ frag.offset ∧
    cfg.dataType.getSizeBytes ∣ frag.fragPayload
  fits : ∀ frag ∈ frags, frag.wireSize ≤ cfg.mtu.toNat

/-- Fragmentation ends, and with such fragments. -/
def Fragments : Prop := ∃ fuel s, run cfg totalBytes fuel initial = some s ∧ Cuts cfg totalBytes s.frags

end

variable {cfg : SendConfig} {totalBytes fuel : Nat} {s t : FragmentLoop}

theorem getSizeBytes_cases (dataType : ElemType) :
    dataType.getSizeBytes = 2 ∨ dataType.getSizeBytes = 4 ∨ dataType.getSizeBytes = 8 := by
  cases dataType <;> decide

theorem maxPayload_eq (cfg : SendConfig) : cfg.maxPayload =
    let room := if 36 ≤ cfg.mtu.toNat then cfg.mtu.toNat - 36 else 2 ^ 32 + cfg.mtu.toNat - 36
    room - room % cfg.dataType.getSizeBytes := by
  have hmtu := cfg.mtu.toNat_lt
  have hroom : sub32 (sub32 cfg.mtu.toNat mscclHeaderSize) l2OverheadBytes =
      if 36 ≤ cfg.mtu.toNat then cfg.mtu.toNat - 36 else 2 ^ 32 + cfg.mtu.toNat - 36 := by
    simp only [sub32, u32, mscclHeaderSize, l2OverheadBytes]
    split <;> omega
  rw [SendConfig.maxPayload, hroom]

theorem dvd_maxPayload (cfg : SendConfig) : cfg.dataType.getSizeBytes ∣ cfg.maxPayload :=
  Nat.dvd_sub_mod _

theorem maxPayload_eq_zero (hlo : 36 ≤ cfg.mtu.toNat)
    (hhi : cfg.mtu.toNat < 36 + cfg.dataType.getSizeBytes) : cfg.maxPayload = 0 := by
  rw [maxPayload_eq]
  simp only [if_pos hlo]
  rw [Nat.mod_eq_of_lt (by omega), Nat.sub_self]

theorem maxPayload_pos (h : 36 + cfg.dataType.getSizeBytes ≤ cfg.mtu.toNat) :
    0 < cfg.maxPayload ∧ cfg.maxPayload + 36 ≤ cfg.mtu.toNat := by
  rw [maxPayload_eq]
  simp only [if_pos (Nat.le_trans (Nat.le_add_right _ _) h)]
  rcases getSizeBytes_cases cfg.dataType with hsize | hsize | hsize <;> rw [hsize] at h ⊢ <;> omega

theorem maxPayload_wrapped (h : cfg.mtu.toNat < 36) : 2 ^ 31 ≤ cfg.maxPayload := by
  rw [maxPayload_eq]
  simp only [if_neg (Nat.not_le.mpr h)]
  rcases getSizeBytes_cases cfg.dataType with hsize | hsize | hsize <;> rw [hsize] <;> omega

/-! ### Runs of the loop -/

theorem run_eq_none (hzero : cfg.maxPayload = 0) (hlt : s.offset < totalBytes)
    (htotal : totalBytes < 2 ^ 32) (fuel : Nat) : run cfg totalBytes fuel s = none := by
  induction fuel generalizing s with
  | zero => rfl
  | succ fuel ih =>
      rw [run, if_pos hlt]
      apply ih
      simp only [pass, hzero, Nat.zero_min, Nat.add_zero]
      rwa [u32_of_lt (Nat.lt_trans hlt htotal)]

theorem pass_eq (hlt : s.offset < totalBytes) (htotal : totalBytes < 2 ^ 32) :
    s.pass cfg totalBytes =
      { offset := s.offset + min cfg.maxPayload (totalBytes - s.offset)
        frags := s.frags ++ [⟨s.offset, min cfg.maxPayload (totalBytes - s.offset)⟩] } := by
  rw [pass, sub32_of_le (Nat.le_of_lt hlt) htotal, u32_of_lt (by omega)]

theorem frags_of_run (hrun : run cfg totalBytes fuel s = some t) : s.frags <+: t.frags := by
  induction fuel generalizing s with
  | zero => cases hrun
  | succ fuel ih =>
      rw [run] at hrun
      split at hrun
      · exact (List.prefix_append _ _).trans (ih hrun)
      · cases hrun
        exact List.prefix_rfl

/-- What the loop has cut off so far. -/
structure Cutting (cfg : SendConfig) (totalBytes : Nat) (s : FragmentLoop) : Prop where
  offset_le : s.offset ≤ totalBytes
  dvd_offset : cfg.dataType.getSizeBytes ∣ s.offset
  contiguous : Contiguous 0 s.frags s.offset
  whole : ∀ frag ∈ s.frags, cfg.dataType.getSizeBytes ∣ frag.offset ∧
    cfg.dataType.getSizeBytes ∣ frag.fragPayload
  le : ∀ frag ∈ s.frags, frag.fragPayload ≤ min cfg.maxPayload totalBytes

theorem cutting_initial (cfg : SendConfig) (totalBytes : Nat) : Cutting cfg totalBytes initial where
  offset_le := Nat.zero_le _
  dvd_offset := Nat.dvd_zero _
  contiguous := rfl
  whole _ hmem := by cases hmem
  le _ hmem := by cases hmem

theorem Cutting.pass (h : Cutting cfg totalBytes s) (hpos : 0 < cfg.maxPayload)
    (hlt : s.offset < totalBytes) (htotal : totalBytes < 2 ^ 32)
    (hdvd : cfg.dataType.getSizeBytes ∣ totalBytes) :
    Cutting cfg totalBytes (s.pass cfg totalBytes) := by
  have hpayload : cfg.dataType.getSizeBytes ∣ min cfg.maxPayload (totalBytes - s.offset) := by
    rcases Nat.le_total cfg.maxPayload (totalBytes - s.offset) with hle | hle
    · rw [Nat.min_eq_left hle]
      exact dvd_maxPayload cfg
    · rw [Nat.min_eq_right hle]
      exact Nat.dvd_sub hdvd h.dvd_offset
  rw [pass_eq hlt htotal]
  constructor
  · simp only
    omega
  · exact Nat.dvd_add h.dvd_offset hpayload
  · exact h.contiguous.snoc (by omega)
  · intro frag hmem
    rcases List.mem_append.mp hmem with hmem | hmem
    · exact h.whole frag hmem
    · rw [List.mem_singleton.mp hmem]
      exact ⟨h.dvd_offset, hpayload⟩
  · intro frag hmem
    rcases List.mem_append.mp hmem with hmem | hmem
    · exact h.le frag hmem
    · rw [List.mem_singleton.mp hmem]
      simp only
      omega

/-- With room for an element the loop ends, having cut off all bytes. -/
theorem Cutting.run (h : Cutting cfg totalBytes s) (hpos : 0 < cfg.maxPayload)
    (htotal : totalBytes < 2 ^ 32) (hdvd : cfg.dataType.getSizeBytes ∣ totalBytes)
    (hfuel : totalBytes - s.offset < fuel) :
    ∃ t, FragmentLoop.run cfg totalBytes fuel s = some t ∧ Cutting cfg totalBytes t ∧
      t.offset = totalBytes := by
  induction fuel generalizing s with
  | zero => omega
  | succ fuel ih =>
      rw [FragmentLoop.run]
      by_cases hlt : s.offset < totalBytes
      · rw [if_pos hlt]
        apply ih (h.pass hpos hlt htotal hdvd)
        rw [pass_eq hlt htotal]
        simp only
        omega
      · rw [if_neg hlt]
        exact ⟨s, rfl, h, Nat.le_antisymm h.offset_le (Nat.not_lt.mp hlt)⟩

theorem Cutting.cuts (h : Cutting cfg totalBytes s) (hend : s.offset = totalBytes)
    (hfits : min cfg.maxPayload totalBytes + mscclHeaderSize ≤ cfg.mtu.toNat) :
    Cuts cfg totalBytes s.frags where
  contiguous := by rw [← hend]; exact h.contiguous
  whole := h.whole
  fits frag hmem := Nat.le_trans (Nat.add_le_add_right (h.le frag hmem) _) hfits

theorem head_of_run (hpos : 0 < totalBytes) (htotal : totalBytes < 2 ^ 32)
    (hrun : run cfg totalBytes fuel initial = some s) :
    ⟨0, min cfg.maxPayload totalBytes⟩ ∈ s.frags := by
  cases fuel with
  | zero => cases hrun
  | succ fuel =>
      have hlt : initial.offset < totalBytes := hpos
      rw [run, if_pos hlt, pass_eq hlt htotal] at hrun
      exact (frags_of_run hrun).subset (List.mem_singleton_self _)

/-- There is nothing to send, or the MTU has room for the headers and an element, or it is below the
headers while the transfer fits it in one packet. -/
def Fitting (cfg : SendConfig) (totalBytes : Nat) : Prop :=
  totalBytes = 0 ∨
  mscclHeaderSize + l2OverheadBytes + cfg.dataType.getSizeBytes ≤ cfg.mtu.toNat ∨
  (cfg.mtu.toNat < mscclHeaderSize + l2OverheadBytes ∧ mscclHeaderSize + totalBytes ≤ cfg.mtu.toNat)

instance (cfg : SendConfig) (totalBytes : Nat) : Decidable (Fitting cfg totalBytes) :=
  inferInstanceAs (Decidable (_ ∨ _ ∨ _))

theorem Fitting.min_le (h : Fitting cfg totalBytes) (hpos : 0 < totalBytes) :
    0 < cfg.maxPayload ∧ min cfg.maxPayload totalBytes + mscclHeaderSize ≤ cfg.mtu.toNat := by
  rw [Fitting, mscclHeaderSize, l2OverheadBytes] at h
  rw [mscclHeaderSize]
  rcases h with hzero | hroom | ⟨hlt, hle⟩
  · omega
  · have hmax := maxPayload_pos hroom
    omega
  · have hmax := maxPayload_wrapped hlt
    omega

/-- Fragmentation is right exactly where the rest of the MTU has neither wrapped nor come to nothing;
when it has wrapped, the whole transfer becomes one packet. -/
theorem fragments_iff (cfg : SendConfig) (totalBytes : UInt32)
    (hdvd : cfg.dataType.getSizeBytes ∣ totalBytes.toNat) :
    Fragments cfg totalBytes.toNat ↔ Fitting cfg totalBytes.toNat := by
  have htotal := totalBytes.toNat_lt
  constructor
  · rintro ⟨fuel, s, hrun, hcuts⟩
    by_contra hnot
    rw [Fitting, mscclHeaderSize, l2OverheadBytes, not_or, not_or] at hnot
    obtain ⟨hzero, hroom, hsmall⟩ := hnot
    have hpos : 0 < totalBytes.toNat := Nat.pos_of_ne_zero hzero
    by_cases hlo : 36 ≤ cfg.mtu.toNat
    · have hnone := maxPayload_eq_zero hlo (by omega)
      rw [run_eq_none hnone hpos htotal] at hrun
      cases hrun
    · have hfirst := hcuts.fits _ (head_of_run hpos htotal hrun)
      have hmax := maxPayload_wrapped (Nat.not_le.mp hlo)
      simp only [Fragment.wireSize, mscclHeaderSize] at hfirst
      omega
  · intro h
    by_cases hzero : totalBytes.toNat = 0
    · rw [hzero]
      have hnone : ∀ frag, frag ∉ initial.frags := fun _ hmem => by cases hmem
      exact ⟨1, initial, rfl, rfl, fun _ hmem => absurd hmem (hnone _),
        fun _ hmem => absurd hmem (hnone _)⟩
    · obtain ⟨hpos, hfits⟩ := h.min_le (Nat.pos_of_ne_zero hzero)
      obtain ⟨s, hrun, hcutting, hend⟩ := (cutting_initial cfg totalBytes.toNat).run hpos htotal hdvd
        (Nat.lt_succ_self _)
      exact ⟨_, s, hrun, hcutting.cuts hend hfits⟩

/-- Three packets for ten integers with an MTU of 52. -/
theorem fragments_ten : Fragments ⟨52, .int32⟩ (40 : UInt32).toNat :=
  (fragments_iff ⟨52, .int32⟩ 40 (by decide)).mpr (by decide)

/-- With an MTU of 36 the loop does not end. -/
theorem not_fragments_mtu : ¬ Fragments ⟨36, .int32⟩ (4 : UInt32).toNat := by
  rintro ⟨fuel, s, hrun, -⟩
  rw [run_eq_none (by decide) (by decide) (by decide)] at hrun
  cases hrun

end FragmentLoop

end CollectiveSim.Msccl
