import CollectiveSim.Rdma.Receiver

/-!
# NACK suppression

The receiver remembers the number and the time of its last NACK, the number in 32 bits and the
interval in whole microseconds.
-/

namespace CollectiveSim.Rdma

open Framework

/-- `MicroSeconds (m_nack_interval)` in nanoseconds: the floating-point interval becomes an integer. -/
def microSeconds (interval : ℚ≥0) : Nat := 1000 * ⌊interval⌋₊

/-- The attribute `NACKGenerationInterval`, in microseconds. -/
def RdmaHw.withNackInterval (hw : RdmaHw) (interval : ℚ≥0) : RdmaHw :=
  { hw with nackInterval := microSeconds interval }

@[simp] theorem RdmaHw.withNackInterval_nackInterval (hw : RdmaHw) (interval : ℚ≥0) :
    (hw.withNackInterval interval).nackInterval = microSeconds interval := rfl

namespace Receiver

variable {hw : RdmaHw} {interval : ℚ≥0}

/-- At least the interval lies between two NACKs for the same sequence number. -/
def Spaced (interval : ℚ≥0) (s : Receiver) : Prop :=
  s.nacks.Pairwise fun n m => n.expected = m.expected → (n.time : ℚ≥0) + 1000 * interval ≤ m.time

/-- The fields of the queue pair describe the last NACK. -/
def Remembers (interval : ℚ≥0) (s : Receiver) : Prop :=
  match s.nacks.getLast? with
  | none => s.rxQp.nackTimer = 0
  | some last =>
      s.rxQp.nackTimer = last.time + microSeconds interval ∧ s.rxQp.lastNACK = u32 last.expected

/-- A packet beyond the expected one that arrives while a NACK for the expected number is younger than
the interval finds that number in the 32 bits kept of the last NACK, and the whole microseconds of the
interval not yet over. -/
def Suppresses (interval : ℚ≥0) (s : Receiver) (a : Arrival) : Prop :=
  s.rxQp.receiverNextExpectedSeq < a.packet.seq →
    ∀ n ∈ s.nacks, n.expected = s.rxQp.receiverNextExpectedSeq →
      (a.now : ℚ≥0) < n.time + 1000 * interval →
      ∃ last, s.nacks.getLast? = some last ∧
        u32 last.expected = s.rxQp.receiverNextExpectedSeq ∧
        a.now < last.time + microSeconds interval

theorem remembers_step {s t : Receiver} {a : Arrival} (hs : s.Remembers interval)
    (hstep : step (hw.withNackInterval interval) s a = some t) : t.Remembers interval := by
  cases (step_cases hstep).2 with
  | inOrder hseq hnext htimer hlast hpositions hdelivered hnacks =>
      rwa [Remembers, hnacks, htimer, hlast]
  | nack hseq hnack hnext htimer hlast hhanded hnacks =>
      rw [Remembers, hnacks, List.getLast?_concat]
      exact ⟨htimer, hlast⟩
  | ignored hseq hsuppressed hnext htimer hlast hhanded hnacks =>
      rwa [Remembers, hnacks, htimer, hlast]

theorem not_nacksAt_iff {s : Receiver} (hs : s.Remembers interval) (now : Nat) :
    ¬ s.rxQp.NacksAt now ↔ ∃ last, s.nacks.getLast? = some last ∧
      u32 last.expected = s.rxQp.receiverNextExpectedSeq ∧ now < last.time + microSeconds interval := by
  rw [Remembers] at hs
  rw [RdmaRxQueuePair.NacksAt, not_or, Nat.not_le, not_ne_iff]
  cases hlast : s.nacks.getLast? with
  | none =>
      rw [hlast] at hs
      simp only [reduceCtorEq, false_and, exists_false, iff_false]
      rintro ⟨hnow, -⟩
      rw [hs] at hnow
      cases hnow
  | some last =>
      rw [hlast] at hs
      obtain ⟨htimer, hnumber⟩ := hs
      rw [htimer, hnumber]
      simp only [Option.some_inj, exists_eq_left', and_comm]

theorem spaced_step_iff {s t : Receiver} {a : Arrival} (hs : s.Remembers interval)
    (hspaced : s.Spaced interval) (hstep : step (hw.withNackInterval interval) s a = some t) :
    t.Spaced interval ↔ s.Suppresses interval a := by
  cases (step_cases hstep).2 with
  | inOrder hseq hnext htimer hlast hpositions hdelivered hnacks =>
      rw [Spaced, hnacks]
      exact iff_of_true hspaced fun hlt => absurd hseq (Nat.ne_of_gt hlt)
  | nack hseq hnack hnext htimer hlast hhanded hnacks =>
      have hnot := mt (not_nacksAt_iff hs a.now).mpr (not_not.mpr hnack)
      rw [Spaced, hnacks, List.pairwise_append]
      simp only [List.pairwise_singleton, List.mem_singleton, forall_eq, true_and]
      constructor
      · rintro ⟨-, hall⟩ - n hn heq hyoung
        exact absurd hyoung (not_lt.mpr (hall n hn heq))
      · intro hok
        refine ⟨hspaced, fun n hn heq => ?_⟩
        by_contra hyoung
        exact hnot (hok hseq n hn heq (not_le.mp hyoung))
  | ignored hseq hsuppressed hnext htimer hlast hhanded hnacks =>
      rw [Spaced, hnacks]
      refine iff_of_true hspaced fun hlt n hn heq hyoung => ?_
      exact (not_nacksAt_iff hs a.now).mp (hsuppressed hlt)

/-- In the runs whose packets meet the condition, and in no others, NACKs for one sequence number are
always at least the interval apart. -/
theorem spaced_iff {as : List Arrival} {s : Receiver}
    (hrun : Run (step (hw.withNackInterval interval)) anyEvent initial as s) :
    (∀ bs cs u, as = bs ++ cs →
        Run (step (hw.withNackInterval interval)) anyEvent initial bs u → u.Spaced interval) ↔
      Run (step (hw.withNackInterval interval)) (Suppresses interval) initial as s := by
  refine Run.guarded_iff (P := Spaced interval)
    (I := fun s => s.Remembers interval ∧ s.Spaced interval) (fun s hs => hs.2) ?_ ?_ hrun ?_
  · intro s a t hs hok hstep
    exact ⟨remembers_step hs.1 hstep, (spaced_step_iff hs.1 hs.2 hstep).mpr hok⟩
  · intro s a t hs hnot hstep hspaced
    exact hnot ((spaced_step_iff hs.1 hs.2 hstep).mp hspaced)
  · exact ⟨rfl, List.Pairwise.nil⟩

/-! ### A receiver that does not go back -/

/-- The NACKs so far, by number and by time. -/
structure Sorted (s : Receiver) : Prop where
  sorted : s.nacks.Pairwise fun n m => n.expected ≤ m.expected ∧ n.time ≤ m.time
  bounded : ∀ n ∈ s.nacks, n.expected ≤ s.rxQp.receiverNextExpectedSeq ∧ n.time ≤ s.now

theorem Sorted.step {hw : RdmaHw} {s t : Receiver} {a : Arrival} (h : s.Sorted)
    (hok : s.Forward hw a) (hstep : step hw s a = some t) : t.Sorted := by
  obtain ⟨⟨hnow, hnow'⟩, hcases⟩ := step_cases hstep
  have hsame (hnacks : t.nacks = s.nacks)
      (hle : s.rxQp.receiverNextExpectedSeq ≤ t.rxQp.receiverNextExpectedSeq) : t.Sorted := by
    refine ⟨hnacks ▸ h.sorted, fun n hn => ?_⟩
    rw [hnacks] at hn
    have hbound := h.bounded n hn
    omega
  cases hcases with
  | inOrder hseq hnext htimer hlast hpositions hdelivered hnacks =>
      apply hsame hnacks
      have hend := hok.2
      rw [hnext, u64_of_lt (by omega)]
      omega
  | nack hseq hnack hnext htimer hlast hhanded hnacks =>
      rw [hok.1 hseq hnack] at hnext
      constructor
      · rw [hnacks, List.pairwise_append]
        refine ⟨h.sorted, List.pairwise_singleton _ _, fun n hn m hm => ?_⟩
        have hbound := h.bounded n hn
        rw [List.mem_singleton.mp hm]
        exact ⟨hbound.1, Nat.le_trans hbound.2 hnow⟩
      · intro n hn
        rw [hnacks, List.mem_append, List.mem_singleton] at hn
        rw [hnext, hnow']
        rcases hn with hn | rfl
        · have hbound := h.bounded n hn
          omega
        · exact ⟨Nat.le_refl _, Nat.le_refl _⟩
  | ignored hseq hsuppressed hnext htimer hlast hhanded hnacks => exact hsame hnacks (Nat.le_of_eq hnext.symm)

theorem Sorted.suppresses {s : Receiver} {a : Arrival} (h : s.Sorted) (hwhole : interval = ⌊interval⌋₊)
    (hlow : s.rxQp.receiverNextExpectedSeq < 2 ^ 32) : s.Suppresses interval a := by
  intro hseq n hn heq hyoung
  obtain ⟨init, last, hinit⟩ := List.eq_nil_or_concat s.nacks |>.resolve_left
    (List.ne_nil_of_mem hn)
  rw [List.concat_eq_append] at hinit
  have hsorted := h.sorted
  have hlast := (h.bounded last (by rw [hinit]; simp)).1
  have hle : n.expected ≤ last.expected ∧ n.time ≤ last.time := by
    rw [hinit, List.mem_append, List.mem_singleton] at hn
    rcases hn with hn | rfl
    · rw [hinit, List.pairwise_append] at hsorted
      exact hsorted.2.2 n hn last (List.mem_singleton_self last)
    · exact ⟨Nat.le_refl _, Nat.le_refl _⟩
  refine ⟨last, by rw [hinit, List.getLast?_concat], ?_, ?_⟩
  · have hexpected : last.expected = s.rxQp.receiverNextExpectedSeq := by omega
    rw [hexpected, u32_of_lt hlow]
  · have htime : (n.time : ℚ≥0) ≤ last.time := Nat.cast_le.mpr hle.2
    have hmicro : (microSeconds interval : ℚ≥0) = 1000 * interval := by
      rw [microSeconds]
      push_cast
      rw [← hwhole]
    rw [← Nat.cast_lt (α := ℚ≥0)]
    push_cast
    rw [hmicro]
    exact lt_of_lt_of_le hyoung (add_le_add_left htime _)

theorem suppresses_of_forward {s t : Receiver} {as : List Arrival} (hwhole : interval = ⌊interval⌋₊)
    (hs : s.Sorted)
    (hrun : Run (step (hw.withNackInterval interval))
      (fun s a => s.Forward (hw.withNackInterval interval) a ∧
        s.rxQp.receiverNextExpectedSeq < 2 ^ 32) s as t) :
    Run (step (hw.withNackInterval interval)) (Suppresses interval) s as t := by
  induction hrun with
  | nil s => exact .nil s
  | cons hok hstep _ ih =>
      exact .cons (hs.suppresses hwhole hok.2) hstep (ih (hs.step hok.1 hstep))

instance (s : Receiver) (a : Arrival) : Decidable (s.Forward hw a) :=
  inferInstanceAs (Decidable ((_ → _ → _) ∧ _))

/-- A packet behind a gap, again soon after, and again when the interval is over. -/
def behindGap : List Arrival :=
  [⟨1000, sliceAt 2 2⟩, ⟨2000, sliceAt 2 2⟩, ⟨501000, sliceAt 2 2⟩]

theorem behindGap_spaced : ∃ s,
    Run (step ((chunked false).withNackInterval 500)) anyEvent initial behindGap s ∧
      ∀ bs cs u, behindGap = bs ++ cs →
        Run (step ((chunked false).withNackInterval 500)) anyEvent initial bs u → u.Spaced 500 := by
  have hhw : (chunked false).withNackInterval 500 = chunked false := by
    simp [RdmaHw.withNackInterval, microSeconds, chunked]
  obtain ⟨s, hrun, -⟩ := exists_run (step (chunked false))
    (fun s a => s.Forward (chunked false) a ∧ s.rxQp.receiverNextExpectedSeq < 2 ^ 32)
    (fun s => s.nacks.length = 2) initial behindGap (by decide)
  have hsorted : initial.Sorted := ⟨.nil, fun n hn => nomatch hn⟩
  rw [← hhw] at hrun
  have hsuppresses := suppresses_of_forward (by simp) hsorted hrun
  exact ⟨s, hsuppresses.any, (spaced_iff hsuppresses.any).mpr hsuppresses⟩

/-- With `L2BackToZero` a NACK for an earlier number comes between two for the same one. -/
def betweenNacks : List Arrival :=
  [⟨0, sliceAt 0 2⟩, ⟨1, sliceAt 4 2⟩, ⟨2, sliceAt 2 2⟩, ⟨3, sliceAt 0 2⟩, ⟨4, sliceAt 4 2⟩]

theorem betweenNacks_not_spaced : ∃ s,
    Run (step ((chunked true).withNackInterval 500)) anyEvent initial betweenNacks s ∧
      ¬ s.Spaced 500 := by
  have hhw : (chunked true).withNackInterval 500 = chunked true := by
    simp [RdmaHw.withNackInterval, microSeconds, chunked]
  rw [hhw]
  obtain ⟨s, hrun, hnacks⟩ := exists_run (step (chunked true)) anyEvent
    (fun s => s.nacks = [⟨1, 2⟩, ⟨2, 0⟩, ⟨4, 2⟩]) initial betweenNacks (by decide)
  refine ⟨s, hrun, ?_⟩
  rw [Spaced, hnacks]
  norm_num

end Receiver

end CollectiveSim.Rdma
