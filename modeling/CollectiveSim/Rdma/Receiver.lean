import CollectiveSim.Rdma.Connection

/-!
# The receiving queue pair

One receiving queue pair under arbitrary arrivals: which payloads go to `m_perPktFn`, and when a NACK
is generated. The expected sequence number moves forward with a packet that is handed over and, with
`L2BackToZero`, back to a chunk boundary with a NACK.
-/

namespace CollectiveSim.Rdma

open Framework

namespace RdmaRxQueuePair

/-- A packet beyond the expected one is answered by a NACK. -/
def NacksAt (q : RdmaRxQueuePair) (now : Nat) : Prop :=
  q.nackTimer ≤ now ∨ q.lastNACK ≠ q.receiverNextExpectedSeq

instance (q : RdmaRxQueuePair) (now : Nat) : Decidable (q.NacksAt now) :=
  inferInstanceAs (Decidable (_ ∨ _))

/-- Where the receiver goes back to with a NACK. -/
def nackSeq (hw : RdmaHw) (q : RdmaRxQueuePair) : Nat :=
  if hw.backto0 then q.receiverNextExpectedSeq / hw.chunk.toNat * hw.chunk.toNat
  else q.receiverNextExpectedSeq

/-- All that the arrival of a packet can do. -/
inductive Received (hw : RdmaHw) (now : Nat) (p : DataPacket) (q : RdmaRxQueuePair) :
    RdmaRxQueuePair → List UInt8 → List AckPacket → Prop
  | inOrder {q' : RdmaRxQueuePair} {reply : List AckPacket}
      (hseq : p.seq = q.receiverNextExpectedSeq)
      (hnext : q'.receiverNextExpectedSeq = u64 (q.receiverNextExpectedSeq + p.payload.length))
      (htimer : q'.nackTimer = q.nackTimer) (hlast : q'.lastNACK = q.lastNACK)
      (hreply : ∀ a ∈ reply, a = ⟨false, q'.receiverNextExpectedSeq⟩) :
      Received hw now p q q' p.payload reply
  | nack {q' : RdmaRxQueuePair} (hseq : q.receiverNextExpectedSeq < p.seq) (hnack : q.NacksAt now)
      (hnext : q'.receiverNextExpectedSeq = q.nackSeq hw)
      (htimer : q'.nackTimer = now + hw.nackInterval)
      (hlast : q'.lastNACK = u32 q.receiverNextExpectedSeq) :
      Received hw now p q q' [] [⟨true, q.nackSeq hw⟩]
  | ignored {q' : RdmaRxQueuePair} (hseq : p.seq ≠ q.receiverNextExpectedSeq)
      (hsuppressed : q.receiverNextExpectedSeq < p.seq → ¬ q.NacksAt now)
      (hnext : q'.receiverNextExpectedSeq = q.receiverNextExpectedSeq)
      (htimer : q'.nackTimer = q.nackTimer) (hlast : q'.lastNACK = q.lastNACK) :
      Received hw now p q q' [] []

theorem received {hw : RdmaHw} {now : Nat} {p : DataPacket} {q q' : RdmaRxQueuePair}
    {handed : List UInt8} {reply : List AckPacket}
    (h : receiveUdp hw now p q = some (q', handed, reply)) :
    Received hw now p q q' handed reply := by
  simp only [receiveUdp, Option.bind_eq_bind, Option.pure_def, Option.bind_eq_some_iff,
    Option.some.injEq, Prod.exists, Prod.mk.injEq] at h
  obtain ⟨verdict, r, hcheck, rfl, rfl, rfl⟩ := h
  simp only [receiverCheckSeq] at hcheck
  by_cases hseq : p.seq = q.receiverNextExpectedSeq
  · rw [if_pos hseq] at hcheck
    have hcase : (verdict = .ack ∨ verdict = .inOrder) ∧
        r.receiverNextExpectedSeq = u64 (q.receiverNextExpectedSeq + p.payload.length) ∧
        r.nackTimer = q.nackTimer ∧ r.lastNACK = q.lastNACK := by
      split_ifs at hcheck <;> cases hcheck <;> simp
    obtain ⟨hverdict, hnext, htimer, hlast⟩ := hcase
    rw [if_pos hverdict]
    refine .inOrder hseq hnext htimer hlast fun a ha => ?_
    rcases hverdict with rfl | rfl
    · exact List.mem_singleton.mp ha
    · cases ha
  · rw [if_neg hseq] at hcheck
    by_cases hlt : q.receiverNextExpectedSeq < p.seq
    · rw [if_pos hlt] at hcheck
      by_cases hnack : q.nackTimer ≤ now ∨ q.lastNACK ≠ q.receiverNextExpectedSeq
      · rw [if_pos hnack] at hcheck
        have hcase : verdict = .nack ∧ r.receiverNextExpectedSeq = q.nackSeq hw ∧
            r.nackTimer = now + hw.nackInterval ∧ r.lastNACK = u32 q.receiverNextExpectedSeq := by
          split_ifs at hcheck with hback hchunk <;> cases hcheck <;> simp [nackSeq, hback]
        obtain ⟨rfl, hnext, htimer, hlast⟩ := hcase
        simp only [reduceCtorEq, or_self, if_false, hnext]
        exact .nack hlt hnack hnext htimer hlast
      · rw [if_neg hnack] at hcheck
        cases hcheck
        exact .ignored hseq (fun _ => hnack) rfl rfl rfl
    · rw [if_neg hlt] at hcheck
      cases hcheck
      exact .ignored hseq (fun h => absurd h hlt) rfl rfl rfl

end RdmaRxQueuePair

/-- A packet and the time at which it arrives. -/
structure Arrival where
  now : Nat
  packet : DataPacket

/-- A NACK: when it was generated and which sequence number was expected then. -/
structure Nack where
  time : Nat
  expected : Nat
  deriving DecidableEq

/-- The receiving queue pair, the calls of `m_perPktFn` that carry bytes, each with its sequence number,
and the NACKs generated. -/
structure Receiver where
  rxQp : RdmaRxQueuePair
  now : Nat
  handed : List (Nat × List UInt8)
  nacks : List Nack

namespace Receiver

def initial : Receiver where
  rxQp := .initial
  now := 0
  handed := []
  nacks := []

/-- Time does not go back. -/
def step (hw : RdmaHw) (s : Receiver) (a : Arrival) : Option Receiver :=
  if s.now ≤ a.now then
    (s.rxQp.receiveUdp hw a.now a.packet).map fun (rxQp, handed, reply) =>
      { rxQp := rxQp
        now := a.now
        handed := if handed = [] then s.handed else s.handed ++ [(a.packet.seq, handed)]
        nacks := s.nacks ++ (reply.filter AckPacket.nack).map fun _ =>
          ⟨a.now, s.rxQp.receiverNextExpectedSeq⟩ }
  else none

/-- The bytes passed to `m_perPktFn`. -/
def delivered (s : Receiver) : List UInt8 := s.handed.flatMap Prod.snd

/-- The positions in the stream of the bytes passed to `m_perPktFn`. -/
def positions (s : Receiver) : List Nat :=
  s.handed.flatMap fun call => List.range' call.1 call.2.length

/-- All that one arrival can do. -/
inductive Step (hw : RdmaHw) (s : Receiver) (a : Arrival) : Receiver → Prop
  | inOrder {t : Receiver} (hseq : a.packet.seq = s.rxQp.receiverNextExpectedSeq)
      (hnext : t.rxQp.receiverNextExpectedSeq =
        u64 (s.rxQp.receiverNextExpectedSeq + a.packet.payload.length))
      (htimer : t.rxQp.nackTimer = s.rxQp.nackTimer) (hlast : t.rxQp.lastNACK = s.rxQp.lastNACK)
      (hpositions : t.positions = s.positions ++ List.range' a.packet.seq a.packet.payload.length)
      (hdelivered : t.delivered = s.delivered ++ a.packet.payload)
      (hnacks : t.nacks = s.nacks) : Step hw s a t
  | nack {t : Receiver} (hseq : s.rxQp.receiverNextExpectedSeq < a.packet.seq)
      (hnack : s.rxQp.NacksAt a.now) (hnext : t.rxQp.receiverNextExpectedSeq = s.rxQp.nackSeq hw)
      (htimer : t.rxQp.nackTimer = a.now + hw.nackInterval)
      (hlast : t.rxQp.lastNACK = u32 s.rxQp.receiverNextExpectedSeq)
      (hhanded : t.handed = s.handed)
      (hnacks : t.nacks = s.nacks ++ [⟨a.now, s.rxQp.receiverNextExpectedSeq⟩]) : Step hw s a t
  | ignored {t : Receiver} (hseq : a.packet.seq ≠ s.rxQp.receiverNextExpectedSeq)
      (hsuppressed : s.rxQp.receiverNextExpectedSeq < a.packet.seq → ¬ s.rxQp.NacksAt a.now)
      (hnext : t.rxQp.receiverNextExpectedSeq = s.rxQp.receiverNextExpectedSeq)
      (htimer : t.rxQp.nackTimer = s.rxQp.nackTimer) (hlast : t.rxQp.lastNACK = s.rxQp.lastNACK)
      (hhanded : t.handed = s.handed) (hnacks : t.nacks = s.nacks) : Step hw s a t

theorem step_cases {hw : RdmaHw} {s t : Receiver} {a : Arrival} (h : step hw s a = some t) :
    (s.now ≤ a.now ∧ t.now = a.now) ∧ Step hw s a t := by
  rw [step] at h
  by_cases hnow : s.now ≤ a.now
  · rw [if_pos hnow, Option.map_eq_some_iff] at h
    obtain ⟨⟨rxQp, handed, reply⟩, hreceive, rfl⟩ := h
    refine ⟨⟨hnow, rfl⟩, ?_⟩
    cases RdmaRxQueuePair.received hreceive with
    | inOrder hseq hnext htimer hlast hreply =>
        have hnone : reply.filter AckPacket.nack = [] := by
          rw [List.filter_eq_nil_iff]
          intro r hr
          simp [hreply r hr]
        apply Step.inOrder hseq hnext htimer hlast
        · by_cases hempty : a.packet.payload = []
          · simp [positions, hempty]
          · simp [positions, hempty]
        · by_cases hempty : a.packet.payload = []
          · simp [delivered, hempty]
          · simp [delivered, hempty]
        · simp [hnone]
    | nack hseq hnack hnext htimer hlast => exact .nack hseq hnack hnext htimer hlast rfl (by simp)
    | ignored hseq hsuppressed hnext htimer hlast =>
        exact .ignored hseq hsuppressed hnext htimer hlast rfl (by simp)
  · rw [if_neg hnow] at h
    cases h

/-! ### Exactly once, in order -/

/-- Each byte of the stream so far, once and in order. -/
def Consecutive (s : Receiver) : Prop := s.positions = List.range s.delivered.length

/-- A packet with bytes is taken only where the bytes handed over so far end. -/
def Continues (s : Receiver) (a : Arrival) : Prop :=
  a.packet.seq = s.rxQp.receiverNextExpectedSeq → a.packet.payload ≠ [] →
    s.rxQp.receiverNextExpectedSeq = s.delivered.length

theorem range'_eq_iff (i j n : Nat) : List.range' i n = List.range' j n ↔ (n ≠ 0 → i = j) := by
  cases n with
  | zero => simp
  | succ n =>
      constructor
      · intro h _
        rw [List.range'_succ, List.range'_succ, List.cons.injEq] at h
        exact h.1
      · intro h
        rw [h (Nat.succ_ne_zero n)]

theorem consecutive_step_iff {hw : RdmaHw} {s t : Receiver} {a : Arrival} (hs : s.Consecutive)
    (hstep : step hw s a = some t) : t.Consecutive ↔ s.Continues a := by
  have hsame (hhanded : t.handed = s.handed) : t.Consecutive := by
    rw [Consecutive, positions, delivered, hhanded]
    exact hs
  cases (step_cases hstep).2 with
  | inOrder hseq hnext htimer hlast hpositions hdelivered hnacks =>
      have hrange : (List.range a.packet.payload.length).map (s.delivered.length + ·) =
          List.range' s.delivered.length a.packet.payload.length := by
        rw [List.range_eq_range', List.map_add_range', Nat.add_zero]
      rw [Consecutive, hpositions, hdelivered, hs, List.length_append, List.range_add,
        List.append_cancel_left_eq, hrange, range'_eq_iff, Continues, ← hseq, ne_eq,
        List.length_eq_zero_iff]
      simp only [true_implies]
  | nack hseq hnack hnext htimer hlast hhanded hnacks =>
      apply iff_of_true (hsame hhanded)
      intro heq
      omega
  | ignored hseq hsuppressed hnext htimer hlast hhanded hnacks =>
      exact iff_of_true (hsame hhanded) fun heq => absurd heq hseq

/-- The payload is what stands in the byte stream at the sequence number. -/
def IsSlice (stream : Nat → UInt8) (p : DataPacket) : Prop :=
  p.payload = (List.range' p.seq p.payload.length).map stream

/-- The bytes handed over are the first bytes of the stream, each once. -/
structure InOrder (stream : Nat → UInt8) (s : Receiver) : Prop where
  consecutive : s.Consecutive
  delivered : s.delivered = (List.range s.delivered.length).map stream

theorem delivered_eq {hw : RdmaHw} {stream : Nat → UInt8} {s t : Receiver} {as : List Arrival}
    (hslice : ∀ a ∈ as, IsSlice stream a.packet) (hrun : Run (step hw) anyEvent s as t)
    (hs : s.delivered = s.positions.map stream) : t.delivered = t.positions.map stream := by
  induction hrun with
  | nil s => exact hs
  | @cons s t u a as _ hstep _ ih =>
      rw [List.forall_mem_cons] at hslice
      apply ih hslice.2
      have hsame (hhanded : t.handed = s.handed) : t.delivered = t.positions.map stream := by
        rw [Receiver.delivered, positions, hhanded]
        exact hs
      cases (step_cases hstep).2 with
      | inOrder hseq hnext htimer hlast hpositions hdelivered hnacks =>
          rw [hdelivered, hpositions, List.map_append, ← hs]
          exact congrArg _ hslice.1
      | nack hseq hnack hnext htimer hlast hhanded hnacks => exact hsame hhanded
      | ignored hseq hsuppressed hnext htimer hlast hhanded hnacks => exact hsame hhanded

/-- In the runs whose packets continue what was handed over, and in no others, the bytes handed over
are always a prefix of the stream, each byte once. -/
theorem inOrder_iff {hw : RdmaHw} {stream : Nat → UInt8} {as : List Arrival} {s : Receiver}
    (hslice : ∀ a ∈ as, IsSlice stream a.packet)
    (hrun : Run (step hw) anyEvent initial as s) :
    (∀ bs cs u, as = bs ++ cs → Run (step hw) anyEvent initial bs u → u.InOrder stream) ↔
      Run (step hw) Continues initial as s := by
  have hconsecutive := Run.guarded_iff (I := Consecutive) (P := Consecutive)
    (fun _ h => h) (fun s a t hs hok hstep => (consecutive_step_iff hs hstep).mpr hok)
    (fun s a t hs hnot hstep hcons => hnot ((consecutive_step_iff hs hstep).mp hcons)) hrun rfl
  rw [← hconsecutive]
  constructor
  · intro h bs cs u heq hbs
    exact (h bs cs u heq hbs).consecutive
  · intro h bs cs u heq hbs
    have hcons := h bs cs u heq hbs
    refine ⟨hcons, ?_⟩
    rw [← hcons]
    refine delivered_eq (fun a ha => hslice a ?_) hbs rfl
    rw [heq]
    exact List.mem_append_left _ ha

/-- The receiver does not go back: a NACK leaves the expected number where it is, and the stream ends
below `2 ^ 64`. -/
def Forward (hw : RdmaHw) (s : Receiver) (a : Arrival) : Prop :=
  (s.rxQp.receiverNextExpectedSeq < a.packet.seq → s.rxQp.NacksAt a.now →
      s.rxQp.nackSeq hw = s.rxQp.receiverNextExpectedSeq) ∧
    a.packet.seq + a.packet.payload.length < 2 ^ 64

instance (s : Receiver) (a : Arrival) : Decidable (s.Continues a) :=
  inferInstanceAs (Decidable (_ → _ → _))

instance (stream : Nat → UInt8) (p : DataPacket) : Decidable (IsSlice stream p) :=
  inferInstanceAs (Decidable (_ = _))

instance (stream : Nat → UInt8) (s : Receiver) : Decidable (s.InOrder stream) :=
  decidable_of_iff (s.positions = List.range s.delivered.length ∧
      s.delivered = (List.range s.delivered.length).map stream)
    ⟨fun h => ⟨h.1, h.2⟩, fun h => ⟨h.1, h.2⟩⟩

/-- A slice of the stream whose bytes are their positions. -/
def sliceAt (seq size : Nat) : DataPacket where
  seq := seq
  mscclFlowId := 0
  payload := (List.range' seq size).map Nat.toUInt8

/-- Chunks of four bytes. -/
def chunked (backto0 : Bool) : RdmaHw where
  mtu := 2
  ackInterval := 1
  chunk := 4
  backto0 := backto0
  nackInterval := 500000

/-- A packet overtakes two others; the one in front of the gap comes again. -/
def overtaking : List Arrival :=
  [⟨0, sliceAt 0 2⟩, ⟨1, sliceAt 6 2⟩, ⟨2, sliceAt 0 2⟩, ⟨3, sliceAt 2 2⟩, ⟨4, sliceAt 4 2⟩,
   ⟨5, sliceAt 6 2⟩]

theorem overtaking_inOrder : ∃ s, Run (step (chunked false)) anyEvent initial overtaking s ∧
    ∀ bs cs u, overtaking = bs ++ cs → Run (step (chunked false)) anyEvent initial bs u →
      u.InOrder Nat.toUInt8 := by
  obtain ⟨s, hrun, -⟩ := exists_run (step (chunked false)) Continues
    (fun s => s.delivered.length = 8) initial overtaking (by decide)
  exact ⟨s, hrun.any, (inOrder_iff (by decide) hrun.any).mpr hrun⟩

/-- The same arrivals with `L2BackToZero`: the first two bytes are handed over twice. -/
theorem overtaking_not_inOrder : (∀ a ∈ overtaking, IsSlice Nat.toUInt8 a.packet) ∧
    ∃ s, Run (step (chunked true)) anyEvent initial overtaking s ∧ ¬ s.InOrder Nat.toUInt8 := by
  constructor
  · decide
  · exact exists_run (step (chunked true)) anyEvent (fun s => ¬ s.InOrder Nat.toUInt8) initial
      overtaking (by decide)

end Receiver

end CollectiveSim.Rdma
