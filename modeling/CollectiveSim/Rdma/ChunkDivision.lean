import CollectiveSim.Rdma.Receiver

/-!
# Divisions by the chunk size

`L2ChunkSize` is a divisor for every packet that is acknowledged at a chunk boundary and for every
return to one, also when it is 0.
-/

namespace CollectiveSim.Rdma

open Framework

namespace RdmaRxQueuePair

/-- The arrival of this packet is answered with the help of the chunk size. -/
def UsesChunk (hw : RdmaHw) (now : Nat) (p : DataPacket) (q : RdmaRxQueuePair) : Prop :=
  (p.seq = q.receiverNextExpectedSeq ∧ hw.ackInterval ≠ 0 ∧
      u64 (q.receiverNextExpectedSeq + p.payload.length) < toU64 (i32 hw.ackInterval.toNat)) ∨
    (q.receiverNextExpectedSeq < p.seq ∧ q.NacksAt now ∧ hw.backto0 = true)

theorem receiveUdp_eq_none_iff (hw : RdmaHw) (now : Nat) (p : DataPacket) (q : RdmaRxQueuePair) :
    receiveUdp hw now p q = none ↔ hw.chunk = 0 ∧ UsesChunk hw now p q := by
  have hcheck : receiveUdp hw now p q = none ↔
      receiverCheckSeq hw now p.seq p.payload.length
        { q with milestoneRx := i32 hw.ackInterval.toNat } = none := by
    cases h : receiverCheckSeq hw now p.seq p.payload.length
      { q with milestoneRx := i32 hw.ackInterval.toNat } with
    | none => simp [receiveUdp, h]
    | some r => simp [receiveUdp, h]
  rw [hcheck, receiverCheckSeq, UsesChunk, NacksAt]
  by_cases hseq : p.seq = q.receiverNextExpectedSeq
  · have hge : ¬ q.receiverNextExpectedSeq < p.seq := by omega
    simp only [hseq, if_true, Nat.lt_irrefl, false_and, or_false, true_and]
    split_ifs with hack hmilestone hchunk hmod
    · simp [hack]
    · simp [hmilestone]
    · simp [hchunk, hack, Nat.lt_of_not_le hmilestone]
    · simp [hchunk]
    · simp [hchunk]
  · simp only [hseq, if_false, false_and, false_or]
    split_ifs with hlt hnack hback hchunk
    · simp [hlt, hnack, hback, hchunk]
    · simp [hchunk]
    · simp [hback]
    · simp [hnack]
    · simp [hlt]

end RdmaRxQueuePair

theorem RdmaQueuePair.receiveAck_eq_none_iff (hw : RdmaHw) (a : AckPacket) (qp : RdmaQueuePair) :
    qp.receiveAck hw a = none ↔
      hw.chunk = 0 ∧ qp.closed = false ∧ hw.ackInterval ≠ 0 ∧ hw.backto0 = true := by
  rw [receiveAck]
  by_cases hclosed : qp.closed = true
  · simp [hclosed]
  · rw [if_neg hclosed, Option.map_eq_none_iff, ackMessages]
    split_ifs with hack hzero
    · simp [hack]
    · simpa [hclosed, hack, and_comm] using hzero
    · simpa [hclosed, hack, and_comm] using hzero

/-- The two ends of connections on one host: a receiving and a sending queue pair. -/
structure Endpoint where
  rxQp : RdmaRxQueuePair
  qp : RdmaQueuePair

namespace Endpoint

/-- What arrives: a data packet, or an ACK or NACK. -/
inductive Event
  | packet (now : Nat) (p : DataPacket)
  | ack (a : AckPacket)

def step (hw : RdmaHw) (s : Endpoint) : Event → Option Endpoint
  | .packet now p => (s.rxQp.receiveUdp hw now p).map fun r => { s with rxQp := r.1 }
  | .ack a => (s.qp.receiveAck hw a).map fun r => { s with qp := r.2 }

/-- The arrival needs the chunk size. -/
def UsesChunk (hw : RdmaHw) (s : Endpoint) : Event → Prop
  | .packet now p => s.rxQp.UsesChunk hw now p
  | .ack _ => s.qp.closed = false ∧ hw.ackInterval ≠ 0 ∧ hw.backto0 = true

/-- Where the chunk size is needed it is not 0. -/
def Divisible (hw : RdmaHw) (s : Endpoint) (e : Event) : Prop := s.UsesChunk hw e → hw.chunk ≠ 0

theorem step_eq_none_iff (hw : RdmaHw) (s : Endpoint) (e : Event) :
    step hw s e = none ↔ ¬ s.Divisible hw e := by
  rw [Divisible, Classical.not_imp, not_ne_iff, and_comm]
  cases e with
  | packet now p =>
      rw [step, Option.map_eq_none_iff]
      exact s.rxQp.receiveUdp_eq_none_iff hw now p
  | ack a =>
      rw [step, Option.map_eq_none_iff]
      exact s.qp.receiveAck_eq_none_iff hw a

/-- Chunk mode is on, or nothing that the other attributes turn on needs it. -/
def ChunkFree (hw : RdmaHw) : Prop := hw.ackInterval = 0 ∧ hw.backto0 = false

theorem divisible_of_chunkFree {hw : RdmaHw} (h : hw.chunk ≠ 0 ∨ ChunkFree hw) (s : Endpoint)
    (e : Event) : s.Divisible hw e := by
  rcases h with h | ⟨hack, hback⟩
  · exact fun _ => h
  · intro huse
    cases e with
    | packet now p =>
        rcases huse with ⟨-, hne, -⟩ | ⟨-, -, hb⟩
        · exact absurd hack hne
        · rw [hback] at hb
          cases hb
    | ack a => exact absurd hack huse.2.1

theorem toU64_milestone_pos {n : UInt32} (h : n ≠ 0) : 0 < toU64 (i32 n.toNat) := by
  have hlt := n.toNat_lt
  have hpos : 0 < n.toNat := Nat.pos_of_ne_zero fun hzero => h (UInt32.toNat_inj.mp hzero)
  rw [toU64, i32, Int.bmod]
  split
  · omega
  · omega

/-- A first packet that brings the receiver to a division. -/
def firstPacket (hw : RdmaHw) : Event :=
  .packet 0 ⟨if hw.ackInterval = 0 then 1 else 0, 0, []⟩

theorem usesChunk_firstPacket {hw : RdmaHw} (h : ¬ ChunkFree hw) (qp : RdmaQueuePair) :
    UsesChunk hw ⟨.initial, qp⟩ (firstPacket hw) := by
  by_cases hack : hw.ackInterval = 0
  · right
    have hback : hw.backto0 = true := by
      by_contra hnot
      exact h ⟨hack, Bool.eq_false_iff.mpr hnot⟩
    simp only [hack, if_true]
    exact ⟨Nat.zero_lt_one, Or.inl (Nat.zero_le _), hback⟩
  · left
    simp only [hack, if_false]
    exact ⟨rfl, hack, toU64_milestone_pos hack⟩

/-- Arrivals divide by zero exactly if one of them needs the chunk size and it is 0. No arrivals do so
if and only if there is a chunk size or neither ACKs nor returns to a chunk boundary are on. -/
theorem exec_ne_none (hw : RdmaHw) :
    (∀ (qp : RdmaQueuePair) (es : List Event), exec (step hw) ⟨.initial, qp⟩ es ≠ none ↔
      ∀ bs e cs s, es = bs ++ e :: cs → exec (step hw) ⟨.initial, qp⟩ bs = some s →
        s.Divisible hw e) ∧
    ((∀ (qp : RdmaQueuePair) (es : List Event), exec (step hw) ⟨.initial, qp⟩ es ≠ none) ↔
      hw.chunk ≠ 0 ∨ ChunkFree hw) := by
  have hall (qp : RdmaQueuePair) := exec_ne_none_iff (step_eq_none_iff hw) ⟨.initial, qp⟩
  refine ⟨hall, ?_⟩
  constructor
  · intro hexec
    by_contra hnot
    rw [not_or, not_ne_iff] at hnot
    have hqp : RdmaQueuePair := ⟨[], 0, 0, 0, false, false⟩
    have hok := (hall hqp _).mp (hexec hqp [firstPacket hw]) [] (firstPacket hw) [] _ rfl rfl
    exact hok (usesChunk_firstPacket hnot.2 hqp) hnot.1
  · intro h qp es
    rw [hall]
    intro bs e cs s _ _
    exact divisible_of_chunkFree h s e

/-- The first packet with ACKs on and the default chunk size. -/
theorem firstPacket_divides :
    exec (step { mtu := 1, ackInterval := 2, chunk := 0, backto0 := false, nackInterval := 500000 })
      ⟨.initial, ⟨[], 0, 0, 0, false, false⟩⟩ [.packet 0 ⟨0, 0, [7]⟩] = none := by
  decide

end Endpoint

end CollectiveSim.Rdma
