import Mathlib
import CollectiveSim.Rdma.Accounting

/-!
# Packets in flight on an orderly network

As long as packets arrive in the order of their emission, the packets in flight lead from the sequence
number that the receiver expects to the one that is sent next.
-/

namespace CollectiveSim.Rdma.Connection

open Framework

/-- Packets that carry the stream `s` from `i` to `j` without a gap. -/
def Chain (s : List UInt8) : Nat → List DataPacket → Nat → Prop
  | i, [], j => i = j
  | i, p :: ps, j => p.seq = i ∧ SliceAt s i p.payload ∧ Chain s (i + p.payload.length) ps j

namespace Chain

variable {s : List UInt8} {i j : Nat} {ps : List DataPacket} {p : DataPacket}

theorem append_right (h : Chain s i ps j) (t : List UInt8) : Chain (s ++ t) i ps j := by
  induction ps generalizing i with
  | nil => exact h
  | cons p ps ih => exact ⟨h.1, h.2.1.append_right t, ih h.2.2⟩

theorem snoc (h : Chain s i ps j) (hseq : p.seq = j) (hslice : SliceAt s j p.payload) :
    Chain s i (ps ++ [p]) (j + p.payload.length) := by
  induction ps generalizing i with
  | nil =>
      cases h
      exact ⟨hseq, hslice, rfl⟩
  | cons q ps ih => exact ⟨h.1, h.2.1, ih h.2.2⟩

theorem last_end (h : Chain s i (ps ++ [p]) j) : p.seq + p.payload.length = j := by
  induction ps generalizing i with
  | nil =>
      obtain ⟨hseq, -, hend⟩ := h
      rw [hseq]
      exact hend
  | cons q ps ih => exact ih h.2.2

theorem le (h : Chain s i ps j) : i ≤ j := by
  induction ps generalizing i with
  | nil => exact Nat.le_of_eq h
  | cons p ps ih => exact Nat.le_trans (Nat.le_add_right _ _) (ih h.2.2)

end Chain

/-- The packets in flight carry the stream from the expected sequence number to `snd_nxt`, which lies in
the front message. -/
structure InFlight (c : Connection) : Prop where
  accounted : Accounted c.pushed c.finished c.qp.messages c.qp.sndUna
  chain : Chain (stream c.pushed) c.rxQp.receiverNextExpectedSeq (c.wire ++ c.inTx.toList)
    c.qp.sndNxt
  sndUna_le : c.qp.sndUna ≤ c.qp.sndNxt
  sndNxt_le : c.qp.sndNxt ≤
    (stream c.finished).length + (c.qp.messages.head?.map RdmaMessage.size).getD 0

namespace InFlight

variable {c c' : Connection} {hw : RdmaHw}

theorem sndNxt_of_empty (h : InFlight c) (hempty : c.qp.messages = []) :
    c.qp.sndNxt = (stream c.pushed).length := by
  have hacc := h.accounted
  rw [hempty] at hacc
  have hpushed := hacc.empty_le
  have hfinished := hacc.stream_finished_le
  have hnxt := h.sndNxt_le
  have huna := h.sndUna_le
  rw [hempty] at hnxt
  simp only [List.head?_nil, Option.map_none, Option.getD_none] at hnxt
  omega

theorem front_end (h : InFlight c) {front : RdmaMessage} {rest : List RdmaMessage}
    (hmessages : c.qp.messages = front :: rest) :
    front.startSeq = (stream c.finished).length ∧ c.qp.sndNxt ≤ front.startSeq + front.size ∧
      front.startSeq + front.size ≤ (stream c.pushed).length ∧
      front.startSeq + front.size < 2 ^ 64 := by
  have hacc := h.accounted
  rw [hmessages] at hacc
  have hnxt := h.sndNxt_le
  rw [hmessages, ← hacc.front_start] at hnxt
  exact ⟨hacc.front_start, hnxt, hacc.front_end, Nat.lt_of_le_of_lt hacc.front_end hacc.fits⟩

theorem sndNxt_pushed (h : InFlight c) : c.qp.sndNxt ≤ (stream c.pushed).length := by
  cases hmessages : c.qp.messages with
  | nil => exact Nat.le_of_eq (h.sndNxt_of_empty hmessages)
  | cons front rest =>
      obtain ⟨-, hnxt, hend, -⟩ := h.front_end hmessages
      exact Nat.le_trans hnxt hend

theorem next_le (h : InFlight c) :
    c.rxQp.receiverNextExpectedSeq ≤ (stream c.pushed).length :=
  Nat.le_trans h.chain.le h.sndNxt_pushed

theorem push (h : InFlight c) (size : Nat) (srcDataPtr : Option (Int → UInt8)) (mscclFlowId : Nat)
    (hfits : (c.pushed.map RdmaMessage.size).sum + size < 2 ^ 64) :
    InFlight (c.push size srcDataPtr mscclFlowId) := by
  refine ⟨?_, ?_, h.sndUna_le, ?_⟩
  · apply h.accounted.push size srcDataPtr mscclFlowId h.sndNxt_of_empty
    rwa [stream_length]
  · simp only [Connection.push, stream_append]
    exact h.chain.append_right _
  · apply Nat.le_trans h.sndNxt_le
    simp only [Connection.push, RdmaQueuePair.pushMessage]
    cases c.qp.messages <;> simp

theorem send_cases {win : Nat} (hsend : c.send hw win = some c') :
    c.inTx = none ∧ 0 < c.qp.getBytesLeft ∧
      c' = { c with inTx := some (c.qp.getNxtPacket hw).1, qp := (c.qp.getNxtPacket hw).2 } := by
  rw [Connection.send] at hsend
  split at hsend
  · next hguard => exact ⟨hguard.1, hguard.2.1, (Option.some_inj.mp hsend).symm⟩
  · cases hsend

theorem send (h : InFlight c) {win : Nat} (hsend : c.send hw win = some c') : InFlight c' := by
  obtain ⟨htx, hleft, rfl⟩ := send_cases hsend
  obtain ⟨front, rest, hmessages⟩ := RdmaQueuePair.messages_ne_nil_of_getBytesLeft hleft
  obtain ⟨hfirst, -, -, hfits⟩ := h.front_end hmessages
  have hacc := h.accounted
  rw [hmessages] at hacc
  have hstart : front.startSeq ≤ c.qp.sndNxt := by
    rw [hfirst]
    exact Nat.le_trans hacc.finished_le h.sndUna_le
  obtain ⟨hseq, hend, hnxt, hslice⟩ := RdmaQueuePair.getNxtPacket_spec hw hmessages hfits hleft
  have hslice := hacc.front_sliceAt.trans (hslice hstart)
  rw [Nat.add_sub_cancel' hstart] at hslice
  have hchain := h.chain
  rw [htx, Option.toList_none, List.append_nil] at hchain
  refine ⟨h.accounted, ?_, ?_, ?_⟩
  · simp only [Option.toList_some, hnxt]
    exact hchain.snoc hseq hslice
  · simp only [RdmaQueuePair.getNxtPacket_sndUna, hnxt]
    exact Nat.le_trans h.sndUna_le (Nat.le_add_right _ _)
  · simp only [RdmaQueuePair.getNxtPacket_messages, hnxt, hmessages, List.head?_cons,
      Option.map_some, Option.getD_some]
    rwa [← hacc.front_start]

end InFlight

end CollectiveSim.Rdma.Connection
