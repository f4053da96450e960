import Mathlib
import CollectiveSim.Rdma.InFlight

/-!
# No-ack mode over paths of different delay

With `L2AckInterval = 0` a message is finished when its last packet leaves the sender. The packets
of one message share a path, so they arrive in order; packets of two messages need not.
-/

namespace CollectiveSim.Rdma

open Framework

/-- The port `SwitchNode::SendToDev` sends a UDP packet to: the rule of its MSCCL flow id when custom
forwarding is on and there is one, else the ECMP choice `outDev` of `GetOutDev`. -/
def selectOutDev (customFlowForwarding : Bool) (flowForwardingTable : List (Nat × Nat))
    (outDev : Int) (mscclFlowId : Nat) : Int :=
  let idx : Int :=
    if customFlowForwarding ∧ mscclFlowId ≠ 0xFFFFFFFF then
      match flowForwardingTable.lookup mscclFlowId with
      | some port => i32 port
      | none => -1
    else -1
  if idx < 0 then outDev else idx

namespace Connection

variable {Path : Type*}

/-- The path of a packet in flight, chosen by its flow id. -/
def pathAt (route : Nat → Path) (c : Connection) (i : Nat) : Option Path :=
  c.wire[i]?.map fun p => route p.mscclFlowId

/-- No packet is lost, and the packets on one path arrive in the order of their emission. -/
def LossFree (route : Nat → Path) (c : Connection) : Event → Prop
  | .drop _ => False
  | .arrive i _ => ∀ j < i, pathAt route c j ≠ pathAt route c i
  | _ => True

/-- No packet arrives before an earlier one on another path, and the pushed bytes stay below
`2 ^ 64`. -/
def Unovertaken (route : Nat → Path) (c : Connection) : Event → Prop
  | .arrive i _ => ∀ j < i, pathAt route c j = pathAt route c i
  | .push size _ _ => (c.pushed.map RdmaMessage.size).sum + size.toNat < 2 ^ 64
  | _ => True

instance [DecidableEq Path] (route : Nat → Path) (c : Connection) :
    (e : Event) → Decidable (LossFree route c e)
  | .arrive _ _ => inferInstanceAs (Decidable (∀ j < _, _ ≠ _))
  | .drop _ => .isFalse id
  | .push _ _ _ | .send _ | .sent | .dropAck _ | .ackArrive _ => .isTrue trivial

instance [DecidableEq Path] (route : Nat → Path) (c : Connection) :
    (e : Event) → Decidable (Unovertaken route c e)
  | .arrive _ _ => inferInstanceAs (Decidable (∀ j < _, _ = _))
  | .push _ _ _ => inferInstanceAs (Decidable (_ < _))
  | .send _ | .sent | .drop _ | .dropAck _ | .ackArrive _ => .isTrue trivial

/-- When no packet is in flight, the receiver has every byte of every finished message. -/
def AllHanded (c : Connection) : Prop :=
  c.inTx = none → c.wire = [] → stream c.finished <+: c.delivered

/-- Everything in flight continues the stream at the sequence number the receiver expects. -/
structure Streaming (c : Connection) : Prop where
  accounted : Accounted c.pushed c.finished c.qp.messages c.qp.sndUna
  chain : Chain (stream c.pushed) c.rxQp.receiverNextExpectedSeq (c.wire ++ c.inTx.toList)
    c.qp.sndNxt
  delivered_eq : c.delivered = (stream c.pushed).take c.rxQp.receiverNextExpectedSeq
  acks_nil : c.acks = []
  sndUna_le : c.qp.sndUna ≤ c.qp.sndNxt
  sndNxt_le : c.qp.sndNxt ≤
    (stream c.finished).length + (c.qp.messages.head?.map RdmaMessage.size).getD 0

namespace Streaming

variable {c c' : Connection} {hw : RdmaHw} {route : Nat → Path}

theorem initial (autoClose : Bool) (mscclFlowId : Nat) :
    Streaming (Connection.initial autoClose mscclFlowId) where
  accounted := ⟨rfl, trivial, Nat.two_pow_pos 64, Nat.le_refl _⟩
  chain := rfl
  delivered_eq := rfl
  acks_nil := rfl
  sndUna_le := Nat.le_refl _
  sndNxt_le := Nat.le_refl _

theorem allHanded (h : Streaming c) : AllHanded c := by
  intro htx hwire
  have hchain := h.chain
  rw [htx, hwire] at hchain
  have hnext : c.rxQp.receiverNextExpectedSeq = c.qp.sndNxt := hchain
  rw [h.delivered_eq, h.accounted.stream_finished_eq, hnext]
  exact List.take_prefix_take_left (Nat.le_trans h.accounted.finished_le h.sndUna_le)

theorem inFlight (h : Streaming c) : InFlight c :=
  ⟨h.accounted, h.chain, h.sndUna_le, h.sndNxt_le⟩

theorem push (h : Streaming c) (size : Nat) (srcDataPtr : Option (Int → UInt8))
    (mscclFlowId : Nat) (hfits : (c.pushed.map RdmaMessage.size).sum + size < 2 ^ 64) :
    Streaming (c.push size srcDataPtr mscclFlowId) := by
  have hnext := h.inFlight.next_le
  obtain ⟨haccounted, hchain, hsndUna, hsndNxt⟩ :=
    h.inFlight.push size srcDataPtr mscclFlowId hfits
  refine ⟨haccounted, hchain, ?_, h.acks_nil, hsndUna, hsndNxt⟩
  simp only [Connection.push, stream_append]
  rw [List.take_append_of_le_length hnext]
  exact h.delivered_eq

theorem send (h : Streaming c) {win : Nat} (hsend : c.send hw win = some c') : Streaming c' := by
  obtain ⟨haccounted, hchain, hsndUna, hsndNxt⟩ := h.inFlight.send hsend
  obtain ⟨-, -, rfl⟩ := InFlight.send_cases hsend
  exact ⟨haccounted, hchain, h.delivered_eq, h.acks_nil, hsndUna, hsndNxt⟩

theorem sent (h : Streaming c) (hsent : c.sent hw = some c') : Streaming c' := by
  unfold Connection.sent at hsent
  rw [Option.map_eq_some_iff] at hsent
  obtain ⟨p, htx, rfl⟩ := hsent
  have hchain := h.chain
  rw [htx, Option.toList_some] at hchain
  refine ⟨h.accounted.sendPacketComplete p, ?_, h.delivered_eq, h.acks_nil, ?_, ?_⟩
  · simpa using hchain
  · have hle := RdmaQueuePair.sendPacketComplete_sndUna_le hw p c.qp
    rw [hchain.last_end, Nat.max_eq_right h.sndUna_le] at hle
    simpa using hle
  · refine Nat.le_trans (Nat.le_of_eq (RdmaQueuePair.sendPacketComplete_sndNxt hw p c.qp)) ?_
    refine Nat.le_trans h.sndNxt_le ?_
    simp only [RdmaQueuePair.sendPacketComplete]
    split
    · simp
    · split
      · simpa [RdmaQueuePair.finishMessages] using
          RdmaQueuePair.completeMessages_head_le _ c.finished c.qp.messages
      · simp

theorem arrive (h : Streaming c) (hack : hw.ackInterval = 0) {now : Nat}
    (harrive : c.arrive hw 0 now = some c') : Streaming c' := by
  simp only [Connection.arrive, Option.bind_eq_bind, Option.pure_def, Option.bind_eq_some_iff,
    Option.some.injEq, Prod.exists] at harrive
  obtain ⟨p, hp, rxQp, handed, reply, hrecv, rfl⟩ := harrive
  cases hwire : c.wire with
  | nil =>
      rw [hwire] at hp
      cases hp
  | cons q rest =>
      rw [hwire] at hp
      cases hp
      have hchain := h.chain
      rw [hwire] at hchain
      obtain ⟨hseq, hslice, hrest⟩ := hchain
      obtain ⟨rfl, rfl, hnext⟩ := RdmaRxQueuePair.receiveUdp_reply_nil hack hseq hrecv
      have hend := hslice.end_le
      have hfits := h.accounted.fits
      rw [u64_of_lt (by omega)] at hnext
      refine ⟨h.accounted, ?_, ?_, ?_, h.sndUna_le, h.sndNxt_le⟩
      · simpa [hnext] using hrest
      · simp only [h.delivered_eq, hnext]
        exact hslice.take_append
      · simpa using h.acks_nil

theorem step (hack : hw.ackInterval = 0) (c : Connection) (e : Event) (c' : Connection)
    (h : Streaming c) (hok : LossFree route c e ∧ Unovertaken route c e)
    (hstep : c.step hw e = some c') : Streaming c' := by
  cases e with
  | push size srcDataPtr mscclFlowId =>
      cases hstep
      exact h.push _ _ _ hok.2
  | send win => exact h.send hstep
  | sent => exact h.sent hstep
  | drop i => exact absurd hok.1 id
  | arrive i now =>
      -- an earlier packet would be on the same path and on another one
      have hfirst : i = 0 := by
        by_contra hne
        exact hok.1 0 (Nat.pos_of_ne_zero hne) (hok.2 0 (Nat.pos_of_ne_zero hne))
      subst hfirst
      exact h.arrive hack hstep
  | dropAck i =>
      simp [Connection.step, Connection.dropAck, h.acks_nil] at hstep
  | ackArrive i =>
      simp [Connection.step, Connection.ackArrive, h.acks_nil] at hstep

end Streaming

/-- On a loss-free network where no packet overtakes one of another message, every byte of a finished
message is handed over. -/
theorem run_allHanded (hw : RdmaHw) (hack : hw.ackInterval = 0) (route : Nat → Path)
    (autoClose : Bool) (mscclFlowId : Nat) (es : List Event) (c : Connection)
    (hrun : Run (step hw) (fun c e => LossFree route c e ∧ Unovertaken route c e)
      (initial autoClose mscclFlowId) es c) : AllHanded c :=
  (hrun.invariant (Streaming.step hack) (Streaming.initial autoClose mscclFlowId)).allHanded

/-- One byte per packet and no acknowledgements. -/
def noAckHw : RdmaHw := ⟨1, 0, 1, false, 10⟩

/-- A switch with a forwarding rule for flow 1 and another one for flow 2. -/
def twoPorts : Nat → Int := selectOutDev true [(1, 3), (2, 4)] 3

/-- Two messages of one byte on the two ports; the first one arrives at `first`. -/
def twoFlows (first second : Nat) : List Event :=
  [.push 1 (some fun _ => 5) 1, .push 1 (some fun _ => 6) 2, .send 0, .sent, .send 0, .sent,
   .arrive first 1, .arrive second 2]

theorem twoFlows_allHanded :
    noAckHw.ackInterval = 0 ∧
      ∃ c, Run (step noAckHw) (fun c e => LossFree twoPorts c e ∧ Unovertaken twoPorts c e)
          (initial false 0) (twoFlows 0 0) c ∧
        (c.inTx = none ∧ c.wire = [] ∧ c.finished.length = 2 ∧ c.delivered = [5, 6]) ∧
        AllHanded c := by
  have hack : noAckHw.ackInterval = 0 := rfl
  obtain ⟨c, hrun, hc⟩ := exists_run (step noAckHw)
    (fun c e => LossFree twoPorts c e ∧ Unovertaken twoPorts c e)
    (fun c => c.inTx = none ∧ c.wire = [] ∧ c.finished.length = 2 ∧ c.delivered = [5, 6])
    (initial false 0) (twoFlows 0 0) (by decide +kernel)
  exact ⟨hack, c, hrun, hc, run_allHanded noAckHw hack twoPorts false 0 _ c hrun⟩

/-- When the second message is faster it is dropped, and its finish callback has fired all the
same; the NACK it causes makes the sender repeat nothing. -/
theorem twoFlows_not_allHanded :
    noAckHw.ackInterval = 0 ∧
      ∃ c, Run (step noAckHw) (LossFree twoPorts) (initial false 0)
          (twoFlows 1 0 ++ [.ackArrive 0]) c ∧
        c.finished.length = 2 ∧ c.delivered = [5] ∧ c.qp.getBytesLeft = 0 ∧ ¬ AllHanded c := by
  obtain ⟨c, hrun, hfinished, hdelivered, hleft, htx, hwire, hlen⟩ := exists_run (step noAckHw)
    (LossFree twoPorts)
    (fun c => c.finished.length = 2 ∧ c.delivered = [5] ∧ c.qp.getBytesLeft = 0 ∧
      c.inTx = none ∧ c.wire = [] ∧ (stream c.finished).length = 2)
    (initial false 0) (twoFlows 1 0 ++ [.ackArrive 0]) (by decide +kernel)
  refine ⟨rfl, c, hrun, hfinished, hdelivered, hleft, ?_⟩
  intro h
  have hle := (h htx hwire).length_le
  rw [hlen, hdelivered] at hle
  exact absurd hle (by decide)

end Connection

end CollectiveSim.Rdma
