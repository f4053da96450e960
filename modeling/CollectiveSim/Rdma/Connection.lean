import Mathlib
import CollectiveSim.Framework.Run
import CollectiveSim.Rdma.QueuePair

/-!
# One connection as an event machine

The receiving queue pair, the handlers of `RdmaHw` at both ends, and the connection they form with
the network between them. An event names every choice that the code leaves to the rest of the
simulation: which packet arrives, when, and what the congestion window is.
-/

namespace CollectiveSim.Rdma

open Framework

structure RdmaRxQueuePair where
  receiverNextExpectedSeq : Nat
  nackTimer : Nat
  milestoneRx : Int
  lastNACK : Nat
  deriving DecidableEq

/-- What `ReceiverCheckSeq` decides; the source returns 1 to 5 in this order. -/
inductive SeqVerdict
  | ack
  | nack
  | duplicate
  | nackSuppressed
  | inOrder
  deriving DecidableEq

/-- An ACK packet (`l3Prot` 0xFC) or a NACK packet (0xFD). -/
structure AckPacket where
  nack : Bool
  seq : Nat
  deriving DecidableEq

namespace RdmaRxQueuePair

def initial : RdmaRxQueuePair := ⟨0, 0, 0, 0⟩

/-- `RdmaHw::ReceiverCheckSeq`. The result is `none` where the source divides by `m_chunk = 0`. -/
def receiverCheckSeq (hw : RdmaHw) (now seq size : Nat) (q : RdmaRxQueuePair) :
    Option (SeqVerdict × RdmaRxQueuePair) :=
  let expected := q.receiverNextExpectedSeq
  if seq = expected then
    let next := u64 (expected + size)
    if hw.ackInterval = 0 then
      some (.inOrder, { q with receiverNextExpectedSeq := next })
    else if toU64 q.milestoneRx ≤ next then
      some (.ack, { q with
        receiverNextExpectedSeq := next
        milestoneRx := i32 (q.milestoneRx + hw.ackInterval.toNat) })
    else if hw.chunk = 0 then
      none
    else if next % hw.chunk.toNat = 0 then
      some (.ack, { q with receiverNextExpectedSeq := next })
    else
      some (.inOrder, { q with receiverNextExpectedSeq := next })
  else if expected < seq then
    if q.nackTimer ≤ now ∨ q.lastNACK ≠ expected then
      let q := { q with nackTimer := now + hw.nackInterval, lastNACK := u32 expected }
      if hw.backto0 then
        if hw.chunk = 0 then
          none
        else
          some (.nack, { q with
            receiverNextExpectedSeq := expected / hw.chunk.toNat * hw.chunk.toNat })
      else
        some (.nack, q)
    else
      some (.nackSuppressed, q)
  else
    some (.duplicate, q)

/-- `RdmaHw::ReceiveUdp`: the queue pair after the packet, the bytes handed to `m_perPktFn`, and the
ACK or NACK sent back. -/
def receiveUdp (hw : RdmaHw) (now : Nat) (p : DataPacket) (q : RdmaRxQueuePair) :
    Option (RdmaRxQueuePair × List UInt8 × List AckPacket) := do
  let (verdict, q) ← receiverCheckSeq hw now p.seq p.payload.length
    { q with milestoneRx := i32 hw.ackInterval.toNat }
  let handed := if verdict = .ack ∨ verdict = .inOrder then p.payload else []
  let reply : List AckPacket :=
    match verdict with
    | .ack => [⟨false, q.receiverNextExpectedSeq⟩]
    | .nack => [⟨true, q.receiverNextExpectedSeq⟩]
    | _ => []
  return (q, handed, reply)

/-- Every way a packet can be received: its bytes are handed over exactly when it is the expected
one, and a reply repeats the sequence number expected afterwards. -/
theorem receiveUdp_cases {hw : RdmaHw} {now : Nat} {p : DataPacket} {q q' : RdmaRxQueuePair}
    {handed : List UInt8} {reply : List AckPacket} (hb : hw.backto0 = false)
    (h : receiveUdp hw now p q = some (q', handed, reply)) :
    (∀ a ∈ reply, a.seq = q'.receiverNextExpectedSeq) ∧
    ((p.seq = q.receiverNextExpectedSeq ∧ handed = p.payload ∧
        q'.receiverNextExpectedSeq = u64 (q.receiverNextExpectedSeq + p.payload.length)) ∨
      (p.seq ≠ q.receiverNextExpectedSeq ∧ handed = [] ∧
        q'.receiverNextExpectedSeq = q.receiverNextExpectedSeq)) := by
  simp only [receiveUdp, Option.bind_eq_bind, Option.pure_def, Option.bind_eq_some_iff,
    Option.some.injEq, Prod.exists, Prod.mk.injEq] at h
  obtain ⟨verdict, r, hcheck, rfl, rfl, rfl⟩ := h
  refine ⟨?_, ?_⟩
  · intro a ha
    cases verdict <;> simp_all
  · simp only [receiverCheckSeq, hb] at hcheck
    split at hcheck
    · rename_i heq
      refine .inl ⟨heq, ?_⟩
      repeat' split at hcheck
      all_goals
        simp only [Option.some.injEq, Prod.mk.injEq, reduceCtorEq] at hcheck
      all_goals
        obtain ⟨rfl, rfl⟩ := hcheck
        exact ⟨by simp, rfl⟩
    · rename_i hne
      refine .inr ⟨hne, ?_⟩
      repeat' split at hcheck
      all_goals
        simp only [Option.some.injEq, Prod.mk.injEq, reduceCtorEq] at hcheck
      all_goals
        first
          | contradiction
          | obtain ⟨rfl, rfl⟩ := hcheck
            exact ⟨by simp, rfl⟩

theorem receiveUdp_reply_nil {hw : RdmaHw} {now : Nat} {p : DataPacket} {q q' : RdmaRxQueuePair}
    {handed : List UInt8} {reply : List AckPacket} (hack : hw.ackInterval = 0)
    (hseq : p.seq = q.receiverNextExpectedSeq)
    (h : receiveUdp hw now p q = some (q', handed, reply)) :
    reply = [] ∧ handed = p.payload ∧
      q'.receiverNextExpectedSeq = u64 (q.receiverNextExpectedSeq + p.payload.length) := by
  simp [receiveUdp, receiverCheckSeq, hack, hseq] at h
  obtain ⟨rfl, rfl, rfl⟩ := h
  simp

end RdmaRxQueuePair

namespace RdmaQueuePair

/-- Remove the finished messages from the queue; the list is what `FinishMessage` fires. -/
def finishMessages (qp : RdmaQueuePair) : List RdmaMessage × RdmaQueuePair :=
  let (fired, left) := completeMessages qp.sndUna qp.messages
  (fired, { qp with messages := left })

/-- `RdmaHw::SendPacketComplete`. A closed queue pair is no longer found by `GetQp`. -/
def sendPacketComplete (hw : RdmaHw) (p : DataPacket) (qp : RdmaQueuePair) :
    List RdmaMessage × RdmaQueuePair :=
  if qp.closed then ([], qp)
  else if hw.ackInterval = 0 then
    let (fired, qp) := (qp.acknowledge (u32 (u32 p.seq + p.payload.length))).finishMessages
    (fired, qp.autoComplete)
  else ([], qp)

/-- The acknowledging part of `RdmaHw::ReceiveAck`; `none` where `m_chunk = 0` is divided by. -/
def ackMessages (hw : RdmaHw) (a : AckPacket) (qp : RdmaQueuePair) :
    Option (List RdmaMessage × RdmaQueuePair) :=
  if hw.ackInterval = 0 then some ([], qp)
  else if hw.backto0 && hw.chunk == 0 then none
  else
    let seq := if hw.backto0 then a.seq / hw.chunk.toNat * hw.chunk.toNat else a.seq
    let (fired, qp) := (qp.acknowledge seq).finishMessages
    some (fired, qp.autoComplete)

/-- `RdmaHw::ReceiveAck` up to the congestion control. -/
def receiveAck (hw : RdmaHw) (a : AckPacket) (qp : RdmaQueuePair) :
    Option (List RdmaMessage × RdmaQueuePair) :=
  if qp.closed then some ([], qp)
  else (qp.ackMessages hw a).map fun (fired, qp) =>
    (fired, if a.nack then qp.recoverQueue else qp)

end RdmaQueuePair

/-- A connection, its packets in flight in the order of their emission, and what has been observed
of it: `pushed` and `finished` record the `PushMessage` calls and the finish callbacks. -/
structure Connection where
  qp : RdmaQueuePair
  rxQp : RdmaRxQueuePair
  inTx : Option DataPacket
  wire : List DataPacket
  acks : List AckPacket
  pushed : List RdmaMessage
  finished : List RdmaMessage
  delivered : List UInt8

namespace Connection

inductive Event
  /-- `PushMessage` -/
  | push (size : UInt64) (srcDataPtr : Option (Int → UInt8)) (mscclFlowId : UInt32)
  /-- the NIC selects the queue pair and starts to transmit its next packet -/
  | send (win : Nat)
  /-- the transmission ends: `SendCallback` -/
  | sent
  | drop (i : Nat)
  | arrive (i now : Nat)
  | dropAck (i : Nat)
  | ackArrive (i : Nat)

def initial (autoClose : Bool) (mscclFlowId : Nat) : Connection where
  qp := ⟨[], 0, 0, mscclFlowId, autoClose, false⟩
  rxQp := .initial
  inTx := none
  wire := []
  acks := []
  pushed := []
  finished := []
  delivered := []

def push (c : Connection) (size : Nat) (srcDataPtr : Option (Int → UInt8)) (mscclFlowId : Nat) :
    Connection :=
  { c with
    qp := c.qp.pushMessage size srcDataPtr mscclFlowId
    pushed := c.pushed ++ [⟨size, c.qp.nextStartSeq, srcDataPtr, mscclFlowId⟩] }

/-- `GetNextQindex` selects a queue pair only with bytes left and an open window. -/
def send (hw : RdmaHw) (win : Nat) (c : Connection) : Option Connection :=
  if c.inTx = none ∧ 0 < c.qp.getBytesLeft ∧ c.qp.isWinBound win = false then
    some { c with inTx := some (c.qp.getNxtPacket hw).1, qp := (c.qp.getNxtPacket hw).2 }
  else none

def sent (hw : RdmaHw) (c : Connection) : Option Connection :=
  c.inTx.map fun p =>
    { c with
      inTx := none
      wire := c.wire ++ [p]
      finished := c.finished ++ (c.qp.sendPacketComplete hw p).1
      qp := (c.qp.sendPacketComplete hw p).2 }

def drop (i : Nat) (c : Connection) : Option Connection :=
  if i < c.wire.length then some { c with wire := c.wire.eraseIdx i } else none

def arrive (hw : RdmaHw) (i now : Nat) (c : Connection) : Option Connection := do
  let p ← c.wire[i]?
  let (rxQp, handed, reply) ← c.rxQp.receiveUdp hw now p
  return { c with
    rxQp := rxQp
    wire := c.wire.eraseIdx i
    acks := c.acks ++ reply
    delivered := c.delivered ++ handed }

def dropAck (i : Nat) (c : Connection) : Option Connection :=
  if i < c.acks.length then some { c with acks := c.acks.eraseIdx i } else none

def ackArrive (hw : RdmaHw) (i : Nat) (c : Connection) : Option Connection := do
  let a ← c.acks[i]?
  let (fired, qp) ← c.qp.receiveAck hw a
  return { c with qp := qp, acks := c.acks.eraseIdx i, finished := c.finished ++ fired }

def step (hw : RdmaHw) (c : Connection) : Event → Option Connection
  | .push size srcDataPtr mscclFlowId =>
      some (c.push size.toNat srcDataPtr mscclFlowId.toNat)
  | .send win => c.send hw win
  | .sent => c.sent hw
  | .drop i => c.drop i
  | .arrive i now => c.arrive hw i now
  | .dropAck i => c.dropAck i
  | .ackArrive i => c.ackArrive hw i

end Connection

end CollectiveSim.Rdma
