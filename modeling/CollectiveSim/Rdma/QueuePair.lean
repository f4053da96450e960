import Mathlib
import CollectiveSim.Framework.MachineInt

/-!
# The sending queue pair

`RdmaQueuePair` with its queue of messages, and the part of `RdmaHw` that builds data packets from
it. Sequence numbers are unsigned 64-bit.
-/

namespace CollectiveSim.Rdma

open Framework

/-- The attributes of `RdmaHw` that the two ends of a connection read. -/
structure RdmaHw where
  mtu : UInt32
  ackInterval : UInt32
  chunk : UInt32
  backto0 : Bool
  nackInterval : Nat

/-- One transfer on a persistent queue pair. `srcDataPtr` is the memory around the source pointer,
`none` for the null pointer. -/
structure RdmaMessage where
  size : Nat
  startSeq : Nat
  srcDataPtr : Option (Int → UInt8)
  mscclFlowId : Nat

/-- A data packet: the fields of its headers that the receiver reads, and its payload. -/
structure DataPacket where
  seq : Nat
  mscclFlowId : Nat
  payload : List UInt8
  deriving DecidableEq

structure RdmaQueuePair where
  messages : List RdmaMessage
  sndNxt : Nat
  sndUna : Nat
  mscclFlowId : Nat
  autoClose : Bool
  closed : Bool

/-- `Create<Packet>` without data is a packet of zero bytes. -/
def readSource (srcDataPtr : Option (Int → UInt8)) (offset : Int) : UInt8 :=
  match srcDataPtr with
  | none => 0
  | some memory => memory offset

namespace RdmaMessage

/-- The bytes of the whole message. -/
def bytes (m : RdmaMessage) : List UInt8 :=
  (List.range m.size).map fun i : Nat => readSource m.srcDataPtr i

@[simp] theorem bytes_length (m : RdmaMessage) : m.bytes.length = m.size := by
  simp [bytes]

end RdmaMessage

namespace RdmaQueuePair

variable (qp : RdmaQueuePair)

/-- The start of the next message: where the queue ends, or `snd_nxt` when it is empty. -/
def nextStartSeq : Nat :=
  match qp.messages.getLast? with
  | none => qp.sndNxt
  | some back => u64 (back.startSeq + back.size)

def pushMessage (size : Nat) (srcDataPtr : Option (Int → UInt8)) (mscclFlowId : Nat) :
    RdmaQueuePair :=
  { qp with messages := qp.messages ++ [⟨size, qp.nextStartSeq, srcDataPtr, mscclFlowId⟩] }

def getCurSrcDataPtr : Option (Int → UInt8) :=
  match qp.messages with
  | [] => none
  | front :: _ => front.srcDataPtr

def getCurMscclFlowId : Nat :=
  match qp.messages with
  | [] => qp.mscclFlowId
  | front :: _ => front.mscclFlowId

def getBytesLeft : Nat :=
  match qp.messages with
  | [] => 0
  | front :: _ =>
      if qp.sndNxt ≤ u64 (front.startSeq + front.size) then
        u64 (front.startSeq + front.size) - qp.sndNxt
      else 0

def acknowledge (ack : Nat) : RdmaQueuePair :=
  if qp.sndUna < ack then { qp with sndUna := ack } else qp

def getOnTheFly : Nat := toU64 ((qp.sndNxt : Int) - qp.sndUna)

/-- `w` is the value of `GetWin`, which the congestion control may change between any two packets. -/
def isWinBound (w : Nat) : Bool := decide (w ≠ 0 ∧ w ≤ qp.getOnTheFly)

def isFinished : Bool := qp.messages.isEmpty

/-- `RdmaHw::RecoverQueue`. -/
def recoverQueue : RdmaQueuePair := { qp with sndNxt := qp.sndUna }

/-- `while (!messages.empty() && IsCurMessageFinished()) QpCompleteMessage(qp)`: the messages whose
finish callback fires, and those that stay queued. -/
def completeMessages (sndUna : Nat) : List RdmaMessage → List RdmaMessage × List RdmaMessage
  | [] => ([], [])
  | front :: rest =>
      if u64 (front.startSeq + front.size) ≤ sndUna then
        let (fired, left) := completeMessages sndUna rest
        (front :: fired, left)
      else ([], front :: rest)

/-- `RdmaHw::QpComplete` as the automatic teardown calls it, with an empty message queue. -/
def autoComplete : RdmaQueuePair :=
  if qp.autoClose && qp.isFinished then { qp with closed := true } else qp

/-- `RdmaHw::GetNxtPacket`: the packet at `snd_nxt`, and the queue pair after it. -/
def getNxtPacket (hw : RdmaHw) : DataPacket × RdmaQueuePair :=
  let payloadSize := min hw.mtu.toNat qp.getBytesLeft
  let offset : Int := (qp.sndNxt : Int) - (qp.messages.head?.map (·.startSeq)).getD 0
  ({ seq := qp.sndNxt
     mscclFlowId := qp.getCurMscclFlowId
     payload := (List.range payloadSize).map fun i : Nat =>
       readSource qp.getCurSrcDataPtr (offset + i) },
   { qp with sndNxt := u64 (qp.sndNxt + payloadSize) })

@[simp] theorem acknowledge_messages (ack : Nat) : (qp.acknowledge ack).messages = qp.messages := by
  unfold acknowledge
  split <;> rfl

@[simp] theorem acknowledge_sndNxt (ack : Nat) : (qp.acknowledge ack).sndNxt = qp.sndNxt := by
  unfold acknowledge
  split <;> rfl

@[simp] theorem acknowledge_sndUna (ack : Nat) :
    (qp.acknowledge ack).sndUna = max qp.sndUna ack := by
  unfold acknowledge
  split
  · exact (Nat.max_eq_right (Nat.le_of_lt ‹_›)).symm
  · exact (Nat.max_eq_left (Nat.not_lt.mp ‹_›)).symm

@[simp] theorem autoComplete_messages : qp.autoComplete.messages = qp.messages := by
  unfold autoComplete
  split <;> rfl

@[simp] theorem autoComplete_sndNxt : qp.autoComplete.sndNxt = qp.sndNxt := by
  unfold autoComplete
  split <;> rfl

@[simp] theorem autoComplete_sndUna : qp.autoComplete.sndUna = qp.sndUna := by
  unfold autoComplete
  split <;> rfl

/-- The completion loop splits the queue, and every message it fires ends at or below `snd_una`. -/
theorem completeMessages_append (sndUna : Nat) (messages : List RdmaMessage) :
    (completeMessages sndUna messages).1 ++ (completeMessages sndUna messages).2 = messages := by
  induction messages with
  | nil => rfl
  | cons front rest ih =>
      unfold completeMessages
      split
      · exact congrArg (front :: ·) ih
      · rfl

end RdmaQueuePair

end CollectiveSim.Rdma
