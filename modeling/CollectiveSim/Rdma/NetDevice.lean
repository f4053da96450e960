import Mathlib
import CollectiveSim.Rdma.Connection

/-!
# The sending side of a host's device

`QbbNetDevice` of a host with its `RdmaEgressQueue`, and the handlers of `RdmaHw` that change the
queue pairs on it. Times are in nanoseconds. A handler calls `DequeueAndTransmit` last, if at all.
-/

namespace CollectiveSim.Rdma

open Framework

/-- The attributes of `RdmaHw` and of the device that the sending side reads; `headerSize` is what
`GetNxtPacket` puts around the payload. -/
structure NicConfig where
  hw : RdmaHw
  varWin : Bool
  rateBound : Bool
  dataRate : Nat
  interframeGap : Int
  headerSize : Nat

/-- `DataRate::CalculateBytesTxTime`, of a rate in bits a second. -/
def calculateBytesTxTime (rate bytes : Nat) : Int := (u32 (bytes * 8) * 10 ^ 9 / rate : Nat)

/-- `Simulator::GetMaximumSimulationTime`. -/
def maximumSimulationTime : Int := 0x7fffffffffffffff

/-- `RdmaEgressQueue::ack_q_idx`. -/
def ackQIdx : Nat := 3

/-- A queue pair with what the device reads of it. -/
structure NicQp extends RdmaQueuePair where
  pg : Nat
  win : Nat
  rate : Nat
  maxRate : Nat
  lastPktSize : Nat
  nextAvail : Int

namespace NicQp

variable (qp : NicQp)

def getWin (varWin : Bool) : Nat :=
  if qp.win = 0 then 0
  else if varWin then
    let w := u64 (qp.win * qp.rate) / qp.maxRate
    if w = 0 then 1 else w
  else qp.win

/-- `RdmaHw::PktSent` at a time. -/
def pktSent (cfg : NicConfig) (now : Int) (size : Nat) : NicQp :=
  let rate := if cfg.rateBound then qp.rate else qp.maxRate
  { qp with
    lastPktSize := size
    nextAvail := now + (cfg.interframeGap + calculateBytesTxTime rate size) }

/-- `RdmaHw::QpComplete`. -/
def complete : NicQp := { qp with messages := [], closed := true }

end NicQp

/-- A packet on the wire: when its last bit leaves, when the device is free again, and for a data
packet its queue pair until `SendCallback` has run. -/
structure Transmission where
  txEnd : Int
  complete : Int
  sent : Option (Nat × DataPacket)

/-- `tx` is the packet on the wire while the device is BUSY, `ackQ` the sizes of the packets of high
priority, and `nextSend` the time of the pending `m_nextSend`. -/
structure Nic where
  now : Int
  linkUp : Bool
  paused : Nat → Bool
  ackQ : List Nat
  qps : List NicQp
  rrlast : Nat
  tx : Option Transmission
  nextSend : Option Int

/-- What `GetNextQindex` returns: -1, an index, or -1024. -/
inductive QIndex
  | highPrio
  | qp (i : Nat)
  | nothing
  deriving DecidableEq

namespace Nic

/-- A device whose link has just come up. -/
def initial : Nic where
  now := 0
  linkUp := true
  paused := fun _ => false
  ackQ := []
  qps := []
  rrlast := 0
  tx := none
  nextSend := none

variable (cfg : NicConfig) (nic : Nic)

/-- The queue pair may send as far as pausing, its messages and its window go. -/
def eligible (qp : NicQp) : Bool :=
  !nic.paused qp.pg && decide (0 < qp.getBytesLeft) && !qp.isWinBound (qp.getWin cfg.varWin)

/-- The loop of `GetNextQindex` over the queue pairs in its order: the index selected, and the
smallest one of a closed queue pair met on the way. -/
def scan : List (Nat × NicQp) → Option Nat → Option Nat × Option Nat
  | [], minFinishId => (none, minFinishId)
  | (idx, qp) :: rest, minFinishId =>
      if nic.eligible cfg qp then
        if qp.nextAvail > nic.now then scan rest minFinishId else (some idx, minFinishId)
      else if qp.closed then scan rest (some (minFinishId.elim idx (min idx)))
      else scan rest minFinishId

/-- The loop that clears the closed queue pairs behind index `i`; the others move up to `nxt`. -/
def clearClosed : Nat → Nat → Option Nat → List NicQp → Option Nat × List NicQp
  | _, _, res, [] => (res, [])
  | i, nxt, res, qp :: qps =>
      if qp.closed then clearClosed (i + 1) nxt res qps
      else
        let (res, kept) := clearClosed (i + 1) (nxt + 1) (if res = some i then some nxt else res) qps
        (res, qp :: kept)

/-- Round robin from behind the queue pair that sent last. -/
def roundRobin : List (Nat × NicQp) :=
  (List.range nic.qps.length).filterMap fun k =>
    let idx := (k + 1 + nic.rrlast) % nic.qps.length
    nic.qps[idx]?.map fun qp => (idx, qp)

/-- `RdmaEgressQueue::GetNextQindex`, with the queue pairs that it leaves resident. -/
def getNextQindex : QIndex × List NicQp :=
  if !nic.paused ackQIdx && decide (0 < nic.ackQ.length) then (.highPrio, nic.qps)
  else
    let (res, minFinishId) := nic.scan cfg nic.roundRobin none
    let (res, qps) :=
      match minFinishId with
      | none => (res, nic.qps)
      | some first =>
          let (res, kept) := clearClosed (first + 1) first res (nic.qps.drop (first + 1))
          (res, nic.qps.take first ++ kept)
    (res.elim .nothing .qp, qps)

def transmitStart (size : Nat) (sent : Option (Nat × DataPacket)) : Nic :=
  let txTime := calculateBytesTxTime cfg.dataRate size
  { nic with tx := some ⟨nic.now + txTime, nic.now + (txTime + cfg.interframeGap), sent⟩ }

/-- The smallest `m_nextAvail` of all resident queue pairs, whether they may send or not. -/
def minNextAvail (qps : List NicQp) : Int :=
  qps.foldl (fun t qp => min qp.nextAvail t) maximumSimulationTime

/-- `QbbNetDevice::DequeueAndTransmit` on a host; `none` where it reads behind the queue pairs. -/
def dequeueAndTransmit : Option Nic :=
  if !nic.linkUp then some nic
  else if nic.tx.isSome then some nic
  else
    let (qIndex, qps) := nic.getNextQindex cfg
    let nic := { nic with qps := qps }
    match qIndex with
    | .highPrio =>
        match nic.ackQ with
        | [] => none
        | size :: rest => some ({ nic with ackQ := rest }.transmitStart cfg size none)
    | .qp i =>
        qps[i]?.map fun qp =>
          let (p, rest) := qp.getNxtPacket cfg.hw
          let size := cfg.headerSize + p.payload.length
          let qp := { qp with toRdmaQueuePair := rest }.pktSent cfg nic.now size
          { nic with qps := qps.set i qp, rrlast := i }.transmitStart cfg size (some (i, p))
    | .nothing =>
        let t := minNextAvail qps
        if nic.nextSend = none ∧ t < maximumSimulationTime ∧ t > nic.now then
          some { nic with nextSend := some t }
        else some nic

/-- `QbbNetDevice::UpdateNextAvail`: a pending event may only move forward. -/
def updateNextAvail (t : Int) : Nic :=
  match nic.nextSend with
  | some ts => if t < ts then { nic with nextSend := some (max t nic.now) } else nic
  | none => nic

/-- `RdmaHw::ChangeRate`. -/
def changeRate (i : Nat) (qp : NicQp) (rate : Nat) : Nic :=
  let nextAvail := qp.nextAvail + calculateBytesTxTime rate qp.lastPktSize -
    calculateBytesTxTime qp.rate qp.lastPktSize
  { nic with qps := nic.qps.set i { qp with nextAvail, rate } }.updateNextAvail nextAvail

end Nic

/-- What the congestion control does to the rate when an ACK has arrived: the modes 1, 7 and 8
assign it, 3 and 10 call `ChangeRate`. -/
inductive RateUpdate
  | keep
  | assign (rate : Nat)
  | change (rate : Nat)
  deriving DecidableEq

inductive NicEvent
  /-- time passes up to the next event -/
  | advance (t : Int)
  /-- `AddQueuePair` -/
  | addQueuePair (pg win lastPktSize mscclFlowId : Nat) (autoClose : Bool)
      (message : Option (Nat × Option (Int → UInt8)))
  /-- `PushMessage` and `TriggerTransmit` -/
  | send (i size : Nat) (srcDataPtr : Option (Int → UInt8)) (mscclFlowId : Nat)
  | receiveAck (i : Nat) (a : AckPacket) (rate : RateUpdate)
  /-- `ReceiveUdp` queues an ACK or a NACK -/
  | reply (size : Nat)
  /-- a timer of the congestion control assigns the rate -/
  | rateTimer (i rate : Nat)
  | closeQueuePair (i : Nat)
  | pause (qIndex : Nat)
  | resume (qIndex : Nat)
  | sendCallback
  | transmitComplete
  /-- `m_nextSend` fires -/
  | nextSend
  | takeDown

namespace Nic

/-- No event of the device is due before this time. -/
def nothingDue (nic : Nic) (t : Int) : Bool :=
  (nic.nextSend.all fun ts => decide (t ≤ ts)) &&
    nic.tx.all fun tx => decide (t ≤ if tx.sent.isSome then tx.txEnd else tx.complete)

variable (cfg : NicConfig) (nic : Nic)

/-- `RdmaHw::AddQueuePair` up to `NewQp`. -/
def addQueuePair (pg win lastPktSize mscclFlowId : Nat) (autoClose : Bool)
    (message : Option (Nat × Option (Int → UInt8))) : Nic :=
  let qp : RdmaQueuePair := ⟨[], 0, 0, mscclFlowId, autoClose, false⟩
  let qp :=
    match message with
    | some (size, srcDataPtr) => if size ≠ 0 then qp.pushMessage size srcDataPtr mscclFlowId else qp
    | none => qp
  { nic with qps := nic.qps ++ [{ qp with
      pg := pg
      win := win
      rate := cfg.dataRate
      maxRate := cfg.dataRate
      lastPktSize := lastPktSize
      nextAvail := nic.now }] }

/-- `RdmaHw::ReceiveAck` for a queue pair that `GetQp` finds, up to `TriggerTransmit`. -/
def receiveAck (i : Nat) (qp : NicQp) (a : AckPacket) (rate : RateUpdate) : Option Nic := do
  let (_, acked) ← qp.toRdmaQueuePair.receiveAck cfg.hw a
  let qp := { qp with toRdmaQueuePair := acked }
  match rate with
  | .keep => return { nic with qps := nic.qps.set i qp }
  | .assign rate => return { nic with qps := nic.qps.set i { qp with rate := rate } }
  | .change rate => return nic.changeRate i qp rate

/-- What an event does up to its call of `DequeueAndTransmit`, and whether it makes one. -/
def handle : NicEvent → Option (Bool × Nic)
  | .advance t => if nic.now ≤ t ∧ nic.nothingDue t then some (false, { nic with now := t }) else none
  | .addQueuePair pg win lastPktSize mscclFlowId autoClose message =>
      some (true, nic.addQueuePair cfg pg win lastPktSize mscclFlowId autoClose message)
  | .send i size srcDataPtr mscclFlowId =>
      nic.qps[i]?.map fun qp =>
        let pushed := qp.toRdmaQueuePair.pushMessage size srcDataPtr mscclFlowId
        (true, { nic with qps := nic.qps.set i { qp with toRdmaQueuePair := pushed } })
  | .receiveAck i a rate =>
      nic.qps[i]?.bind fun qp =>
        if qp.closed then some (false, nic) else (nic.receiveAck cfg i qp a rate).map (true, ·)
  | .reply size => some (true, { nic with ackQ := nic.ackQ ++ [size] })
  | .rateTimer i rate =>
      nic.qps[i]?.map fun qp => (false, { nic with qps := nic.qps.set i { qp with rate := rate } })
  | .closeQueuePair i =>
      nic.qps[i]?.map fun qp => (false, { nic with qps := nic.qps.set i qp.complete })
  | .pause qIndex => some (false, { nic with paused := Function.update nic.paused qIndex true })
  | .resume qIndex =>
      -- the class of the pause is used as an index of a queue pair
      if qIndex < nic.qps.length then
        some (true, { nic with paused := Function.update nic.paused qIndex false })
      else none
  | .sendCallback =>
      match nic.tx with
      | some ⟨txEnd, complete, some (i, p)⟩ =>
          if nic.now = txEnd then
            nic.qps[i]?.map fun qp =>
              let sent := (qp.toRdmaQueuePair.sendPacketComplete cfg.hw p).2
              (false, { nic with
                qps := nic.qps.set i { qp with toRdmaQueuePair := sent }
                tx := some ⟨txEnd, complete, none⟩ })
          else none
      | _ => none
  | .transmitComplete =>
      match nic.tx with
      | some ⟨_, complete, none⟩ =>
          if nic.now = complete then some (true, { nic with tx := none }) else none
      | _ => none
  | .nextSend =>
      if nic.nextSend = some nic.now then some (true, { nic with nextSend := none }) else none
  | .takeDown => some (false, { nic with ackQ := [], linkUp := false })

/-- One event of the simulation. -/
def step (e : NicEvent) : Option Nic :=
  (nic.handle cfg e).bind fun (transmits, nic) =>
    if transmits then nic.dequeueAndTransmit cfg else some nic

end Nic

end CollectiveSim.Rdma
