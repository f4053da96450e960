import Mathlib
import CollectiveSim.Framework.Run
import CollectiveSim.Switch.EgressQueue

/-!
# A switch at work

`SwitchNode` and `NVSwitchNode` admit a packet, count it in the byte matrix and put it in the output
queue of its port. A `SwitchNode` also tells the upstream of the packet to pause and to resume. The
routing decision is part of the packet here: its port and its queue.
-/

open scoped BigOperators

namespace CollectiveSim.Switch

open Framework

/-- The class of the node. -/
inductive NodeKind where
  | switch
  | nvswitch
  deriving DecidableEq

structure NodeConfig where
  kind : NodeKind
  mmu : MmuConfig
  limits : QueueLimits

/-- The members of a `QbbNetDevice` that its switch side uses. -/
structure Device where
  queue : EgressQueue
  paused : Nat → Bool
  linkUp : Bool

def Device.initial : Device := ⟨.initial, fun _ => false, true⟩

/-- What an observer of the node sees, in order. -/
inductive Note where
  | arrived (port qIndex size : Nat)
  | dropped (port qIndex size : Nat)
  | pfc (port qIndex : Nat) (pause : Bool)
  deriving DecidableEq

/-- The state of a switch. The array `m_bytes` is a table over triples. -/
structure Node where
  mmu : Mmu
  mBytes : Nat × Nat × Nat → Nat
  devices : Nat → Device
  log : List Note

namespace Node

def initial : Node := ⟨.initial, fun _ => 0, fun _ => .initial, []⟩

variable (cfg : NodeConfig) (s : Node)

/-- Replace the output queues of a port. -/
def setQueue (port : Nat) (queue : EgressQueue) : Node :=
  { s with devices := Function.update s.devices port { s.devices port with queue := queue } }

/-- `SwitchSend`. The transmission it then tries is an event of its own. -/
def switchSend (port : Nat) (frame : Frame) (qIndex : Nat) : Node :=
  s.setQueue port ((s.devices port).queue.enqueue cfg.limits frame qIndex)

/-- `SendPfc`: type 0 pauses. -/
def sendPfc (port qIndex : Nat) (pause : Bool) : Node :=
  let s := { s with log := s.log ++ [Note.pfc port qIndex pause] }
  s.switchSend cfg port (Frame.pfc qIndex pause) 0

/-- `CheckAndSendPfc`. -/
def checkAndSendPfc (inDev qIndex : Nat) : Node :=
  if s.mmu.checkShouldPause cfg.mmu inDev qIndex then
    let s := s.sendPfc cfg inDev qIndex true
    { s with mmu := s.mmu.setPause inDev qIndex }
  else s

/-- `CheckAndSendResume`. -/
def checkAndSendResume (inDev qIndex : Nat) : Node :=
  if s.mmu.checkShouldResume cfg.mmu inDev qIndex then
    let s := s.sendPfc cfg inDev qIndex false
    { s with mmu := s.mmu.setResume inDev qIndex }
  else s

/-- The state in which `SendToDev` hands an admitted packet to the byte matrix. -/
def admitted (p : Packet) : Node :=
  if p.qIndex = 0 then s
  else
    let s := { s with mmu := s.mmu.accept cfg.mmu p.inDev p.outDev p.qIndex p.size }
    match cfg.kind with
    | .switch => s.checkAndSendPfc cfg p.inDev p.qIndex
    | .nvswitch => s

/-- Count a packet in `m_bytes` and send it to its port. -/
def countAndSend (p : Packet) : Node :=
  let s := { s with
    mBytes := Function.update s.mBytes (p.inDev, p.outDev, p.qIndex)
      (u32 (s.mBytes (p.inDev, p.outDev, p.qIndex) + p.size)) }
  s.switchSend cfg p.outDev (.received p) p.qIndex

/-- The admission control of `SendToDev`. -/
def Admits (p : Packet) : Prop :=
  p.qIndex = 0 ∨ (s.mmu.checkIngressAdmission cfg.mmu p.inDev p.qIndex p.size ∧
    Mmu.checkEgressAdmission p.outDev p.qIndex p.size)

instance (p : Packet) : Decidable (s.Admits cfg p) := by
  unfold Admits
  infer_instance

/-- `SendToDev` once the port and the queue are found. -/
def sendToDev (p : Packet) : Node :=
  if s.Admits cfg p then (s.admitted cfg p).countAndSend cfg p
  else { s with log := s.log ++ [Note.dropped p.inDev p.qIndex p.size] }

/-- `SwitchNotifyDequeue`. -/
def switchNotifyDequeue (ifIndex qIndex : Nat) (p : Packet) : Node :=
  if qIndex ≠ 0 then
    let s := { s with
      mmu := s.mmu.release cfg.mmu p.inDev ifIndex qIndex p.size
      mBytes := Function.update s.mBytes (p.inDev, ifIndex, qIndex)
        (sub32 (s.mBytes (p.inDev, ifIndex, qIndex)) p.size) }
    match cfg.kind with
    | .switch => s.checkAndSendResume cfg p.inDev qIndex
    | .nvswitch => s
  else s

/-- `SwitchDequeueAndTransmit` on a port that is ready and up: `none` if nothing can be sent. -/
def dequeueAndTransmit (port : Nat) : Option Node :=
  match (s.devices port).queue.dequeueRR (s.devices port).paused with
  | none => none
  | some (q, frame, queue) =>
      let s := s.setQueue port queue
      match frame with
      | .received p => some (s.switchNotifyDequeue cfg port q p)
      | .pfc _ _ => some s

/-- `TakeDown` on a switch. -/
def takeDown (port : Nat) : Node :=
  let queue := (s.devices port).queue
  { s with
    devices := Function.update s.devices port
      { queue := queue.drain queue.length
        paused := fun _ => false
        linkUp := false } }

/-- A packet comes in by its port, a port transmits, a PFC frame of the next hop comes in, or a
port is taken down. -/
inductive Event where
  | arrive (p : Packet)
  | transmit (port : Nat)
  | pfcReceived (port qIndex : Nat) (pause : Bool)
  | takeDown (port : Nat)

/-- The ports and the queue of a packet are inside the arrays. A packet has headers, so it is not
empty. -/
def Arrives (p : Packet) : Prop :=
  (p.inDev, p.qIndex) ∈ cells ∧ (p.outDev, p.qIndex) ∈ cells ∧ 0 < p.size ∧ p.size < 2 ^ 32

instance (p : Packet) : Decidable (Arrives p) :=
  decidable_of_iff ((p.inDev < pCnt ∧ p.qIndex < qCnt) ∧ (p.outDev < pCnt ∧ p.qIndex < qCnt) ∧
    0 < p.size ∧ p.size < 2 ^ 32) (by rw [Arrives, mem_cells, mem_cells])

def step (cfg : NodeConfig) (s : Node) : Event → Option Node
  | .arrive p =>
      if Arrives p ∧ (s.devices p.inDev).linkUp then
        some (sendToDev cfg { s with log := s.log ++ [Note.arrived p.inDev p.qIndex p.size] } p)
      else none
  | .transmit port =>
      if port < pCnt ∧ (s.devices port).linkUp then s.dequeueAndTransmit cfg port else none
  | .pfcReceived port qIndex pause =>
      if (s.devices port).linkUp then
        some { s with
          devices := Function.update s.devices port
            { s.devices port with paused := Function.update (s.devices port).paused qIndex pause } }
      else none
  | .takeDown port => some (s.takeDown port)

end Node

end CollectiveSim.Switch
