import CollectiveSim.Framework.Run

/-!
# Egress of the P4 switch

A port of the switch becomes busy before its packet is offered to the channel, a host device when the
channel has taken it. The channel refuses a packet while its slot transmits or is detached, and then no
completion is scheduled.
-/

namespace CollectiveSim.P4

open Framework

def collectivesProtocol : Nat := 0x9500

/-- What the switch reads of a frame; one too short for an `MscclHeader` has no flow id. -/
structure Frame where
  uid : Nat
  protocol : Nat
  destination : Nat
  broadcast : Bool
  flowId : Option Nat
  deriving DecidableEq

inductive TxState
  | ready
  | busy
  deriving DecidableEq

/-- A device's slot of a `SwitchedEthernetChannel`, with the frame it transmits. -/
structure Slot where
  currentPkt : Option Frame
  active : Bool
  deriving DecidableEq

namespace Slot

def attached : Slot := ⟨none, true⟩

/-- `SwitchedEthernetChannel::TransmitStart`, `none` when it returns false. -/
def transmitStart (slot : Slot) (frame : Frame) : Option Slot :=
  if slot.currentPkt.isSome then none
  else if !slot.active then none
  else some { slot with currentPkt := some frame }

/-- `SwitchedEthernetChannel::TransmitEnd`: the wire is idle again, also for a detached slot. -/
def transmitEnd (slot : Slot) : Slot := { slot with currentPkt := none }

def detach (slot : Slot) : Slot := { slot with active := false }
def reattach (slot : Slot) : Slot := { slot with active := true }

end Slot

/-! ## A port of the switch -/

/-- A port with its slot. `TransmitEnd` and `PortEgressComplete` are scheduled one behind the other, so
nothing happens between them; the flag says whether the second one comes with the first. -/
structure Port where
  txState : TxState
  queue : List Frame
  slot : Slot
  scheduled : List Bool
  deriving DecidableEq

/-- `AddPort`. -/
def Port.added : Port := ⟨.ready, [], .attached, []⟩

namespace Port

/-- `TransmitOn`; without an `outPort` no `PortEgressComplete` is scheduled. -/
def transmitOn (egress : Bool) (frame : Frame) (port : Port) : Port :=
  match port.slot.transmitStart frame with
  | none => port
  | some slot => { port with slot := slot, scheduled := port.scheduled ++ [egress] }

/-- `SendNs3Packet`, which discards what goes to port 511. -/
def sendNs3Packet (outPort : Nat) (frame : Frame) (port : Port) : Port :=
  if outPort = 511 then port else port.transmitOn true frame

def tryPortEgress (i : Nat) (port : Port) : Port :=
  match port.txState, port.queue with
  | .ready, frame :: rest => sendNs3Packet i frame { port with queue := rest, txState := .busy }
  | _, _ => port

def portEgressComplete (i : Nat) (port : Port) : Port :=
  tryPortEgress i { port with txState := .ready }

/-- The next scheduled call of `TransmitEnd`, with the one behind it. -/
def complete (i : Nat) (port : Port) : Port :=
  match port.scheduled with
  | [] => port
  | egress :: rest =>
      let port := { port with slot := port.slot.transmitEnd, scheduled := rest }
      if egress then port.portEgressComplete i else port

section

variable (accepts : List Frame → Frame → Bool)

/-- `Enqueue`; `accepts` is the queue's own limit. -/
def enqueue (frame : Frame) (port : Port) : Option Port :=
  if accepts port.queue frame then some { port with queue := port.queue ++ [frame] } else none

/-- A frame for this port. A broadcast goes on after a failed `Enqueue`. -/
def receive (i : Nat) (frame : Frame) (port : Port) : Port :=
  match port.enqueue accepts frame with
  | some port => port.tryPortEgress i
  | none => if frame.broadcast then port.tryPortEgress i else port

end

/-- The port is busy exactly when its completion is scheduled, and no frame waits without one. -/
def Live (port : Port) : Prop :=
  (port.txState = .busy ↔ true ∈ port.scheduled) ∧ (port.queue ≠ [] → true ∈ port.scheduled)

instance (port : Port) : Decidable port.Live := inferInstanceAs (Decidable (_ ∧ _))

end Port

/-! ## The switch -/

/-- `CustomSwitchImpl` with the ports of its device. -/
structure CustomSwitch where
  ports : List Port
  forwardingTable : Nat → Option Nat
  addrForwardingTable : Nat → Option Nat

namespace CustomSwitch

/-- What reaches the switch; the port of a received frame is that of its sender, if it has one. -/
inductive Event
  | attach
  | addForwardingRule (flowId port : Nat)
  | addAddrForwarding (addr port : Nat)
  | receive (frame : Frame) (inPort : Option Nat)
  | sendFrom (frame : Frame)
  | detach (port : Nat)
  | reattach (port : Nat)
  | complete (port : Nat)

def initial : CustomSwitch := ⟨[], fun _ => none, fun _ => none⟩

section

variable (accepts : List Frame → Frame → Bool)

/-- Enqueue for a port of a table; there is no queue behind the last port. -/
def forward (port : Nat) (frame : Frame) (s : CustomSwitch) : Option CustomSwitch :=
  if port < s.ports.length then
    some { s with ports := s.ports.modify port (Port.receive accepts port frame) }
  else none

/-- MAC-based forwarding. -/
def forwardByAddr (frame : Frame) (s : CustomSwitch) : Option CustomSwitch :=
  match s.addrForwardingTable frame.destination with
  | some port => s.forward accepts port frame
  | none => some s

/-- `ReceivePacket`; an incomplete header ends the program. -/
def receivePacket (frame : Frame) (inPort : Nat) (s : CustomSwitch) : Option CustomSwitch :=
  if frame.broadcast then
    some { s with ports := s.ports.mapIdx fun i port =>
      if i = inPort then port else port.receive accepts i frame }
  else if frame.protocol = collectivesProtocol then
    match frame.flowId with
    | none => none
    | some flowId =>
        match s.forwardingTable flowId with
        | some port =>
            if port ≠ inPort then s.forward accepts port frame else s.forwardByAddr accepts frame
        | none => s.forwardByAddr accepts frame
  else s.forwardByAddr accepts frame

def step (s : CustomSwitch) : Event → Option CustomSwitch
  | .attach => some { s with ports := s.ports ++ [.added] }
  | .addForwardingRule flowId port =>
      some { s with forwardingTable := Function.update s.forwardingTable flowId (some port) }
  | .addAddrForwarding addr port =>
      some { s with addrForwardingTable := Function.update s.addrForwardingTable addr (some port) }
  | .receive _ none => some s
  | .receive frame (some inPort) =>
      if inPort < s.ports.length then s.receivePacket accepts frame inPort else none
  -- control-plane frames go to every port past its queue
  | .sendFrom frame => some { s with ports := s.ports.map (Port.transmitOn false frame) }
  | .detach port =>
      some { s with ports := s.ports.modify port fun p => { p with slot := p.slot.detach } }
  | .reattach port =>
      some { s with ports := s.ports.modify port fun p => { p with slot := p.slot.reattach } }
  | .complete port => some { s with ports := s.ports.modify port (Port.complete port) }

def Live (s : CustomSwitch) : Prop := ∀ port ∈ s.ports, port.Live

/-- The ports that a frame is enqueued for. -/
def targets (s : CustomSwitch) (frame : Frame) (inPort i : Nat) : Bool :=
  let byAddr := s.addrForwardingTable frame.destination = some i
  if frame.broadcast then i ≠ inPort
  else if frame.protocol = collectivesProtocol then
    match frame.flowId.bind s.forwardingTable with
    | some port => if port ≠ inPort then i = port else byAddr
    | none => byAddr
  else byAddr

/-- The channel takes the packet that the event makes port `i` send, if it makes it send one. -/
def PortClear (s : CustomSwitch) (i : Nat) (port : Port) : Event → Prop
  | .receive frame (some inPort) =>
      s.targets frame inPort i = true → port.txState = .ready → accepts port.queue frame = true →
        i ≠ 511 ∧ port.slot.currentPkt = none ∧ port.slot.active = true
  | .complete j =>
      j = i → true ∈ port.scheduled → port.queue ≠ [] → i ≠ 511 ∧ port.slot.active = true
  | _ => True

/-- No port is made to send while its slot is detached or still transmitting a control-plane frame. -/
def Clear (s : CustomSwitch) (e : Event) : Prop :=
  ∀ i, (h : i < s.ports.length) → PortClear accepts s i s.ports[i] e

end

end CustomSwitch

/-! ### What a port keeps -/

namespace Port

/-- A port between two events, as long as the channel has taken every packet offered to it. -/
inductive Kept (port : Port) : Prop
  | idle (hstate : port.txState = .ready) (hqueue : port.queue = [])
      (hwire : port.slot.currentPkt = none) (hscheduled : port.scheduled = [])
  | control {frame : Frame} (hstate : port.txState = .ready) (hqueue : port.queue = [])
      (hwire : port.slot.currentPkt = some frame) (hscheduled : port.scheduled = [false])
  | sending {frame : Frame} (hstate : port.txState = .busy)
      (hwire : port.slot.currentPkt = some frame) (hscheduled : port.scheduled = [true])

variable {accepts : List Frame → Frame → Bool} {i : Nat} {frame : Frame} {port : Port}

theorem Kept.live (h : Kept port) : port.Live := by
  cases h with
  | idle hstate hqueue hwire hscheduled => simp [Live, hstate, hqueue, hscheduled]
  | control hstate hqueue hwire hscheduled => simp [Live, hstate, hqueue, hscheduled]
  | sending hstate hwire hscheduled => simp [Live, hstate, hscheduled]

theorem Kept.slot_congr {slot : Slot} (h : Kept port)
    (hslot : slot.currentPkt = port.slot.currentPkt) : Kept { port with slot := slot } := by
  cases h with
  | idle hstate hqueue hwire hscheduled => exact .idle hstate hqueue (hslot.trans hwire) hscheduled
  | control hstate hqueue hwire hscheduled =>
      exact .control hstate hqueue (hslot.trans hwire) hscheduled
  | sending hstate hwire hscheduled => exact .sending hstate (hslot.trans hwire) hscheduled

theorem Kept.transmitOn (h : Kept port) : Kept (port.transmitOn false frame) := by
  cases hwire : port.slot.currentPkt with
  | some current =>
      have hrefused : port.slot.transmitStart frame = none := by simp [Slot.transmitStart, hwire]
      simpa only [Port.transmitOn, hrefused] using h
  | none =>
      cases h with
      | idle hstate hqueue _ hscheduled =>
          cases hactive : port.slot.active with
          | false =>
              have hrefused : port.slot.transmitStart frame = none := by
                simp [Slot.transmitStart, hactive]
              simpa only [Port.transmitOn, hrefused] using Kept.idle hstate hqueue hwire hscheduled
          | true =>
              have htaken : port.slot.transmitStart frame =
                  some { port.slot with currentPkt := some frame } := by
                simp [Slot.transmitStart, hwire, hactive]
              simp only [Port.transmitOn, htaken, hscheduled]
              exact .control hstate hqueue rfl rfl
      | control _ _ hbusy _ => simp [hwire] at hbusy
      | sending _ hbusy _ => simp [hwire] at hbusy

theorem tryPortEgress_cons {rest : List Frame} (hstate : port.txState = .ready)
    (hqueue : port.queue = frame :: rest) (hwire : port.slot.currentPkt = none)
    (hscheduled : port.scheduled = []) :
    (i ≠ 511 ∧ port.slot.active = true → Kept (port.tryPortEgress i)) ∧
      (¬ (i ≠ 511 ∧ port.slot.active = true) → ¬ (port.tryPortEgress i).Live) := by
  simp only [tryPortEgress, hstate, hqueue, sendNs3Packet, Port.transmitOn, Slot.transmitStart, hwire]
  constructor
  · rintro ⟨hport, hactive⟩
    simp only [hport, hactive, hscheduled]
    exact .sending rfl rfl rfl
  · intro hnot
    by_cases hport : i = 511
    · simp [hport, Live, hscheduled]
    · have hactive : port.slot.active = false := by simpa [hport] using hnot
      simp [hport, hactive, Live, hscheduled]

theorem tryPortEgress_nil (hqueue : port.queue = []) : port.tryPortEgress i = port := by
  rw [tryPortEgress, hqueue]
  cases port.txState <;> rfl

theorem tryPortEgress_busy (hstate : port.txState = .busy) : port.tryPortEgress i = port := by
  rw [tryPortEgress, hstate]

/-- A frame for the port: only a ready port sends, and then its wire has to take the frame. -/
theorem Kept.receive (h : Kept port) :
    ((port.txState = .ready → accepts port.queue frame = true →
        i ≠ 511 ∧ port.slot.currentPkt = none ∧ port.slot.active = true) →
      Kept (port.receive accepts i frame)) ∧
    (¬ (port.txState = .ready → accepts port.queue frame = true →
        i ≠ 511 ∧ port.slot.currentPkt = none ∧ port.slot.active = true) →
      ¬ (port.receive accepts i frame).Live) := by
  cases haccepts : accepts port.queue frame with
  | false =>
      have hnone : port.enqueue accepts frame = none := by simp [enqueue, haccepts]
      have hsame : port.tryPortEgress i = port := by
        cases h with
        | idle _ hqueue _ _ => exact tryPortEgress_nil hqueue
        | control _ hqueue _ _ => exact tryPortEgress_nil hqueue
        | sending hstate _ _ => exact tryPortEgress_busy hstate
      simpa [Port.receive, hnone, hsame] using h
  | true =>
      have hsome : port.enqueue accepts frame = some { port with queue := port.queue ++ [frame] } := by
        simp [enqueue, haccepts]
      simp only [Port.receive, hsome, forall_true_left]
      cases h with
      | idle hstate hqueue hwire hscheduled =>
          have hsend := @tryPortEgress_cons i frame { port with queue := port.queue ++ [frame] } []
            hstate (by rw [hqueue, List.nil_append]) hwire hscheduled
          simpa [hstate, hwire] using hsend
      | control hstate hqueue hwire hscheduled =>
          constructor
          · intro hclear
            have hidle := (hclear hstate).2.1
            rw [hwire] at hidle
            cases hidle
          · intro _
            by_cases hport : i = 511
            · simp [tryPortEgress, hstate, hqueue, sendNs3Packet, hport, Live, hscheduled]
            · simp [tryPortEgress, hstate, hqueue, sendNs3Packet, hport, Port.transmitOn,
                Slot.transmitStart, hwire, Live, hscheduled]
      | sending hstate hwire hscheduled =>
          have hsame := @tryPortEgress_busy i { port with queue := port.queue ++ [frame] } hstate
          rw [hsame]
          constructor
          · intro _
            exact .sending hstate hwire hscheduled
          · intro hnot
            exact absurd (fun hready => by simp [hstate] at hready) hnot

theorem Kept.complete (h : Kept port) :
    ((true ∈ port.scheduled → port.queue ≠ [] → i ≠ 511 ∧ port.slot.active = true) →
      Kept (port.complete i)) ∧
    (¬ (true ∈ port.scheduled → port.queue ≠ [] → i ≠ 511 ∧ port.slot.active = true) →
      ¬ (port.complete i).Live) := by
  cases h with
  | idle hstate hqueue hwire hscheduled =>
      simpa [Port.complete, hscheduled] using Kept.idle hstate hqueue hwire hscheduled
  | control hstate hqueue hwire hscheduled =>
      have hidle : Kept { port with slot := port.slot.transmitEnd, scheduled := [] } :=
        .idle hstate hqueue rfl rfl
      simpa [Port.complete, hscheduled] using hidle
  | sending hstate hwire hscheduled =>
      simp only [Port.complete, hscheduled, if_true, portEgressComplete]
      cases hqueue : port.queue with
      | nil =>
          have hsame := @tryPortEgress_nil i { port with
            slot := port.slot.transmitEnd, scheduled := [], txState := .ready, queue := [] } rfl
          have hidle : Kept { port with
              slot := port.slot.transmitEnd, scheduled := [], txState := .ready, queue := [] } :=
            .idle rfl rfl rfl rfl
          simpa [hsame] using hidle
      | cons frame rest =>
          have hsend := @tryPortEgress_cons i frame { port with
            slot := port.slot.transmitEnd, scheduled := [], txState := .ready } rest rfl hqueue rfl rfl
          simpa [hqueue, Slot.transmitEnd] using hsend

end Port

namespace CustomSwitch

variable {accepts : List Frame → Frame → Bool} {s t : CustomSwitch}

/-- What an event does to port `i`. -/
def portStep (accepts : List Frame → Frame → Bool) (s : CustomSwitch) (e : Event) (i : Nat) :
    Port → Port :=
  match e with
  | .receive frame (some inPort) =>
      fun port => if s.targets frame inPort i then port.receive accepts i frame else port
  | .sendFrom frame => Port.transmitOn false frame
  | .detach j => fun port => if j = i then { port with slot := port.slot.detach } else port
  | .reattach j => fun port => if j = i then { port with slot := port.slot.reattach } else port
  | .complete j => fun port => if j = i then port.complete i else port
  | _ => fun port => port

theorem getElem?_forward {port : Nat} {frame : Frame} (h : s.forward accepts port frame = some t)
    (i : Nat) : t.ports[i]? = (s.ports[i]?).map fun p =>
      if i = port then p.receive accepts i frame else p := by
  rw [forward] at h
  split at h
  · cases h
    rw [List.getElem?_modify]
    by_cases hi : port = i
    · subst hi
      simp
    · simp [hi, Ne.symm hi]
  · cases h

theorem getElem?_forwardByAddr {frame : Frame} (h : s.forwardByAddr accepts frame = some t) (i : Nat) :
    t.ports[i]? = (s.ports[i]?).map fun p =>
      if s.addrForwardingTable frame.destination = some i then p.receive accepts i frame else p := by
  rw [forwardByAddr] at h
  split at h
  · rename_i port hport
    simpa [hport, eq_comm] using getElem?_forward h i
  · rename_i hnone
    cases h
    simp [hnone]

theorem getElem?_receivePacket {frame : Frame} {inPort : Nat}
    (h : s.receivePacket accepts frame inPort = some t) (i : Nat) :
    t.ports[i]? = (s.ports[i]?).map (portStep accepts s (.receive frame (some inPort)) i) := by
  rw [receivePacket] at h
  by_cases hbroadcast : frame.broadcast = true
  · rw [if_pos hbroadcast] at h
    cases h
    rw [List.getElem?_mapIdx]
    congr 1
    funext port
    by_cases hi : i = inPort <;> simp [portStep, targets, hbroadcast, hi]
  · rw [if_neg hbroadcast] at h
    by_cases hproto : frame.protocol = collectivesProtocol
    · rw [if_pos hproto] at h
      cases hflow : frame.flowId with
      | none => simp [hflow] at h
      | some flowId =>
          simp only [hflow] at h
          cases hroute : s.forwardingTable flowId with
          | none =>
              simp only [hroute] at h
              simpa [portStep, targets, hbroadcast, hproto, hflow, hroute] using
                getElem?_forwardByAddr h i
          | some port =>
              simp only [hroute] at h
              by_cases hport : port = inPort
              · rw [if_neg (not_not.mpr hport)] at h
                simpa [portStep, targets, hbroadcast, hproto, hflow, hroute, hport] using
                  getElem?_forwardByAddr h i
              · rw [if_pos hport] at h
                simpa [portStep, targets, hbroadcast, hproto, hflow, hroute, hport] using
                  getElem?_forward h i
    · rw [if_neg hproto] at h
      simpa [portStep, targets, hbroadcast, hproto] using getElem?_forwardByAddr h i

/-- A new port comes last, and every other event acts on each port on its own. -/
theorem ports_step {e : Event} (h : step accepts s e = some t) :
    (e = .attach ∧ t.ports = s.ports ++ [.added]) ∨
      ∀ i, t.ports[i]? = (s.ports[i]?).map (portStep accepts s e i) := by
  cases e with
  | attach =>
      cases h
      exact .inl ⟨rfl, rfl⟩
  | addForwardingRule flowId port =>
      cases h
      exact .inr fun i => by simp [portStep]
  | addAddrForwarding addr port =>
      cases h
      exact .inr fun i => by simp [portStep]
  | receive frame inPort =>
      cases inPort with
      | none =>
          cases h
          exact .inr fun i => by simp [portStep]
      | some inPort =>
          rw [step] at h
          split at h
          · exact .inr (getElem?_receivePacket h)
          · cases h
  | sendFrom frame =>
      cases h
      exact .inr fun i => by simp [portStep]
  | detach port =>
      cases h
      refine .inr fun i => ?_
      by_cases hi : port = i <;> simp [portStep, hi]
  | reattach port =>
      cases h
      refine .inr fun i => ?_
      by_cases hi : port = i <;> simp [portStep, hi]
  | complete port =>
      cases h
      refine .inr fun i => ?_
      by_cases hi : port = i <;> simp [portStep, hi]

/-- What an event does to a port that is kept, depending on whether its wire is clear. -/
theorem kept_portStep {e : Event} {i : Nat} {port : Port} (h : port.Kept) :
    (PortClear accepts s i port e → (portStep accepts s e i port).Kept) ∧
      (¬ PortClear accepts s i port e → ¬ (portStep accepts s e i port).Live) := by
  have hsame (hkept : (portStep accepts s e i port).Kept) (hclear : PortClear accepts s i port e) :
      (PortClear accepts s i port e → (portStep accepts s e i port).Kept) ∧
        (¬ PortClear accepts s i port e → ¬ (portStep accepts s e i port).Live) :=
    ⟨fun _ => hkept, fun hnot => absurd hclear hnot⟩
  cases e with
  | attach => exact hsame h trivial
  | addForwardingRule flowId port => exact hsame h trivial
  | addAddrForwarding addr port => exact hsame h trivial
  | sendFrom frame => exact hsame h.transmitOn trivial
  | detach j =>
      refine hsame ?_ trivial
      by_cases hj : j = i
      · simpa [portStep, hj] using @Port.Kept.slot_congr port port.slot.detach h rfl
      · simpa [portStep, hj] using h
  | reattach j =>
      refine hsame ?_ trivial
      by_cases hj : j = i
      · simpa [portStep, hj] using @Port.Kept.slot_congr port port.slot.reattach h rfl
      · simpa [portStep, hj] using h
  | complete j =>
      by_cases hj : j = i
      · simpa only [PortClear, portStep, hj, if_true, forall_true_left] using h.complete
      · refine hsame ?_ fun heq => absurd heq hj
        simpa [portStep, hj] using h
  | receive frame inPort =>
      cases inPort with
      | none => exact hsame h trivial
      | some inPort =>
          cases htarget : s.targets frame inPort i with
          | true => simpa only [PortClear, portStep, htarget, if_true, forall_true_left] using h.receive
          | false =>
              refine hsame ?_ fun heq => by simp [htarget] at heq
              simpa [portStep, htarget] using h

/-- Every port is kept. -/
def Kept (s : CustomSwitch) : Prop := ∀ port ∈ s.ports, port.Kept

theorem Kept.step {e : Event} (h : s.Kept) (hstep : step accepts s e = some t) :
    (Clear accepts s e → t.Kept) ∧ (¬ Clear accepts s e → ¬ t.Live) := by
  rcases ports_step hstep with ⟨rfl, hports⟩ | hports
  · constructor
    · intro _ port hmem
      rw [hports] at hmem
      rcases List.mem_append.mp hmem with hmem | hmem
      · exact h port hmem
      · rw [List.mem_singleton.mp hmem]
        exact .idle rfl rfl rfl rfl
    · intro hnot
      exact absurd (fun _ _ => trivial) hnot
  · constructor
    · intro hclear port hmem
      obtain ⟨i, hi⟩ := List.mem_iff_getElem?.mp hmem
      rw [hports i, Option.map_eq_some_iff] at hi
      obtain ⟨before, hbefore, rfl⟩ := hi
      obtain ⟨hlt, rfl⟩ := List.getElem?_eq_some_iff.mp hbefore
      exact (kept_portStep (h _ (List.getElem_mem hlt))).1 (hclear i hlt)
    · intro hnot hlive
      apply hnot
      intro i hlt
      by_contra hport
      have hafter := hports i
      rw [List.getElem?_eq_getElem hlt, Option.map_some] at hafter
      exact (kept_portStep (h _ (List.getElem_mem hlt))).2 hport
        (hlive _ (List.mem_of_getElem? hafter))

end CustomSwitch

/-! ## The host device -/

/-- `SwitchedEthernetHostDevice`, with its slot when it is attached and the number of scheduled calls of
`TransmitEnd`. -/
structure HostDevice where
  slot : Option Slot
  txState : TxState
  queue : List Frame
  scheduled : Nat

namespace HostDevice

inductive Event
  | attach
  | sendFrom (frame : Frame)
  | detach
  | reattach
  | transmitEnd

def initial : HostDevice := ⟨none, .ready, [], 0⟩

/-- `TransmitStart`; a frame that the channel refuses is dropped. -/
def transmitStart (frame : Frame) (host : HostDevice) : HostDevice :=
  match host.slot.bind (Slot.transmitStart · frame) with
  | none => host
  | some slot =>
      { host with slot := some slot, txState := .busy, scheduled := host.scheduled + 1 }

def tryTransmit (host : HostDevice) : HostDevice :=
  match host.txState, host.queue with
  | .ready, frame :: rest => transmitStart frame { host with queue := rest }
  | _, _ => host

section

variable (accepts : List Frame → Frame → Bool)

def sendFrom (frame : Frame) (host : HostDevice) : HostDevice :=
  if host.slot.isNone then host
  else if accepts host.queue frame then tryTransmit { host with queue := host.queue ++ [frame] }
  else host

/-- `TransmitEnd` of the channel and of the device are scheduled for the same time. -/
def transmitEnd (host : HostDevice) : HostDevice :=
  tryTransmit { host with
    slot := host.slot.map Slot.transmitEnd, scheduled := host.scheduled - 1, txState := .ready }

def step (host : HostDevice) : Event → Option HostDevice
  | .attach => if host.slot.isNone then some { host with slot := some .attached } else none
  | .sendFrom frame => some (host.sendFrom accepts frame)
  | .detach => some { host with slot := host.slot.map Slot.detach }
  | .reattach => some { host with slot := host.slot.map Slot.reattach }
  | .transmitEnd => if 0 < host.scheduled then some host.transmitEnd else none

/-- The device is busy exactly when its completion is scheduled, and no frame waits without one. -/
def Live (host : HostDevice) : Prop :=
  (host.txState = .busy ↔ 0 < host.scheduled) ∧ (host.queue ≠ [] → 0 < host.scheduled)

instance (host : HostDevice) : Decidable host.Live := inferInstanceAs (Decidable (_ ∧ _))

/-- When a transmission of the detached device ends, at most one more frame waits. -/
def Clear (host : HostDevice) : Event → Prop
  | .transmitEnd => (∃ slot ∈ host.slot, slot.active = false) → host.queue.length ≤ 1
  | _ => True

end

/-- The device between two events. -/
inductive Kept (host : HostDevice) : Prop
  | idle (hstate : host.txState = .ready) (hqueue : host.queue = []) (hscheduled : host.scheduled = 0)
      (hwire : ∀ slot ∈ host.slot, slot.currentPkt = none)
  | sending {slot : Slot} {frame : Frame} (hstate : host.txState = .busy)
      (hscheduled : host.scheduled = 1) (hslot : host.slot = some slot)
      (hwire : slot.currentPkt = some frame)

variable {accepts : List Frame → Frame → Bool} {frame : Frame} {host host' : HostDevice}

theorem Kept.live (h : Kept host) : host.Live := by
  cases h with
  | idle hstate hqueue hscheduled hwire => simp [Live, hstate, hqueue, hscheduled]
  | sending hstate hscheduled hslot hwire => simp [Live, hstate, hscheduled]

theorem tryTransmit_cons {slot : Slot} {rest : List Frame} (hstate : host.txState = .ready)
    (hqueue : host.queue = frame :: rest) (hscheduled : host.scheduled = 0)
    (hslot : host.slot = some slot) (hwire : slot.currentPkt = none) :
    (slot.active = true ∨ rest = [] → Kept host.tryTransmit) ∧
      (¬ (slot.active = true ∨ rest = []) → ¬ host.tryTransmit.Live) := by
  cases hactive : slot.active with
  | true =>
      have hkept : Kept host.tryTransmit := by
        simp only [tryTransmit, hstate, hqueue, transmitStart, hslot, Option.bind_some,
          Slot.transmitStart, hwire, hactive, hscheduled]
        exact .sending rfl rfl rfl rfl
      simpa using hkept
  | false =>
      have hdropped : host.tryTransmit = { host with queue := rest } := by
        simp [tryTransmit, hstate, hqueue, transmitStart, hslot, Slot.transmitStart, hactive]
      rw [hdropped]
      constructor
      · rintro (hfalse | rfl)
        · cases hfalse
        · refine .idle hstate rfl hscheduled ?_
          simpa [hslot] using hwire
      · intro hne
        simpa [Live, hstate, hscheduled] using hne

theorem Kept.slot_map {f : Slot → Slot} (h : Kept host)
    (hf : ∀ slot, (f slot).currentPkt = slot.currentPkt) :
    Kept { host with slot := host.slot.map f } := by
  cases h with
  | idle hstate hqueue hscheduled hwire =>
      refine .idle hstate hqueue hscheduled ?_
      simpa [hf] using hwire
  | sending hstate hscheduled hslot hwire =>
      exact .sending hstate hscheduled (by rw [hslot, Option.map_some]) ((hf _).trans hwire)

theorem Kept.sendFrom (h : Kept host) : Kept (host.sendFrom accepts frame) := by
  cases hslot : host.slot with
  | none => simpa [HostDevice.sendFrom, hslot] using h
  | some slot =>
      cases haccepts : accepts host.queue frame with
      | false => simpa [HostDevice.sendFrom, hslot, haccepts] using h
      | true =>
          have hsend : host.sendFrom accepts frame =
              tryTransmit { host with queue := host.queue ++ [frame] } := by
            simp [HostDevice.sendFrom, hslot, haccepts]
          rw [hsend]
          cases h with
          | idle hstate hqueue hscheduled hwire =>
              apply (@tryTransmit_cons frame { host with queue := host.queue ++ [frame] } slot []
                hstate (by rw [hqueue, List.nil_append]) hscheduled hslot (hwire slot hslot)).1
              exact .inr rfl
          | sending hstate hscheduled hslot' hwire =>
              have hsame : tryTransmit { host with queue := host.queue ++ [frame] } =
                  { host with queue := host.queue ++ [frame] } := by
                simp [tryTransmit, hstate]
              rw [hsame]
              exact .sending hstate hscheduled hslot' hwire

theorem Kept.transmitEnd (h : Kept host) (hpos : 0 < host.scheduled) :
    (Clear host .transmitEnd → Kept host.transmitEnd) ∧
      (¬ Clear host .transmitEnd → ¬ host.transmitEnd.Live) := by
  cases h with
  | idle hstate hqueue hscheduled hwire => omega
  | @sending slot frame hstate hscheduled hslot hwire =>
      let ended : HostDevice := ⟨some slot.transmitEnd, .ready, host.queue, 0⟩
      have hended : host.transmitEnd = ended.tryTransmit := by
        simp [HostDevice.transmitEnd, hslot, hscheduled, ended]
      rw [hended]
      cases hqueue : host.queue with
      | nil =>
          have hsame : ended.tryTransmit = ended := by simp [tryTransmit, ended, hqueue]
          have hidle : Kept ended := .idle rfl hqueue rfl (by simp [ended, Slot.transmitEnd])
          simpa [hsame, Clear, hqueue] using hidle
      | cons next rest =>
          have hsend := @tryTransmit_cons next ended slot.transmitEnd rest rfl hqueue rfl rfl rfl
          have hclear : Clear host .transmitEnd ↔ slot.active = true ∨ rest = [] := by
            cases hactive : slot.active <;> simp [Clear, hslot, hqueue, hactive]
          rw [hclear]
          exact hsend

theorem Kept.step {e : Event} (h : Kept host) (hstep : step accepts host e = some host') :
    (Clear host e → Kept host') ∧ (¬ Clear host e → ¬ host'.Live) := by
  have hkept (hkept : Kept host') (hclear : Clear host e) :
      (Clear host e → Kept host') ∧ (¬ Clear host e → ¬ host'.Live) :=
    ⟨fun _ => hkept, fun hnot => absurd hclear hnot⟩
  cases e with
  | attach =>
      rw [HostDevice.step] at hstep
      split at hstep
      · rename_i hnone
        cases hstep
        refine hkept ?_ trivial
        cases h with
        | idle hstate hqueue hscheduled hwire =>
            exact .idle hstate hqueue hscheduled (by simp [Slot.attached])
        | sending hstate hscheduled hslot hwire => simp [hslot] at hnone
      · cases hstep
  | sendFrom frame =>
      cases hstep
      exact hkept h.sendFrom trivial
  | detach =>
      cases hstep
      exact hkept (h.slot_map fun _ => rfl) trivial
  | reattach =>
      cases hstep
      exact hkept (h.slot_map fun _ => rfl) trivial
  | transmitEnd =>
      rw [HostDevice.step] at hstep
      split at hstep
      · rename_i hpos
        cases hstep
        exact h.transmitEnd hpos
      · cases hstep

end HostDevice

/-! ## Runs -/

section

variable {accepts : List Frame → Frame → Bool}

/-- No port of the switch and no host device strands a frame in exactly the runs where every port that
is made to send has a clear wire, and a detached device ends no transmission with two frames waiting. -/
theorem live_iff {es : List CustomSwitch.Event} {s : CustomSwitch} {hs : List HostDevice.Event}
    {host : HostDevice} (hswitch : Run (CustomSwitch.step accepts) anyEvent .initial es s)
    (hhost : Run (HostDevice.step accepts) anyEvent .initial hs host) :
    ((∀ bs cs u, es = bs ++ cs → Run (CustomSwitch.step accepts) anyEvent .initial bs u → u.Live) ↔
      Run (CustomSwitch.step accepts) (CustomSwitch.Clear accepts) .initial es s) ∧
    ((∀ bs cs u, hs = bs ++ cs → Run (HostDevice.step accepts) anyEvent .initial bs u → u.Live) ↔
      Run (HostDevice.step accepts) HostDevice.Clear .initial hs host) := by
  constructor
  · apply Run.guarded_iff (I := CustomSwitch.Kept) (P := CustomSwitch.Live) _ _ _ hswitch
    · intro port hmem
      cases hmem
    · exact fun s hkept port hmem => (hkept port hmem).live
    · exact fun s e t hkept hclear hstep => (hkept.step hstep).1 hclear
    · exact fun s e t hkept hnot hstep => (hkept.step hstep).2 hnot
  · apply Run.guarded_iff (I := HostDevice.Kept) (P := HostDevice.Live) _ _ _ hhost
    · exact .idle rfl rfl rfl (fun slot hmem => by cases hmem)
    · exact fun host hkept => hkept.live
    · exact fun host e host' hkept hclear hstep => (hkept.step hstep).1 hclear
    · exact fun host e host' hkept hnot hstep => (hkept.step hstep).2 hnot

end

/-! ### A control-plane frame on the wire -/

instance (accepts : List Frame → Frame → Bool) (s : CustomSwitch) (i : Nat) (port : Port)
    (e : CustomSwitch.Event) : Decidable (CustomSwitch.PortClear accepts s i port e) :=
  match e with
  | .receive _ (some _) => inferInstanceAs (Decidable (_ → _ → _ → _))
  | .complete _ => inferInstanceAs (Decidable (_ → _ → _ → _))
  | .receive _ none | .attach | .addForwardingRule _ _ | .addAddrForwarding _ _ | .sendFrom _
  | .detach _ | .reattach _ => isTrue trivial

instance (accepts : List Frame → Frame → Bool) (s : CustomSwitch) (e : CustomSwitch.Event) :
    Decidable (CustomSwitch.Clear accepts s e) :=
  inferInstanceAs (Decidable (∀ i, (h : i < s.ports.length) → _))

instance (s : CustomSwitch) : Decidable s.Live := inferInstanceAs (Decidable (∀ port ∈ s.ports, _))

instance (host : HostDevice) (e : HostDevice.Event) : Decidable (host.Clear e) :=
  match e with
  | .transmitEnd => inferInstanceAs (Decidable (_ → _))
  | .attach | .sendFrom _ | .detach | .reattach => isTrue trivial

/-- A queue of two frames. -/
def twoFrames (queue : List Frame) (_ : Frame) : Bool := queue.length < 2

/-- A frame to the host with address 5. -/
def frameTo (uid : Nat) : Frame := ⟨uid, 0x0800, 5, false, none⟩

/-- Two ports; the host with address 5 is behind the second one. -/
def twoPorts : List CustomSwitch.Event := [.attach, .attach, .addAddrForwarding 5 1]

/-- Three frames for the second port, with a control-plane frame behind them. -/
def forwarded : List CustomSwitch.Event :=
  twoPorts ++ [.receive (frameTo 0) (some 0), .receive (frameTo 1) (some 0), .complete 1,
    .receive (frameTo 2) (some 0), .complete 1, .complete 1, .sendFrom (frameTo 3)]

/-- A host sends two frames and is detached while the second one waits. -/
def detachedOnce : List HostDevice.Event :=
  [.attach, .sendFrom (frameTo 0), .sendFrom (frameTo 1), .detach, .transmitEnd]

theorem forwarded_live :
    (∃ s, Run (CustomSwitch.step twoFrames) anyEvent .initial forwarded s ∧
      ∀ bs cs u, forwarded = bs ++ cs →
        Run (CustomSwitch.step twoFrames) anyEvent .initial bs u → u.Live) ∧
    ∃ host, Run (HostDevice.step twoFrames) anyEvent .initial detachedOnce host ∧
      ∀ bs cs u, detachedOnce = bs ++ cs →
        Run (HostDevice.step twoFrames) anyEvent .initial bs u → u.Live := by
  obtain ⟨s, hs, -⟩ := exists_run (CustomSwitch.step twoFrames) (CustomSwitch.Clear twoFrames)
    (fun _ => True) .initial forwarded (by decide +kernel)
  obtain ⟨host, hhost, -⟩ := exists_run (HostDevice.step twoFrames) HostDevice.Clear
    (fun _ => True) .initial detachedOnce (by decide +kernel)
  have hlive := live_iff hs.any hhost.any
  exact ⟨⟨s, hs.any, hlive.1.mpr hs⟩, host, hhost.any, hlive.2.mpr hhost⟩

/-- A frame for a ready port while a control-plane frame is on its wire. -/
def behindControl : List CustomSwitch.Event :=
  twoPorts ++ [.sendFrom (frameTo 0), .receive (frameTo 1) (some 0), .complete 0, .complete 1,
    .receive (frameTo 2) (some 0)]

/-- The second port stays busy with nothing scheduled, and the next frame waits for ever. -/
theorem behindControl_not_live :
    ∃ s, Run (CustomSwitch.step twoFrames) anyEvent .initial behindControl s ∧ ¬ s.Live :=
  exists_run (CustomSwitch.step twoFrames) anyEvent (fun s => ¬ s.Live) .initial behindControl
    (by decide +kernel)

end CollectiveSim.P4
