import CollectiveSim.Fabric.Forwarding
import CollectiveSim.Switch.ByteMatrix
import CollectiveSim.Switch.PfcView

/-!
# Pause and resume between a switch and its neighbour

A port of a switch, the link behind it and the device at the other end. `SendPfc` reads the address of
an interface that the node may not have, and `Resume` reads the queue pair with the number of the
priority.
-/

namespace CollectiveSim.Fabric

/-- The addresses of the interfaces of an `Ipv4` object. -/
abbrev Ipv4 := List (List Nat)

/-- `GetObject<Ipv4>()->GetAddress(m_ifIndex, 0)`; `none` where there is no object, interface or
address. -/
def getSource (ipv4 : Option Ipv4) (ifIndex : Nat) : Option Nat :=
  ipv4.bind fun interfaces => interfaces[ifIndex]?.bind List.head?

namespace Topology

variable (t : Topology)

/-- The `Ipv4` objects after `Build`, which installs the internet stack on the GPUs and adds an interface
with their address for each edge. The other nodes keep what they had. -/
def ipv4 (before : Nat → Option Ipv4) (n : Nat) : Option Ipv4 :=
  if n ∈ t.gpus then some ([0x7F000001] :: (t.adj n).map fun _ => [t.ipOf n]) else before n

theorem getSource_ipv4 {before : Nat → Option Ipv4} {n : Nat} (h : n ∉ t.gpus)
    (hbefore : before n = none) (ifIndex : Nat) : getSource (t.ipv4 before n) ifIndex = none := by
  rw [ipv4, if_neg h, hbefore]
  rfl

end Topology

end CollectiveSim.Fabric

namespace CollectiveSim.Switch

open Framework

/-- What stops the program. -/
inductive PfcFault
  /-- `SendPfc` on a node without the object, interface or address. -/
  | noSource
  /-- The assertion "Must be PAUSEd". -/
  | notPaused
  /-- `GetQp` behind the queue pairs, or without a group. -/
  | noQueuePair
  deriving DecidableEq

/-- A switch and one of its ports: the addresses that its ports find for a PFC frame, the `PauseTime` of
the device, and `QbbEnabled` of the device at the other end. -/
structure PfcLinkConfig where
  node : NodeConfig
  port : Nat
  source : Nat → Option Nat
  pauseTime : UInt32
  qbbEnabled : Bool

/-- The device at the other end. `residents` counts the queue pairs of its group, `none` where it has
no group, as on a switch. -/
structure PfcPeer where
  paused : Nat → Bool
  residents : Option Nat

namespace PfcPeer

variable (cfg : PfcLinkConfig) (peer : PfcPeer)

/-- `QbbNetDevice::Resume`, without the sending that follows. -/
def resume (qIndex : Nat) : PfcPeer × Option PfcFault :=
  if peer.paused qIndex then
    ({ peer with paused := Function.update peer.paused qIndex false },
      if ∃ n ∈ peer.residents, qIndex < n then none else some .noQueuePair)
  else (peer, some .notPaused)

/-- `QbbNetDevice::Receive`. -/
def receive : Frame → PfcPeer × Option PfcFault
  | .received _ => (peer, none)
  | .pfc qIndex pause =>
      if !cfg.qbbEnabled then (peer, none)
      else if 0 < (if pause then cfg.pauseTime else 0) then
        ({ peer with paused := Function.update peer.paused qIndex true }, none)
      else peer.resume qIndex

/-- The device at the other end can take a frame: a pause has a time, and there are more queue pairs than
the priority of a resume. -/
def Ready : Frame → Prop
  | .received _ => True
  | .pfc qIndex pause =>
      if pause then 0 < cfg.pauseTime else ∃ n ∈ peer.residents, qIndex < n

instance (f : Frame) : Decidable (peer.Ready cfg f) := by
  unfold Ready
  cases f <;> infer_instance

end PfcPeer

/-- The switch, the frames on the wire in order, and the other end. -/
structure PfcLink where
  node : Node
  wire : List Frame
  peer : PfcPeer
  fault : Option PfcFault

/-- An event of the switch, a frame at the end of the wire, or queue pairs that come and go. -/
inductive PfcLinkEvent
  | node (e : Node.Event)
  | receive
  | residents (n : Nat)

namespace PfcLink

variable (cfg : PfcLinkConfig) (s : PfcLink)

/-- A link on which nothing has been sent. -/
def start (residents : Option Nat) : PfcLink := ⟨.initial, [], ⟨fun _ => false, residents⟩, none⟩

/-- The frame that an event of the switch puts on the wire of the port. -/
def transmitted : Node.Event → List Frame
  | .transmit port =>
      if port = cfg.port then
        match (s.node.devices port).queue.dequeueRR (s.node.devices port).paused with
        | none => []
        | some (_, f, _) => [f]
      else []
  | _ => []

/-- The PFC frames that the switch has sent since. -/
def newFrames (node : Node) : List (Nat × Nat × Bool) :=
  node.pfcView.sent.drop s.node.pfcView.sent.length

/-- An event that takes the link down. -/
def takesDown (cfg : PfcLinkConfig) : Node.Event → Bool
  | .takeDown port => decide (port = cfg.port)
  | _ => false

/-- Nothing happens after a fault, and the link is not taken down. -/
def step : PfcLinkEvent → Option PfcLink
  | .node e =>
      if s.fault.isSome || takesDown cfg e then none
      else (Node.step cfg.node s.node e).map fun node =>
        { s with
          node := node
          wire := s.wire ++ s.transmitted cfg e
          fault := if ∃ x ∈ s.newFrames node, cfg.source x.1 = none then some .noSource else none }
  | .receive =>
      if s.fault.isSome then none
      else
        match s.wire with
        | [] => none
        | f :: rest =>
            let (peer, fault) := s.peer.receive cfg f
            some { s with wire := rest, peer := peer, fault := fault }
  | .residents n =>
      if s.fault.isSome ∨ s.peer.residents = none then none
      else some { s with peer := { s.peer with residents := some n } }

/-- The frames of the switch find an address, and a pause a place in its output queue; and the device at
the other end can take what it receives. -/
def Sound (cfg : PfcLinkConfig) (s : PfcLink) : PfcLinkEvent → Prop
  | .node e => ∀ node ∈ Node.step cfg.node s.node e, ∀ x ∈ s.newFrames node,
      cfg.source x.1 ≠ none ∧ (x.2.2 = true → s.node.TakesPfc cfg.node x.1 x.2.1 true)
  | .receive => ∀ f ∈ s.wire.head?, cfg.qbbEnabled = true → s.peer.Ready cfg f
  | .residents _ => True

instance (e : PfcLinkEvent) : Decidable (Sound cfg s e) := by
  unfold Sound
  cases e <;> infer_instance

/-! ### Sequences of frames -/

/-- Frames for one priority that a device in a state of pause can take: every resume finds a pause. -/
def Takes : Bool → List Bool → Prop
  | _, [] => True
  | paused, pause :: frames => (pause = false → paused = true) ∧ Takes pause frames

/-- The state of pause after some frames. -/
def after : Bool → List Bool → Bool
  | paused, [] => paused
  | _, pause :: frames => after pause frames

theorem takes_append (paused : Bool) (frames : List Bool) (pause : Bool) :
    Takes paused (frames ++ [pause]) ↔
      Takes paused frames ∧ (pause = false → after paused frames = true) := by
  induction frames generalizing paused with
  | nil => simp [Takes, after]
  | cons f frames ih => simp [Takes, after, ih, and_assoc]

theorem after_append (paused : Bool) (frames : List Bool) (pause : Bool) :
    after paused (frames ++ [pause]) = pause := by
  induction frames generalizing paused with
  | nil => rfl
  | cons f frames ih => exact ih f

/-- The frames for one priority. -/
def ofPriority (q : Nat) (frames : List (Nat × Bool)) : List Bool :=
  (frames.filter fun x => x.1 = q).map Prod.snd

@[simp] theorem ofPriority_nil (q : Nat) : ofPriority q [] = [] := rfl

theorem ofPriority_append (q : Nat) (frames frames' : List (Nat × Bool)) :
    ofPriority q (frames ++ frames') = ofPriority q frames ++ ofPriority q frames' := by
  simp [ofPriority]

theorem ofPriority_cons (q qIndex : Nat) (pause : Bool) (frames : List (Nat × Bool)) :
    ofPriority q ((qIndex, pause) :: frames) =
      if qIndex = q then pause :: ofPriority q frames else ofPriority q frames := by
  by_cases h : qIndex = q
  · simp [ofPriority, h]
  · simp [ofPriority, h]

/-- The frames on the wire and behind it in the output queue of highest priority. -/
def pending : List (Nat × Bool) :=
  s.wire.filterMap Frame.pfc? ++ s.node.pfcView.frames (cfg.port, 0)

/-- The other end can take everything that is pending, and after that it is paused where the switch says
so. Frames wait in the queue of highest priority only. -/
structure InStep : Prop where
  ok : s.fault = none
  queues : ∀ q, q ≠ 0 → s.node.pfcView.frames (cfg.port, q) = []
  takes : cfg.qbbEnabled = true → ∀ q, Takes (s.peer.paused q) (ofPriority q (s.pending cfg))
  after : cfg.qbbEnabled = true → ∀ q, s.node.pfcView.paused (cfg.port, q) = true →
    after (s.peer.paused q) (ofPriority q (s.pending cfg)) = true

/-- The same for the view of the switch after a part of an event. -/
structure ViewInStep (cfg : PfcLinkConfig) (peer : PfcPeer) (wire : List (Nat × Bool))
    (v : PfcView) : Prop where
  queues : ∀ q, q ≠ 0 → v.frames (cfg.port, q) = []
  takes : cfg.qbbEnabled = true → ∀ q,
    Takes (peer.paused q) (ofPriority q (wire ++ v.frames (cfg.port, 0)))
  after : cfg.qbbEnabled = true → ∀ q, v.paused (cfg.port, q) = true →
    PfcLink.after (peer.paused q) (ofPriority q (wire ++ v.frames (cfg.port, 0))) = true

variable {cfg s} {t : PfcLink} {peer : PfcPeer} {wire : List (Nat × Bool)} {v v' : PfcView}

theorem inStep_iff : s.InStep cfg ↔ s.fault = none ∧
    ViewInStep cfg s.peer (s.wire.filterMap Frame.pfc?) s.node.pfcView :=
  ⟨fun h => ⟨h.ok, h.queues, h.takes, h.after⟩, fun h => ⟨h.1, h.2.queues, h.2.takes, h.2.after⟩⟩

theorem inStep_start (residents : Option Nat) : (start residents).InStep cfg := by
  have hnone (k : Nat × Nat) : (start residents).node.pfcView.frames k = [] := rfl
  refine ⟨rfl, fun q _ => hnone _, ?_, ?_⟩
  · intro _ q
    exact trivial
  · intro _ q h
    cases h

/-- A flag that turns over keeps both ends in step, if its frame is taken or resumes. -/
theorem ViewInStep.send (h : ViewInStep cfg peer wire v) {port qIndex : Nat} {pause taken : Bool}
    (hflag : v.paused (port, qIndex) = !pause) (htaken : pause = true → taken = true) :
    ViewInStep cfg peer wire (v.send port qIndex pause taken) := by
  by_cases hport : port = cfg.port
  · subst hport
    have hqueues (q : Nat) (hq : q ≠ 0) :
        (v.send cfg.port qIndex pause taken).frames (cfg.port, q) = [] := by
      rw [PfcView.send_frames_of_ne (by simp [hq])]
      exact h.queues q hq
    cases taken with
    | false =>
        -- a resume that is lost leaves the other end paused
        have hresume : pause = false := by
          cases pause with
          | true => exact absurd (htaken rfl) (by decide)
          | false => rfl
        subst hresume
        refine ⟨hqueues, h.takes, ?_⟩
        intro hqbb q hpaused
        rw [PfcView.send_paused] at hpaused
        by_cases hq : q = qIndex
        · rw [hq, Function.update_self] at hpaused
          cases hpaused
        · rw [Function.update_of_ne (by simp [hq])] at hpaused
          exact h.after hqbb q hpaused
    | true =>
        refine ⟨hqueues, ?_, ?_⟩
        · intro hqbb q
          rw [PfcView.send_frames_taken, ← List.append_assoc, ofPriority_append, ofPriority_cons]
          by_cases hq : qIndex = q
          · rw [if_pos hq, ofPriority_nil, takes_append]
            refine ⟨h.takes hqbb q, ?_⟩
            intro hresume
            rw [hresume, hq] at hflag
            exact h.after hqbb q hflag
          · rw [if_neg hq, ofPriority_nil, List.append_nil]
            exact h.takes hqbb q
        · intro hqbb q hpaused
          rw [PfcView.send_paused] at hpaused
          rw [PfcView.send_frames_taken, ← List.append_assoc, ofPriority_append, ofPriority_cons]
          by_cases hq : qIndex = q
          · rw [hq, Function.update_self] at hpaused
            rw [if_pos hq, ofPriority_nil, after_append]
            exact hpaused
          · rw [Function.update_of_ne (by simp [Ne.symm hq])] at hpaused
            rw [if_neg hq, ofPriority_nil, List.append_nil]
            exact h.after hqbb q hpaused
  · have hframes (q : Nat) :
        (v.send port qIndex pause taken).frames (cfg.port, q) = v.frames (cfg.port, q) :=
      PfcView.send_frames_of_ne (by simp [Ne.symm hport])
    have hpaused (q : Nat) :
        (v.send port qIndex pause taken).paused (cfg.port, q) = v.paused (cfg.port, q) :=
      Function.update_of_ne (by simp [Ne.symm hport]) _ _
    refine ⟨fun q hq => (hframes q).trans (h.queues q hq), ?_, ?_⟩
    · intro hqbb q
      rw [hframes]
      exact h.takes hqbb q
    · intro hqbb q hp
      rw [hpaused] at hp
      rw [hframes]
      exact h.after hqbb q hp

theorem ViewInStep.transmit (h : ViewInStep cfg peer wire v) {q : Nat} {f : Option (Nat × Bool)}
    {rest : List (Nat × Bool)} (hfront : v.frames (cfg.port, q) = f.toList ++ rest) :
    ViewInStep cfg peer (wire ++ f.toList) (v.setFrames (cfg.port, q) rest) := by
  by_cases hq : q = 0
  · subst hq
    have hsame : wire ++ f.toList ++ (v.setFrames (cfg.port, 0) rest).frames (cfg.port, 0) =
        wire ++ v.frames (cfg.port, 0) := by
      rw [PfcView.setFrames_frames, Function.update_self, hfront, List.append_assoc]
    refine ⟨?_, ?_, ?_⟩
    · intro j hj
      rw [PfcView.setFrames_frames, Function.update_of_ne (by simp [hj])]
      exact h.queues j hj
    · intro hqbb j
      rw [hsame]
      exact h.takes hqbb j
    · intro hqbb j hp
      rw [hsame]
      exact h.after hqbb j hp
  · -- the other queues have no PFC frames
    have hnone := h.queues q hq
    rw [hfront, List.append_eq_nil_iff] at hnone
    have hsame : v.setFrames (cfg.port, q) rest = v := by
      have hself : Function.update v.frames (cfg.port, q) rest = v.frames := by
        rw [← Function.update_eq_self (cfg.port, q) v.frames, h.queues q hq, hnone.2,
          Function.update_idem]
      rw [PfcView.setFrames, hself]
    rw [hsame, hnone.1, List.append_nil]
    exact h

theorem ViewInStep.other (h : ViewInStep cfg peer wire v)
    (hframes : ∀ q, v'.frames (cfg.port, q) = v.frames (cfg.port, q))
    (hpaused : v'.paused = v.paused) : ViewInStep cfg peer wire v' := by
  refine ⟨fun q hq => (hframes q).trans (h.queues q hq), ?_, ?_⟩
  · intro hqbb q
    rw [hframes]
    exact h.takes hqbb q
  · intro hqbb q hp
    rw [hpaused] at hp
    rw [hframes]
    exact h.after hqbb q hp

theorem newFrames_turns {node : Node} {s₀ : Node} (hsent : v.sent = s.node.pfcView.sent)
    (h : Node.Turns cfg.node s₀ v node.pfcView) :
    (node.pfcView = v ∧ s.newFrames node = []) ∨
    ∃ port qIndex pause taken, v.paused (port, qIndex) = !pause ∧
      (pause = true → taken = decide (s₀.TakesPfc cfg.node port qIndex true)) ∧
      node.pfcView = v.send port qIndex pause taken ∧
      s.newFrames node = [(port, qIndex, pause)] := by
  rcases h with h | ⟨port, qIndex, pause, taken, hflag, htaken, h⟩
  · left
    refine ⟨h, ?_⟩
    rw [newFrames, h, hsent, List.drop_length]
  · right
    refine ⟨port, qIndex, pause, taken, hflag, htaken, h, ?_⟩
    rw [newFrames, h, ← hsent, PfcView.send, List.drop_left]

theorem step_node {e : Node.Event} (h : s.step cfg (.node e) = some t) :
    s.fault = none ∧ takesDown cfg e = false ∧ ∃ node, Node.step cfg.node s.node e = some node ∧
      t = { s with
        node := node
        wire := s.wire ++ s.transmitted cfg e
        fault := if ∃ x ∈ s.newFrames node, cfg.source x.1 = none then some .noSource else none } := by
  rw [step] at h
  split at h
  · cases h
  · rename_i hrun
    obtain ⟨node, hnode, rfl⟩ := Option.map_eq_some_iff.mp h
    rw [Bool.or_eq_true, not_or, Option.isSome_iff_ne_none, not_not, Bool.not_eq_true] at hrun
    exact ⟨hrun.1, hrun.2, node, hnode, rfl⟩

theorem ViewInStep.turns {node : Node} (h : ViewInStep cfg peer wire v)
    (hsent : v.sent = s.node.pfcView.sent) (hturns : Node.Turns cfg.node s.node v node.pfcView)
    (hsound : ∀ x ∈ s.newFrames node, cfg.source x.1 ≠ none ∧
      (x.2.2 = true → s.node.TakesPfc cfg.node x.1 x.2.1 true)) :
    ViewInStep cfg peer wire node.pfcView ∧
      ¬ ∃ x ∈ s.newFrames node, cfg.source x.1 = none := by
  rcases newFrames_turns hsent hturns with
    ⟨hview, hnew⟩ | ⟨port, qIndex, pause, taken, hflag, htaken, hview, hnew⟩
  · rw [hview, hnew]
    exact ⟨h, by simp⟩
  · obtain ⟨hsource, hroom⟩ := hsound (port, qIndex, pause) (by simp [hnew])
    rw [hview, hnew]
    refine ⟨h.send hflag ?_, by simp [hsource]⟩
    intro hpause
    rw [htaken hpause]
    exact decide_eq_true (hroom hpause)

/-- Up to its last turn an event of the switch puts a frame of the port on the wire, or does not touch
the frames of the port. -/
inductive Moves (cfg : PfcLinkConfig) (v : PfcView) (sent : List (Nat × Bool)) (v' : PfcView) : Prop
  | other (hsent : sent = []) (hframes : ∀ q, v'.frames (cfg.port, q) = v.frames (cfg.port, q))
      (hpaused : v'.paused = v.paused)
  | transmit (q : Nat) (f : Option (Nat × Bool)) (rest : List (Nat × Bool))
      (hsent : sent = f.toList) (hfront : v.frames (cfg.port, q) = f.toList ++ rest)
      (h : v' = v.setFrames (cfg.port, q) rest)

theorem node_turns {e : Node.Event} {node : Node} (hup : takesDown cfg e = false)
    (hnode : Node.step cfg.node s.node e = some node) :
    ∃ v, v.sent = s.node.pfcView.sent ∧ Node.Turns cfg.node s.node v node.pfcView ∧
      Moves cfg s.node.pfcView ((s.transmitted cfg e).filterMap Frame.pfc?) v := by
  cases e with
  | arrive p => exact ⟨s.node.pfcView, rfl, Node.turns_arrive hnode, .other rfl (fun _ => rfl) rfl⟩
  | transmit port =>
      obtain ⟨q, f, queue, rest, hdeq, hfront, hturns⟩ := Node.turns_transmit hnode
      refine ⟨s.node.pfcView.setFrames (port, q) rest, rfl, hturns, ?_⟩
      rw [transmitted]
      by_cases hport : port = cfg.port
      · subst hport
        have hone : [f].filterMap Frame.pfc? = f.pfc?.toList := by cases f <;> rfl
        rw [if_pos rfl, hdeq]
        exact .transmit q f.pfc? rest hone hfront rfl
      · rw [if_neg hport]
        refine .other rfl ?_ rfl
        intro j
        rw [PfcView.setFrames_frames, Function.update_of_ne (by simp [Ne.symm hport])]
  | pfcReceived port qIndex pause =>
      exact ⟨s.node.pfcView, rfl, .same (Node.pfcView_pfcReceived hnode),
        .other rfl (fun _ => rfl) rfl⟩
  | takeDown port =>
      obtain ⟨hpaused, hsent, hframes⟩ := Node.pfcView_takeDown hnode
      have hport : port ≠ cfg.port := by simpa [takesDown] using hup
      exact ⟨node.pfcView, hsent, .same rfl,
        .other rfl (fun q => hframes _ (Ne.symm hport)) hpaused⟩

theorem ViewInStep.moves {sent : List (Nat × Bool)} (h : ViewInStep cfg peer wire v)
    (hmoves : Moves cfg v sent v') : ViewInStep cfg peer (wire ++ sent) v' := by
  cases hmoves with
  | other hsent hframes hpaused =>
      rw [hsent, List.append_nil]
      exact h.other hframes hpaused
  | transmit q f rest hsent hfront hview =>
      rw [hsent, hview]
      exact h.transmit hfront

theorem inStep_node {e : Node.Event} (h : s.InStep cfg) (hsound : Sound cfg s (.node e))
    (hstep : s.step cfg (.node e) = some t) : t.InStep cfg := by
  obtain ⟨-, hup, node, hnode, rfl⟩ := step_node hstep
  obtain ⟨v, hsent, hturns, hmoves⟩ := node_turns hup hnode
  obtain ⟨hafter, hok⟩ := ((inStep_iff.mp h).2.moves hmoves).turns hsent hturns (hsound node hnode)
  rw [← List.filterMap_append] at hafter
  exact inStep_iff.mpr ⟨if_neg hok, hafter⟩

theorem ViewInStep.receive {qIndex : Nat} {pause : Bool}
    (h : ViewInStep cfg peer ((qIndex, pause) :: wire) v) :
    ViewInStep cfg { peer with paused := Function.update peer.paused qIndex pause } wire v := by
  refine ⟨h.queues, ?_, ?_⟩
  · intro hqbb q
    have htakes := h.takes hqbb q
    rw [List.cons_append, ofPriority_cons] at htakes
    show Takes (Function.update peer.paused qIndex pause q) _
    by_cases hq : qIndex = q
    · rw [if_pos hq] at htakes
      rw [hq, Function.update_self]
      exact htakes.2
    · rw [if_neg hq] at htakes
      rw [Function.update_of_ne (Ne.symm hq)]
      exact htakes
  · intro hqbb q hp
    have hafter := h.after hqbb q hp
    rw [List.cons_append, ofPriority_cons] at hafter
    show PfcLink.after (Function.update peer.paused qIndex pause q) _ = true
    by_cases hq : qIndex = q
    · rw [if_pos hq] at hafter
      rw [hq, Function.update_self]
      exact hafter
    · rw [if_neg hq] at hafter
      rw [Function.update_of_ne (Ne.symm hq)]
      exact hafter

theorem ViewInStep.paused {qIndex : Nat} (h : ViewInStep cfg peer ((qIndex, false) :: wire) v)
    (hqbb : cfg.qbbEnabled = true) : peer.paused qIndex = true := by
  have htakes := h.takes hqbb qIndex
  rw [List.cons_append, ofPriority_cons, if_pos rfl] at htakes
  exact htakes.1 rfl

theorem receive_pfc {qIndex : Nat} {pause : Bool} (hqbb : cfg.qbbEnabled = true)
    (hpaused : pause = false → peer.paused qIndex = true)
    (hok : peer.Ready cfg (.pfc qIndex pause)) :
    peer.receive cfg (.pfc qIndex pause) =
      ({ peer with paused := Function.update peer.paused qIndex pause }, none) := by
  rw [PfcPeer.receive, hqbb]
  cases pause with
  | true =>
      have htime : 0 < cfg.pauseTime := hok
      simp [htime]
  | false =>
      have hresident : ∃ n ∈ peer.residents, qIndex < n := hok
      rw [PfcPeer.resume, if_pos (hpaused rfl), if_pos hresident]
      rfl

theorem inStep_receive (h : s.InStep cfg) (hsound : Sound cfg s .receive)
    (hstep : s.step cfg .receive = some t) : t.InStep cfg := by
  have hview := (inStep_iff.mp h).2
  rw [step] at hstep
  split at hstep
  · cases hstep
  · cases hwire : s.wire with
    | nil =>
        rw [hwire] at hstep
        cases hstep
    | cons f rest =>
        rw [hwire] at hstep hview
        rw [inStep_iff]
        cases f with
        | received p =>
            cases hstep
            exact ⟨rfl, hview⟩
        | pfc qIndex pause =>
            have hview' : ViewInStep cfg s.peer ((qIndex, pause) :: rest.filterMap Frame.pfc?)
                s.node.pfcView := hview
            by_cases hqbb : cfg.qbbEnabled = true
            · have hok := hsound (.pfc qIndex pause) (by rw [hwire]; rfl) hqbb
              have hpeer : s.peer.receive cfg (.pfc qIndex pause) =
                  ({ s.peer with paused := Function.update s.peer.paused qIndex pause }, none) := by
                refine receive_pfc hqbb ?_ hok
                intro hresume
                rw [hresume] at hview'
                exact hview'.paused hqbb
              simp only [hpeer, Option.some_inj] at hstep
              cases hstep
              exact ⟨rfl, hview'.receive⟩
            · have hpeer : s.peer.receive cfg (.pfc qIndex pause) = (s.peer, none) := by
                rw [PfcPeer.receive]
                simp [hqbb]
              simp only [hpeer, Option.some_inj] at hstep
              cases hstep
              exact ⟨rfl, hview.queues, fun hyes => absurd hyes hqbb, fun hyes => absurd hyes hqbb⟩

theorem inStep_residents {n : Nat} (h : s.InStep cfg)
    (hstep : s.step cfg (.residents n) = some t) : t.InStep cfg := by
  rw [step] at hstep
  split at hstep
  · cases hstep
  · cases hstep
    exact ⟨h.ok, h.queues, h.takes, h.after⟩

theorem run_inStep {es : List PfcLinkEvent} (hrun : Run (step cfg) (Sound cfg) s es t)
    (h : s.InStep cfg) : t.InStep cfg := by
  apply hrun.invariant _ h
  intro s e t hs hok hstep
  cases e with
  | node e => exact inStep_node hs hok hstep
  | receive => exact inStep_receive hs hok hstep
  | residents n => exact inStep_residents hs hstep

/-! ### A switch without addresses -/

/-- No PFC frame has been sent, and none waits. -/
structure Quiet (cfg : PfcLinkConfig) (s : PfcLink) : Prop where
  ok : s.fault = none
  sent : s.node.pfcView.sent = []
  frames : ∀ q, s.node.pfcView.frames (cfg.port, q) = []
  wire : s.wire.filterMap Frame.pfc? = []

theorem quiet_start (residents : Option Nat) : (start residents).Quiet cfg :=
  ⟨rfl, rfl, fun _ => rfl, rfl⟩

/-- A switch that finds no address stays quiet or fails with the first frame that it sends. -/
theorem step_quiet {e : PfcLinkEvent} (hsource : ∀ port, cfg.source port = none) (h : s.Quiet cfg)
    (hstep : s.step cfg e = some t) :
    t.Quiet cfg ∨ (t.fault ≠ none ∧ t.node.pfcView.sent ≠ []) := by
  cases e with
  | node e =>
      obtain ⟨-, hup, node, hnode, rfl⟩ := step_node hstep
      obtain ⟨v, hsent, hturns, hmoves⟩ := node_turns hup hnode
      rcases newFrames_turns hsent hturns with
        ⟨hview, hnew⟩ | ⟨port, qIndex, pause, taken, -, -, hview, hnew⟩
      · left
        have hstill : (∀ q, v.frames (cfg.port, q) = []) ∧
            (s.transmitted cfg e).filterMap Frame.pfc? = [] := by
          cases hmoves with
          | other hnone hframes => exact ⟨fun q => (hframes q).trans (h.frames q), hnone⟩
          | transmit q f rest hone hfront hset =>
              rw [h.frames q, eq_comm, List.append_eq_nil_iff] at hfront
              refine ⟨?_, hone.trans hfront.1⟩
              intro j
              rw [hset, PfcView.setFrames_frames]
              by_cases hj : j = q
              · rw [hj, Function.update_self]
                exact hfront.2
              · rw [Function.update_of_ne (by simp [hj])]
                exact h.frames j
        refine ⟨if_neg (by simp [hnew]), ?_, ?_, ?_⟩
        · rw [hview, hsent]
          exact h.sent
        · rw [hview]
          exact hstill.1
        · show (s.wire ++ s.transmitted cfg e).filterMap Frame.pfc? = []
          rw [List.filterMap_append, h.wire, hstill.2]
          rfl
      · right
        constructor
        · show (if ∃ x ∈ s.newFrames node, cfg.source x.1 = none then some PfcFault.noSource
            else none) ≠ none
          rw [if_pos ⟨(port, qIndex, pause), by simp [hnew], hsource port⟩]
          exact Option.some_ne_none _
        · show node.pfcView.sent ≠ []
          rw [hview, PfcView.send_sent]
          simp
  | receive =>
      left
      rw [step] at hstep
      split at hstep
      · cases hstep
      · cases hwire : s.wire with
        | nil =>
            rw [hwire] at hstep
            cases hstep
        | cons f rest =>
            have hquiet := h.wire
            rw [hwire] at hstep hquiet
            cases f with
            | received p =>
                cases hstep
                exact ⟨rfl, h.sent, h.frames, hquiet⟩
            | pfc qIndex pause => cases hquiet
  | residents n =>
      left
      rw [step] at hstep
      split at hstep
      · cases hstep
      · cases hstep
        exact ⟨h.ok, h.sent, h.frames, h.wire⟩

theorem step_none_of_fault {e : PfcLinkEvent} (h : s.fault ≠ none) : s.step cfg e = none := by
  have hsome : s.fault.isSome = true := Option.isSome_iff_ne_none.mpr h
  cases e with
  | node e => simp [step, hsome]
  | receive => simp [step, hsome]
  | residents n => simp [step, hsome]

theorem run_quiet {es : List PfcLinkEvent} (hsource : ∀ port, cfg.source port = none)
    (hrun : Run (step cfg) anyEvent s es t) (h : s.Quiet cfg) :
    t.Quiet cfg ∨ (t.fault ≠ none ∧ t.node.pfcView.sent ≠ []) := by
  induction hrun with
  | nil s => exact Or.inl h
  | cons _ hstep hrest ih =>
      rcases step_quiet hsource h hstep with hquiet | hfault
      · exact ih hquiet
      · cases hrest with
        | nil => exact Or.inr hfault
        | cons _ hstep' _ =>
            rw [step_none_of_fault hfault.1] at hstep'
            cases hstep'

/-- A fabric of `Build`, with the `Ipv4` objects that other nodes had before. -/
structure Joins (t : Fabric.Topology) (before : Nat → Option Fabric.Ipv4) (n : Nat)
    (cfg : PfcLinkConfig) : Prop where
  switch : n ∉ t.gpus
  source : cfg.source = Fabric.getSource (t.ipv4 before n)

/-- On the switch of a fabric that `Build` has set up every run is free of faults in which the frames
find an address and a place, a pause carries a time, and a resume finds a queue pair of its number. Where
nothing but `Build` has installed addresses, a run is free of faults exactly if the switch has sent no
PFC frame. -/
theorem run_fault (t : Fabric.Topology) (before : Nat → Option Fabric.Ipv4) (n : Nat)
    (cfg : PfcLinkConfig) (hjoins : Joins t before n cfg) (residents : Option Nat)
    (es : List PfcLinkEvent) (s : PfcLink) :
    (Run (step cfg) (Sound cfg) (start residents) es s → s.fault = none) ∧
    (before n = none → Run (step cfg) anyEvent (start residents) es s →
      (s.fault = none ↔ s.node.pfcView.sent = [])) := by
  constructor
  · intro hrun
    exact (run_inStep hrun (inStep_start residents)).ok
  · intro hbefore hrun
    have hsource : ∀ port, cfg.source port = none := by
      intro port
      rw [hjoins.source]
      exact t.getSource_ipv4 hjoins.switch hbefore port
    rcases run_quiet hsource hrun (quiet_start residents) with hquiet | ⟨hfault, hsent⟩
    · exact iff_of_true hquiet.ok hquiet.sent
    · exact iff_of_false hfault hsent

/-- Port 0 of the switch 3 between the GPUs 0 and 1. -/
def railLink (before : Nat → Option Fabric.Ipv4) (pauseTime : UInt32) : PfcLinkConfig where
  node := Node.smallSwitch .switch
  port := 0
  source := Fabric.getSource (Fabric.Topology.twoRails.ipv4 before 3)
  pauseTime := pauseTime
  qbbEnabled := true

theorem joins_railLink (before : Nat → Option Fabric.Ipv4) (pauseTime : UInt32) :
    Joins Fabric.Topology.twoRails before 3 (railLink before pauseTime) :=
  ⟨by decide, rfl⟩

/-- Addresses that a script has given to the two interfaces of every switch. -/
def scripted : Nat → Option Fabric.Ipv4 := fun _ => some [[1], [2]]

/-- A packet that pauses its sender and, when it leaves, resumes it. -/
def pauseAndResume : List PfcLinkEvent :=
  [.node (.arrive ⟨0, 1, 3, 2500000⟩), .node (.transmit 0), .receive, .node (.transmit 1),
    .node (.transmit 0), .receive]

theorem run_fault_four :
    ∃ s, Run (step (railLink scripted 5)) (Sound (railLink scripted 5)) (start (some 4))
        pauseAndResume s ∧ s.node.pfcView.sent = [(0, 3, true), (0, 3, false)] ∧ s.fault = none ∧
      ∃ s', Run (step (railLink (fun _ => none) 5)) anyEvent (start (some 4))
          [.node (.arrive ⟨0, 1, 3, 2500000⟩)] s' ∧
        (s'.fault = none ↔ s'.node.pfcView.sent = []) := by
  obtain ⟨s, hrun, hsent⟩ := exists_run (step (railLink scripted 5)) (Sound (railLink scripted 5))
    (fun s => s.node.pfcView.sent = [(0, 3, true), (0, 3, false)]) (start (some 4)) pauseAndResume
    (by decide +kernel)
  obtain ⟨s', hrun', -⟩ := exists_run (step (railLink (fun _ => none) 5)) anyEvent
    (fun _ => True) (start (some 4)) [.node (.arrive ⟨0, 1, 3, 2500000⟩)] (by decide +kernel)
  exact ⟨s, hrun, hsent,
    (run_fault _ scripted 3 _ (joins_railLink scripted 5) (some 4) _ s).1 hrun, s', hrun',
    (run_fault _ (fun _ => none) 3 _ (joins_railLink (fun _ => none) 5) (some 4) _ s').2 rfl hrun'⟩

/-- The first pause of a switch that `Build` has set up; with addresses the resume of priority 3 for a
host with one queue pair, and a pause that carries no time. -/
theorem run_faulty :
    Joins Fabric.Topology.twoRails (fun _ => none) 3 (railLink (fun _ => none) 5) ∧
    (∃ s, Run (step (railLink (fun _ => none) 5)) anyEvent (start (some 1))
        [.node (.arrive ⟨0, 1, 3, 2500000⟩)] s ∧ s.fault = some .noSource) ∧
    (∃ s, Run (step (railLink scripted 5)) anyEvent (start (some 1)) pauseAndResume s ∧
      s.fault = some .noQueuePair) ∧
    ∃ s, Run (step (railLink scripted 0)) anyEvent (start (some 4)) (pauseAndResume.take 3) s ∧
      s.fault = some .notPaused := by
  refine ⟨joins_railLink _ _, ?_, ?_, ?_⟩
  · exact exists_run _ anyEvent (fun s : PfcLink => s.fault = some .noSource) _ _ (by decide +kernel)
  · exact exists_run _ anyEvent (fun s : PfcLink => s.fault = some .noQueuePair) _ _ (by decide +kernel)
  · exact exists_run _ anyEvent (fun s : PfcLink => s.fault = some .notPaused) _ _ (by decide +kernel)

end PfcLink

end CollectiveSim.Switch
