import CollectiveSim.Framework.Interleave
import CollectiveSim.Mtp.LogicalProcess

/-!
# Rounds of the multithreaded simulator

A round has three stages with a barrier behind each: the logical processes execute what their time
window allows, then the public process 0 does, and then the mailboxes are emptied. Within a stage
the worker threads may pick the processes in any order and interleave them call by call.
-/

namespace CollectiveSim.Mtp

open Framework

/-- A channel with its delay and the nodes of its devices. Only the devices of the first kind answer
`IsPointToPoint` with true. -/
inductive Channel where
  | pointToPoint (delay device0 device1 : Nat)
  | shared (delay : Nat) (devices : List Nat)
deriving DecidableEq, Repr

namespace Channel

def delay : Channel → Nat
  | .pointToPoint delay _ _ => delay
  | .shared delay _ => delay

def nodes : Channel → List Nat
  | .pointToPoint _ device0 device1 => [device0, device1]
  | .shared _ devices => devices

end Channel

/-- A device of a node: its channel and the position it has there. -/
structure NetDevice where
  channel : Channel
  index : Nat

namespace NetDevice

def IsPointToPoint (d : NetDevice) : Bool :=
  match d.channel with
  | .pointToPoint _ _ _ => true
  | .shared _ _ => false

/-- The node at the other end of a point-to-point channel. -/
def remoteNode (d : NetDevice) : Nat :=
  match d.channel with
  | .pointToPoint _ device0 device1 => if d.index = 0 then device1 else device0
  | .shared _ _ => 0

end NetDevice

/-- The nodes, the system each of them was put into, and the channels between them. -/
structure Network where
  nodeCount : Nat
  systemId : Nat → Nat
  channels : List Channel
  attached : ∀ ch ∈ channels, ∀ node ∈ ch.nodes, node < nodeCount

namespace Network

/-- The devices of a node. -/
def devices (net : Network) (node : Nat) : List NetDevice :=
  net.channels.flatMap fun ch =>
    (ch.nodes.zipIdx.filter fun d => d.1 = node).map fun d => ⟨ch, d.2⟩

/-- The loop over the devices of one node of the process. -/
def nodeLookAhead (net : Network) (m_systemId node lookAhead : Nat) : Nat :=
  (net.devices node).foldl (fun look d =>
    if !d.IsPointToPoint then look
    else if net.systemId d.remoteNode = m_systemId then look
    else if d.channel.delay < look then d.channel.delay
    else look) lookAhead

def CalculateLookAhead (net : Network) (m_systemId : Nat) : Nat :=
  if m_systemId = 0 then 0
  else (List.range net.nodeCount).foldl (fun look node =>
    if net.systemId node ≠ m_systemId then look
    else net.nodeLookAhead m_systemId node look) (timeMax / 2 - 1)

/-- The queues that `CalculateLookAhead` adds to the mailbox of a process: one for every neighbour over
a point-to-point channel. -/
def mailboxQueues (net : Network) (m_systemId : Nat) : Finset Nat :=
  if m_systemId = 0 then ∅
  else ((List.range net.nodeCount).flatMap fun node =>
    if net.systemId node ≠ m_systemId then []
    else ((net.devices node).filter fun d =>
      d.IsPointToPoint ∧ net.systemId d.remoteNode ≠ m_systemId).map fun d =>
        net.systemId d.remoteNode).toFinset

end Network

/-- A simulation: the network and its partition, what each event does, and the sort of the standard
library. A handler may read the state of its own process and a value `χ` that stands for whatever
else it looks at. -/
structure Simulation (σ ε χ : Type) where
  network : Network
  g_systemCount : Nat
  handler : χ → Nat → Event ε → σ → Handler σ ε
  order : MessageSort ε

inductive Stage where
  | processEvents
  | processPublic
  | receiveMessages
deriving DecidableEq, Repr

/-- `m_mailbox r s` is what the mailbox of process `r` holds from process `s`. A mailbox is a map, and
`queues r` are the keys that it had when the stage began. -/
structure System (σ ε : Type) where
  g_systems : Nat → LogicalProcess σ ε
  m_mailbox : Nat → Nat → List (Message ε)
  queues : Nat → Finset Nat
  /-- The processes that have sent to this one in the stage under way. -/
  touched : Nat → Finset Nat
  /-- A map was used by two threads while one of them inserted into it. -/
  raced : Bool
  stage : Stage
  g_smallestTime : Nat
  g_nextPublicTime : Nat
  g_globalFinished : Bool

namespace System

variable {σ ε : Type}

/-- The system before the first round, with events in the queues. -/
def new (net : Network) (m_events : Nat → List (Event ε)) (state : σ) : System σ ε where
  g_systems id := .new (m_events id) state
  m_mailbox _ _ := []
  queues := net.mailboxQueues
  touched _ := ∅
  raced := false
  stage := .processEvents
  g_smallestTime := 0
  g_nextPublicTime := 0
  g_globalFinished := false

/-- Nothing orders the calls of two processes in a stage: they must not use the mailbox of a third one
when it has no queue yet for one of them. -/
def Races (s : System σ ε) (id remote : Nat) : Prop :=
  ∃ j ∈ s.touched remote, j ≠ id ∧ (id ∉ s.queues remote ∨ j ∉ s.queues remote)

instance (s : System σ ε) (id remote : Nat) : Decidable (s.Races id remote) :=
  inferInstanceAs (Decidable (∃ j ∈ s.touched remote, _))

/-- The events that a process has executed. Behind a data race the program does anything. -/
def executed (s : System σ ε) (id : Nat) : Option (List (Nat × Nat × ε)) :=
  if s.raced then none else some (s.g_systems id).executed

end System

/-- One step of the stage by one process, or the barrier behind the stage. -/
inductive Move (χ : Type) where
  | work (m_systemId : Nat) (seen : χ)
  | barrier

namespace Move

variable {χ : Type}

def worker : Move χ → Option Nat
  | .work m_systemId _ => some m_systemId
  | .barrier => none

end Move

namespace Simulation

variable {σ ε χ : Type} (sim : Simulation σ ε χ)

/-- The next call of the handler under way; a message for another process is handed out. -/
def call (id : Nat) (lp : LogicalProcess σ ε) :
    Handler σ ε → LogicalProcess σ ε × Option (Nat × Message ε)
  | .done state => ({ lp with state, running := none }, none)
  | .schedule delay event next =>
      let (lp, key) := lp.Schedule delay event
      ({ lp with running := some (next key) }, none)
  | .scheduleWithContext context delay event next =>
      let remote := sim.network.systemId context
      if remote = id then
        ({ lp.insert (lp.localEvent context delay event) with running := some next }, none)
      else
        ({ lp with running := some next, sent := lp.sent + 1 },
          some (remote, lp.message id context delay event))
  | .remove key next => ({ lp.Remove key with running := some next }, none)

/-- One step of `ProcessOneRound`: a call of the handler under way, the next event of the window,
or the end of the loop. -/
def advance (id grantedTime : Nat) (seen : χ) (lp : LogicalProcess σ ε) :
    Option (LogicalProcess σ ε × Option (Nat × Message ε)) :=
  if lp.finished then none
  else match lp.running with
    | some handler => some (sim.call id lp handler)
    | none =>
        if lp.Next ≤ grantedTime then
          match lp.m_events with
          | [] => none
          | ev :: rest => some (lp.invoke ev rest (sim.handler seen id ev lp.state), none)
        else some ({ lp with finished := true }, none)

/-- One step of `ReceiveMessages`: the queue of the next sender, or the end of the loop. -/
def collect (mailbox : Nat → List (Message ε)) (lp : LogicalProcess σ ε) :
    Option (LogicalProcess σ ε) :=
  if lp.finished then none
  else if lp.cursor ≤ sim.g_systemCount then
    some { lp.receive sim.order (mailbox lp.cursor) with cursor := lp.cursor + 1 }
  else some { lp with finished := true }

def grantedTime (s : System σ ε) (id : Nat) : Nat :=
  min (s.g_smallestTime + sim.network.CalculateLookAhead id) s.g_nextPublicTime

/-- `remote->m_mailbox[m_systemId].push_back`. -/
def post (mailbox : Nat → Nat → List (Message ε)) (id : Nat) :
    Option (Nat × Message ε) → Nat → Nat → List (Message ε)
  | none => mailbox
  | some (remote, m) => fun r s =>
      if r = remote ∧ s = id then mailbox r s ++ [m] else mailbox r s

/-- `remote->m_mailbox[m_systemId]` inserts a queue where there is none. -/
def touch (touched : Nat → Finset Nat) (id : Nat) : Option (Nat × Message ε) → Nat → Finset Nat
  | none => touched
  | some (remote, _) => fun r => if r = remote then insert id (touched r) else touched r

/-- The processes that the worker threads pick from, or the public one. -/
def takesPart (s : System σ ε) (id : Nat) : Prop :=
  if s.stage = .processPublic then id = 0 else 1 ≤ id ∧ id ≤ sim.g_systemCount

instance (s : System σ ε) (id : Nat) : Decidable (sim.takesPart s id) :=
  inferInstanceAs
    (Decidable (if s.stage = .processPublic then id = 0 else 1 ≤ id ∧ id ≤ sim.g_systemCount))

/-- The process has made a step and perhaps sent a message. -/
def moved (s : System σ ε) (id : Nat) (result : LogicalProcess σ ε × Option (Nat × Message ε)) :
    System σ ε :=
  { s with
    g_systems := Function.update s.g_systems id result.1
    m_mailbox := post s.m_mailbox id result.2
    touched := touch s.touched id result.2
    raced := s.raced || result.2.any fun message => s.Races id message.1 }

/-- The process has emptied the queue its cursor stood at. -/
def drained (s : System σ ε) (id : Nat) (lp : LogicalProcess σ ε) : System σ ε :=
  { s with
    g_systems := Function.update s.g_systems id lp
    m_mailbox := fun r q =>
      if r = id ∧ q = (s.g_systems id).cursor ∧ q ≤ sim.g_systemCount then [] else s.m_mailbox r q }

def work (s : System σ ε) (id : Nat) (seen : χ) : Option (System σ ε) :=
  if s.g_globalFinished ∨ ¬ sim.takesPart s id then none
  else if s.stage = .receiveMessages then
    (sim.collect (s.m_mailbox id) (s.g_systems id)).map (sim.drained s id)
  else
    (sim.advance id (sim.grantedTime s id) seen (s.g_systems id)).map (moved s id)

/-- `CalculateSmallestTime`: the smallest `Next ()` of all processes. -/
def smallestTime (systems : Nat → LogicalProcess σ ε) : Nat :=
  (List.range (sim.g_systemCount + 1)).foldl (fun smallest i =>
    if (systems i).Next < smallest then (systems i).Next else smallest) (timeMax / 2)

def globalFinished (systems : Nat → LogicalProcess σ ε) : Bool :=
  (List.range (sim.g_systemCount + 1)).all fun i => (systems i).isLocalFinished

def restart (systems : Nat → LogicalProcess σ ε) : Nat → LogicalProcess σ ε :=
  fun i => { systems i with finished := false, cursor := 0 }

/-- All processes have done their part of the stage. -/
def stageDone (s : System σ ε) : Prop :=
  ∀ id < sim.g_systemCount + 1, sim.takesPart s id → (s.g_systems id).finished = true

instance (s : System σ ε) : Decidable (sim.stageDone s) := Nat.decidableBallLT _ _

/-- A stage begins: every process is to be picked again, and the mailboxes keep the queues that they
have got. -/
def enter (s : System σ ε) (stage : Stage) : System σ ε :=
  { s with
    g_systems := restart s.g_systems
    queues := fun r => s.queues r ∪ s.touched r
    touched := fun _ => ∅
    stage }

/-- The stage that follows; behind the last one the window of the next round is computed. -/
def nextStage (s : System σ ε) : System σ ε :=
  match s.stage with
  | .processEvents => enter s .processPublic
  | .processPublic => enter s .receiveMessages
  | .receiveMessages =>
      { enter s .processEvents with
        g_smallestTime := sim.smallestTime s.g_systems
        g_nextPublicTime := (s.g_systems 0).Next
        g_globalFinished := sim.globalFinished s.g_systems }

def barrier (s : System σ ε) : Option (System σ ε) :=
  if s.g_globalFinished ∨ ¬ sim.stageDone s then none else some (sim.nextStage s)

def step (s : System σ ε) : Move χ → Option (System σ ε)
  | .work id seen => sim.work s id seen
  | .barrier => sim.barrier s

/-- The process that the next call of a handler under way sends to. -/
def target (s : System σ ε) (id : Nat) : Option Nat :=
  match (s.g_systems id).running with
  | some (.scheduleWithContext context _ _ _) =>
      if sim.network.systemId context = id then none else some (sim.network.systemId context)
  | _ => none

/-- No process sends to a mailbox that another process has used in this stage, unless both have a queue
in it. -/
def NoRace (s : System σ ε) : Move χ → Prop
  | .barrier => True
  | .work id _ => s.stage = .receiveMessages ∨ ∀ remote ∈ sim.target s id, ¬ s.Races id remote

instance (s : System σ ε) : (a : Move χ) → Decidable (sim.NoRace s a)
  | .barrier => isTrue trivial
  | .work _ _ => inferInstanceAs (Decidable (_ ∨ _))

/-- The state in which `MtpInterface::Run` begins, when the lookaheads are calculated: events and
messages of time 0 and later, filed in the order in which they were sent. -/
structure Initial (s : System σ ε) : Prop where
  queues : ∀ r ≤ sim.g_systemCount, sim.network.mailboxQueues r ⊆ s.queues r
  touched : ∀ r, s.touched r = ∅
  raced : s.raced = false
  stage : s.stage = .processEvents
  smallest : s.g_smallestTime = 0
  nextPublic : s.g_nextPublicTime = 0
  ts : ∀ id, (s.g_systems id).m_currentTs = 0
  running : ∀ id, (s.g_systems id).running = none
  inOrder : ∀ id, InOrder (s.g_systems id).m_events
  log : ∀ id, (s.g_systems id).log = []
  senders : ∀ r q, sim.g_systemCount < q → s.m_mailbox r q = []

variable {sim}

theorem advance_eq_some {id grantedTime : Nat} {seen : χ} {lp : LogicalProcess σ ε}
    {result : LogicalProcess σ ε × Option (Nat × Message ε)} :
    sim.advance id grantedTime seen lp = some result ↔ lp.finished = false ∧
      ((∃ handler, lp.running = some handler ∧ sim.call id lp handler = result) ∨
        (lp.running = none ∧ lp.Next ≤ grantedTime ∧ ∃ ev rest, lp.m_events = ev :: rest ∧
          (lp.invoke ev rest (sim.handler seen id ev lp.state), none) = result) ∨
        (lp.running = none ∧ ¬ lp.Next ≤ grantedTime ∧
          ({ lp with finished := true }, none) = result)) := by
  rw [advance]
  cases lp.finished with
  | true => simp
  | false =>
      cases lp.running with
      | some handler => simp
      | none =>
          by_cases hnext : lp.Next ≤ grantedTime
          · cases lp.m_events <;> simp [hnext]
          · simp [hnext]

theorem collect_eq_some {mailbox : Nat → List (Message ε)} {lp lp' : LogicalProcess σ ε} :
    sim.collect mailbox lp = some lp' ↔ lp.finished = false ∧
      ((lp.cursor ≤ sim.g_systemCount ∧
          { lp.receive sim.order (mailbox lp.cursor) with cursor := lp.cursor + 1 } = lp') ∨
        (sim.g_systemCount < lp.cursor ∧ { lp with finished := true } = lp')) := by
  rw [collect]
  cases lp.finished with
  | true => simp
  | false =>
      by_cases hcursor : lp.cursor ≤ sim.g_systemCount
      · simp [hcursor, Nat.not_lt.mpr hcursor]
      · simp [hcursor, Nat.lt_of_not_le hcursor]

theorem work_eq_some {s t : System σ ε} {id : Nat} {seen : χ} :
    sim.work s id seen = some t ↔ s.g_globalFinished = false ∧ sim.takesPart s id ∧
      ((s.stage = .receiveMessages ∧ ∃ lp,
          sim.collect (s.m_mailbox id) (s.g_systems id) = some lp ∧ sim.drained s id lp = t) ∨
        (s.stage ≠ .receiveMessages ∧ ∃ result,
          sim.advance id (sim.grantedTime s id) seen (s.g_systems id) = some result ∧
            moved s id result = t)) := by
  rw [work]
  by_cases hstage : s.stage = .receiveMessages <;>
    simp [hstage, and_assoc]

theorem barrier_eq_some {s t : System σ ε} :
    sim.barrier s = some t ↔
      s.g_globalFinished = false ∧ sim.stageDone s ∧ sim.nextStage s = t := by
  rw [barrier]
  simp [and_assoc]

theorem target_eq_some {s : System σ ε} {id grantedTime : Nat} {seen : χ}
    {result : LogicalProcess σ ε × Option (Nat × Message ε)}
    (h : sim.advance id grantedTime seen (s.g_systems id) = some result) (remote : Nat) :
    sim.target s id = some remote ↔ ∃ m, result.2 = some (remote, m) := by
  obtain ⟨-, ⟨handler, hrun, rfl⟩ | ⟨hrun, -, ev, rest, -, rfl⟩ | ⟨hrun, -, rfl⟩⟩ :=
    advance_eq_some.mp h
  · rw [target, hrun]
    cases handler with
    | scheduleWithContext context delay event next =>
        by_cases hself : sim.network.systemId context = id
        · simp [call, hself]
        · simp [call, hself]
    | _ => simp [call]
  · simp [target, hrun]
  · simp [target, hrun]

theorem raced_moved (s : System σ ε) (id : Nat)
    (result : LogicalProcess σ ε × Option (Nat × Message ε)) :
    (moved s id result).raced = true ↔
      s.raced = true ∨ ∃ remote m, result.2 = some (remote, m) ∧ s.Races id remote := by
  simp [moved, Option.any_eq_true]

theorem raced_step {s t : System σ ε} {a : Move χ} (h : sim.step s a = some t) :
    t.raced = true ↔ s.raced = true ∨ ¬ sim.NoRace s a := by
  cases a with
  | barrier =>
      obtain ⟨-, -, rfl⟩ := barrier_eq_some.mp h
      rw [nextStage]
      split <;> simp [enter, NoRace]
  | work id seen =>
      obtain ⟨-, -, ⟨hstage, lp, -, rfl⟩ | ⟨hstage, result, hadv, rfl⟩⟩ := work_eq_some.mp h
      · simp [drained, NoRace, hstage]
      · rw [raced_moved, NoRace]
        simp only [Option.mem_def, target_eq_some hadv, hstage, false_or]
        grind

theorem raced_run {s t : System σ ε} {as : List (Move χ)} (h : Run sim.step anyEvent s as t) :
    t.raced = false ↔ s.raced = false ∧ Run sim.step sim.NoRace s as t := by
  induction h with
  | nil s => exact ⟨fun h => ⟨h, .nil s⟩, And.left⟩
  | @cons s t u a as _ hstep _ ih =>
      have hraced := raced_step hstep
      rw [ih]
      constructor
      · rintro ⟨ht, hrun⟩
        rw [ht] at hraced
        have hs : s.raced = false ∧ sim.NoRace s a := by simpa using hraced
        exact ⟨hs.1, .cons hs.2 hstep hrun⟩
      · rintro ⟨hs, hrun⟩
        cases hrun with
        | cons hok hstep' hrest =>
            obtain rfl := Option.some_inj.mp (hstep.symm.trans hstep')
            exact ⟨by simpa [hs, hok] using hraced, hrest⟩

theorem takesPart_le {s : System σ ε} {id : Nat} (h : sim.takesPart s id) :
    id ≤ sim.g_systemCount := by
  rw [takesPart] at h
  split at h <;> omega

theorem initial_new {m_events : Nat → List (Event ε)} (h : ∀ id, InOrder (m_events id))
    (state : σ) : sim.Initial (System.new sim.network m_events state) where
  queues := fun _ _ => Finset.Subset.refl _
  touched := fun _ => rfl
  raced := rfl
  stage := rfl
  smallest := rfl
  nextPublic := rfl
  ts := fun _ => rfl
  running := fun _ => rfl
  inOrder := h
  log := fun _ => rfl
  senders := fun _ _ _ => rfl

/-- Two processes of one node each. The event `0` of the first process runs `first`. -/
def twoNodes (ch : Channel) (h : ∀ node ∈ ch.nodes, node < 2) (first : Handler Unit Nat) :
    Simulation Unit Nat Unit where
  network := ⟨2, fun node => node + 1, [ch], by simpa using h⟩
  g_systemCount := 2
  handler := fun _ id ev _ => if id = 1 ∧ ev.impl = 0 then first else .done ()
  order := insertionSort Nat

/-- The first process has an event at time 5, the second one at time 100. -/
def fiveAndHundred : Nat → List (Event Nat)
  | 1 => [⟨⟨5, 4, 0⟩, 0, none⟩]
  | 2 => [⟨⟨100, 4, 1⟩, 1, none⟩]
  | _ => []

theorem fiveAndHundred_inOrder (id : Nat) : InOrder (fiveAndHundred id) := by
  unfold fiveAndHundred InOrder
  split <;> simp

/-- A message that arrives one tick later. -/
def sendOnce : Handler Unit Nat := .scheduleWithContext 1 1 1 (.done ())

def overSharedLink : Simulation Unit Nat Unit := twoNodes (.shared 1 [0, 1]) (by decide) sendOnce

theorem cable_nodes_lt : ∀ node ∈ (Channel.pointToPoint 1 0 1).nodes, node < 2 := by decide

def overCable : Simulation Unit Nat Unit := twoNodes (.pointToPoint 1 0 1) cable_nodes_lt sendOnce

/-- First one process, then the other makes so many steps. -/
def turns (first second : Nat) : List (Move Unit) :=
  List.replicate first (.work 1 ()) ++ List.replicate second (.work 2 ())

/-- A round with these steps in the first stage. -/
def roundOf (stage : List (Move Unit)) : List (Move Unit) :=
  stage ++ [.barrier, .work 0 (), .barrier] ++ turns 4 4 ++ [.barrier]

end Simulation

end CollectiveSim.Mtp
