import Mathlib

/-!
# Logical processes

A logical process owns the nodes of one partition: an event queue, a clock and one mailbox for
every process that may send to it. Time is exact. What an event handler does is a tree of calls to
the simulator, each answered before the next one is made.

`log` and the origin of an event are not in the source: they record what a process does and which
of the sender's messages an event was, so that statements can speak about whole runs.
-/

namespace CollectiveSim.Mtp

/-- `Time::Max ()`. -/
def timeMax : Nat := 2 ^ 63 - 1

/-- `EventId::UID::INVALID` and the first uid of a process, `EventId::UID::VALID`. -/
def uidInvalid : Nat := 0

def uidValid : Nat := 4

/-- `m_uid++` on a `uint32_t`. -/
def nextUid (uid : Nat) : Nat := (uid + 1) % 2 ^ 32

structure EventKey where
  m_ts : Nat
  m_uid : Nat
  m_context : Nat
deriving DecidableEq, Repr

/-- `operator <` of the scheduler: time, then uid. -/
def EventKey.lt (a b : EventKey) : Prop := a.m_ts < b.m_ts ∨ a.m_ts = b.m_ts ∧ a.m_uid < b.m_uid

instance (a b : EventKey) : Decidable (a.lt b) := inferInstanceAs (Decidable (_ ∨ _))

/-- A message is the `count`-th one that the logical process `sender` has sent. -/
structure Origin where
  sender : Nat
  count : Nat
deriving DecidableEq, Repr

structure Event (ε : Type) where
  key : EventKey
  impl : ε
  origin : Option Origin
deriving DecidableEq, Repr

/-- `MapScheduler::Insert`: a key that is there already is not inserted again. -/
def insertEvent {ε : Type} (ev : Event ε) : List (Event ε) → List (Event ε)
  | [] => [ev]
  | e :: es =>
      if ev.key.lt e.key then ev :: e :: es
      else if e.key.lt ev.key then e :: insertEvent ev es
      else e :: es

/-- What a mailbox holds: clock, id and uid counter of the sender, and the event. -/
structure Message (ε : Type) where
  m_currentTs : Nat
  m_systemId : Nat
  m_uid : Nat
  ev : Event ε
deriving DecidableEq, Repr

/-- `operator <` of the tuples, component by component. -/
def Message.lt {ε : Type} (a b : Message ε) : Prop :=
  a.m_currentTs < b.m_currentTs ∨ a.m_currentTs = b.m_currentTs ∧
    (a.m_systemId < b.m_systemId ∨ a.m_systemId = b.m_systemId ∧
      (a.m_uid < b.m_uid ∨ a.m_uid = b.m_uid ∧ a.ev.key.lt b.ev.key))

instance {ε : Type} (a b : Message ε) : Decidable (a.lt b) := inferInstanceAs (Decidable (_ ∨ _))

/-- `std::sort` with `std::greater`: nothing stands behind what it is less than. Which of two
equivalent messages comes first is left open. -/
structure MessageSort (ε : Type) where
  sort : List (Message ε) → List (Message ε)
  perm : ∀ queue, (sort queue).Perm queue
  sorted : ∀ queue, (sort queue).Pairwise fun a b => ¬ a.lt b

theorem Message.not_lt_trans {ε : Type} {a b c : Message ε} (h : ¬ a.lt b) (h' : ¬ b.lt c) :
    ¬ a.lt c := by
  simp only [Message.lt, EventKey.lt] at *
  omega

theorem Message.not_lt_total {ε : Type} (a b : Message ε) : ¬ a.lt b ∨ ¬ b.lt a := by
  simp only [Message.lt, EventKey.lt]
  omega

/-- Insertion sort, which keeps equivalent messages in their order. -/
def insertionSort (ε : Type) : MessageSort ε :=
  haveI : Std.Total fun a b : Message ε => ¬ a.lt b := ⟨Message.not_lt_total⟩
  haveI : IsTrans (Message ε) fun a b => ¬ a.lt b := ⟨fun _ _ _ => Message.not_lt_trans⟩
  { sort := List.insertionSort fun a b => ¬ a.lt b
    perm := List.perm_insertionSort _
    sorted := List.pairwise_insertionSort _ }

/-- What is left of an event handler. -/
inductive Handler (σ ε : Type) where
  | done (state : σ)
  | schedule (delay : Nat) (event : ε) (next : EventKey → Handler σ ε)
  | scheduleWithContext (context delay : Nat) (event : ε) (next : Handler σ ε)
  | remove (id : EventKey) (next : Handler σ ε)

/-- What a process did to its queue, with the value of `m_currentTs` at that moment. -/
inductive Action (ε : Type) where
  | executed (now : Nat) (ev : Event ε)
  | inserted (now : Nat) (ev : Event ε)
deriving DecidableEq, Repr

namespace Action

variable {ε : Type}

def now : Action ε → Nat
  | .executed now _ => now
  | .inserted now _ => now

def event : Action ε → Event ε
  | .executed _ ev => ev
  | .inserted _ ev => ev

def executed? : Action ε → Option (Event ε)
  | .executed _ ev => some ev
  | .inserted _ _ => none

end Action

structure LogicalProcess (σ ε : Type) where
  m_uid : Nat
  m_currentContext : Nat
  m_currentUid : Nat
  m_currentTs : Nat
  m_events : List (Event ε)
  /-- What the nodes of the process hold. -/
  state : σ
  /-- The handler under way. -/
  running : Option (Handler σ ε)
  /-- The sender whose queue is drained next. -/
  cursor : Nat
  /-- The process has done its part of the stage. -/
  finished : Bool
  /-- How many messages the process has sent. -/
  sent : Nat
  log : List (Action ε)

namespace LogicalProcess

variable {σ ε : Type}

/-- `Simulator::NO_CONTEXT`. -/
def noContext : Nat := 2 ^ 32 - 1

/-- A process as it is constructed, with events in its queue that have taken the first uids. -/
def new (m_events : List (Event ε)) (state : σ) : LogicalProcess σ ε :=
  ⟨uidValid + m_events.length, noContext, 0, 0, m_events, state, none, 0, false, 0, []⟩

def Next (lp : LogicalProcess σ ε) : Nat :=
  match lp.m_events with
  | [] => timeMax
  | e :: _ => e.key.m_ts

def isLocalFinished (lp : LogicalProcess σ ε) : Bool := lp.m_events.isEmpty

/-- Give the event the next uid and insert it. -/
def insert (ev : Event ε) (lp : LogicalProcess σ ε) : LogicalProcess σ ε :=
  let ev := { ev with key.m_uid := lp.m_uid }
  { lp with
    m_uid := nextUid lp.m_uid
    m_events := insertEvent ev lp.m_events
    log := lp.log ++ [.inserted lp.m_currentTs ev] }

/-- An event of the process itself, its uid still open. -/
def localEvent (context delay : Nat) (event : ε) (lp : LogicalProcess σ ε) : Event ε :=
  ⟨⟨lp.m_currentTs + delay, uidInvalid, context⟩, event, none⟩

def Schedule (delay : Nat) (event : ε) (lp : LogicalProcess σ ε) :
    LogicalProcess σ ε × EventKey :=
  (lp.insert (lp.localEvent lp.m_currentContext delay event),
    ⟨lp.m_currentTs + delay, lp.m_uid, lp.m_currentContext⟩)

/-- The message that `ScheduleWithContext` leaves in the mailbox of another process. -/
def message (m_systemId context delay : Nat) (event : ε) (lp : LogicalProcess σ ε) :
    Message ε :=
  ⟨lp.m_currentTs, m_systemId, lp.m_uid,
    ⟨⟨delay + lp.m_currentTs, uidInvalid, context⟩, event, some ⟨m_systemId, lp.sent⟩⟩⟩

/-- The part of `IsExpired` that does not look at the event itself. -/
def IsExpired (id : EventKey) (lp : LogicalProcess σ ε) : Prop :=
  id.m_ts < lp.m_currentTs ∨ id.m_ts = lp.m_currentTs ∧ id.m_uid ≤ lp.m_currentUid

instance (id : EventKey) (lp : LogicalProcess σ ε) : Decidable (lp.IsExpired id) :=
  inferInstanceAs (Decidable (_ ∨ _))

def Remove (id : EventKey) (lp : LogicalProcess σ ε) : LogicalProcess σ ε :=
  if lp.IsExpired id then lp
  else { lp with
    m_events := lp.m_events.filter fun e => e.key.m_ts ≠ id.m_ts ∨ e.key.m_uid ≠ id.m_uid }

/-- `RemoveNext` and the start of the handler. -/
def invoke (ev : Event ε) (rest : List (Event ε)) (handler : Handler σ ε)
    (lp : LogicalProcess σ ε) : LogicalProcess σ ε :=
  { lp with
    m_events := rest
    m_currentTs := ev.key.m_ts
    m_currentContext := ev.key.m_context
    m_currentUid := ev.key.m_uid
    running := some handler
    log := lp.log ++ [.executed lp.m_currentTs ev] }

/-- One queue of the mailbox: sorted, then emptied from the back. -/
def receive (order : MessageSort ε) (queue : List (Message ε)) (lp : LogicalProcess σ ε) :
    LogicalProcess σ ε :=
  (order.sort queue).reverse.foldl (fun lp m => lp.insert m.ev) lp

/-- The timestamp, context and handler of every event the process has executed. -/
def executed (lp : LogicalProcess σ ε) : List (Nat × Nat × ε) :=
  (lp.log.filterMap Action.executed?).map fun ev => (ev.key.m_ts, ev.key.m_context, ev.impl)

@[simp] theorem insert_m_currentTs (ev : Event ε) (lp : LogicalProcess σ ε) :
    (lp.insert ev).m_currentTs = lp.m_currentTs := rfl

@[simp] theorem insert_running (ev : Event ε) (lp : LogicalProcess σ ε) :
    (lp.insert ev).running = lp.running := rfl

@[simp] theorem insert_cursor (ev : Event ε) (lp : LogicalProcess σ ε) :
    (lp.insert ev).cursor = lp.cursor := rfl

@[simp] theorem insert_finished (ev : Event ε) (lp : LogicalProcess σ ε) :
    (lp.insert ev).finished = lp.finished := rfl

@[simp] theorem insert_sent (ev : Event ε) (lp : LogicalProcess σ ε) :
    (lp.insert ev).sent = lp.sent := rfl

@[simp] theorem insert_m_uid (ev : Event ε) (lp : LogicalProcess σ ε) :
    (lp.insert ev).m_uid = nextUid lp.m_uid := rfl

theorem insert_m_events (ev : Event ε) (lp : LogicalProcess σ ε) :
    (lp.insert ev).m_events = insertEvent { ev with key.m_uid := lp.m_uid } lp.m_events := rfl

theorem insert_log (ev : Event ε) (lp : LogicalProcess σ ε) :
    (lp.insert ev).log =
      lp.log ++ [.inserted lp.m_currentTs { ev with key.m_uid := lp.m_uid }] := rfl

theorem receive_keep {α : Type} (f : LogicalProcess σ ε → α)
    (hf : ∀ ev lp, f (insert ev lp) = f lp) (order : MessageSort ε) (queue : List (Message ε))
    (lp : LogicalProcess σ ε) : f (lp.receive order queue) = f lp := by
  rw [receive]
  generalize (order.sort queue).reverse = messages
  induction messages generalizing lp with
  | nil => rfl
  | cons m ms ih => exact (ih (lp.insert m.ev)).trans (hf m.ev lp)

@[simp] theorem receive_m_currentTs (order : MessageSort ε) (queue : List (Message ε))
    (lp : LogicalProcess σ ε) : (lp.receive order queue).m_currentTs = lp.m_currentTs :=
  receive_keep m_currentTs insert_m_currentTs order queue lp

@[simp] theorem receive_running (order : MessageSort ε) (queue : List (Message ε))
    (lp : LogicalProcess σ ε) : (lp.receive order queue).running = lp.running :=
  receive_keep running insert_running order queue lp

@[simp] theorem receive_finished (order : MessageSort ε) (queue : List (Message ε))
    (lp : LogicalProcess σ ε) : (lp.receive order queue).finished = lp.finished :=
  receive_keep finished insert_finished order queue lp

@[simp] theorem receive_sent (order : MessageSort ε) (queue : List (Message ε))
    (lp : LogicalProcess σ ε) : (lp.receive order queue).sent = lp.sent :=
  receive_keep sent insert_sent order queue lp

end LogicalProcess

section

variable {ε : Type}

theorem mem_insertEvent {e ev : Event ε} {es : List (Event ε)} (h : e ∈ insertEvent ev es) :
    e = ev ∨ e ∈ es := by
  induction es with
  | nil => exact .inl (List.mem_singleton.mp h)
  | cons x xs ih =>
      rw [insertEvent] at h
      split at h
      · exact List.mem_cons.mp h
      · split at h
        · cases List.mem_cons.mp h with
          | inl heq => exact .inr (heq ▸ List.mem_cons_self)
          | inr hmem => exact (ih hmem).imp_right (List.mem_cons_of_mem x)
        · exact .inr h

theorem insertEvent_perm (ev : Event ε) {es : List (Event ε)}
    (h : ∀ e ∈ es, e.key.m_uid ≠ ev.key.m_uid) : (insertEvent ev es).Perm (ev :: es) := by
  induction es with
  | nil => exact .refl _
  | cons x xs ih =>
      obtain ⟨hx, hxs⟩ := List.forall_mem_cons.mp h
      rw [insertEvent]
      split
      · exact .refl _
      · split
        · exact ((ih hxs).cons x).trans (.swap ev x xs)
        · next hnot hnot' =>
            simp only [EventKey.lt] at hnot hnot'
            omega

/-- The queue is read from the front: no event stands behind a later one. -/
def InOrder (es : List (Event ε)) : Prop := es.Pairwise fun a b => a.key.lt b.key

theorem EventKey.lt_trans {a b c : EventKey} (h : a.lt b) (h' : b.lt c) : a.lt c := by
  simp only [EventKey.lt] at *
  omega

theorem InOrder.insertEvent {es : List (Event ε)} (h : InOrder es) (ev : Event ε) :
    InOrder (insertEvent ev es) := by
  induction es with
  | nil => exact List.pairwise_singleton _ ev
  | cons x xs ih =>
      obtain ⟨hx, hxs⟩ := List.pairwise_cons.mp h
      rw [Mtp.insertEvent]
      split
      · next hlt =>
          refine List.pairwise_cons.mpr ⟨?_, h⟩
          intro y hy
          cases List.mem_cons.mp hy with
          | inl heq => exact heq ▸ hlt
          | inr hmem => exact EventKey.lt_trans hlt (hx y hmem)
      · split
        · next hlt =>
            refine List.pairwise_cons.mpr ⟨?_, ih hxs⟩
            intro y hy
            cases mem_insertEvent hy with
            | inl heq => exact heq ▸ hlt
            | inr hmem => exact hx y hmem
        · exact h

theorem InOrder.ts_le {e : Event ε} {es : List (Event ε)} (h : InOrder (e :: es)) :
    ∀ x ∈ es, e.key.m_ts ≤ x.key.m_ts := by
  intro x hx
  have hlt := (List.pairwise_cons.mp h).1 x hx
  simp only [EventKey.lt] at hlt
  omega

theorem InOrder.filter {es : List (Event ε)} (h : InOrder es) (p : Event ε → Bool) :
    InOrder (es.filter p) :=
  List.Pairwise.sublist List.filter_sublist h

end

end CollectiveSim.Mtp
