import CollectiveSim.Framework.Reaction
import CollectiveSim.Mtp.Causality
import CollectiveSim.Mtp.TieOrder

/-!
# Everything that is due is somewhere

An event that has been scheduled and not executed is in the queue of its process, in a mailbox, or
still to be scheduled by a handler under way. What the processes have begun is an execution of
reacting processes, one event after another, although the worker threads interleave the handlers
call by call.
-/

namespace CollectiveSim.Mtp

open Framework

variable {σ ε χ : Type}

/-- An event as it concerns the process, without its uid and without its way. -/
def Event.occurrence (id : Nat) (e : Event ε) : Occurrence Nat (Nat × ε) :=
  ⟨id, e.key.m_ts, e.key.m_context, e.impl⟩

namespace Handler

/-- The state that the handler leaves and the events that it schedules, if it runs to its end in a
process at a time and in a context. -/
def outcome (systemId : Nat → Nat) (id now context : Nat) :
    Handler σ ε → σ × List (Occurrence Nat (Nat × ε))
  | .done state => (state, [])
  | .schedule delay event next =>
      let (state, events) := (next ⟨now + delay, uidInvalid, context⟩).outcome systemId id now context
      (state, ⟨id, now + delay, context, event⟩ :: events)
  | .scheduleWithContext target delay event next =>
      let (state, events) := next.outcome systemId id now context
      (state, ⟨systemId target, now + delay, target, event⟩ :: events)
  | .remove _ next => next.outcome systemId id now context

/-- The handler sends events only to contexts that it may, removes none, and does nothing with the
keys of those that it schedules. -/
def Blind (may : Nat → Prop) : Handler σ ε → Prop
  | .done _ => True
  | .schedule _ _ next => (∀ key key', next key = next key') ∧ ∀ key, (next key).Blind may
  | .scheduleWithContext context _ _ next => may context ∧ next.Blind may
  | .remove _ _ => False

theorem outcome_time {systemId : Nat → Nat} {id now context : Nat} (handler : Handler σ ε) :
    ∀ c ∈ (handler.outcome systemId id now context).2, now ≤ c.time := by
  induction handler with
  | done state => simp [outcome]
  | schedule delay event next ih =>
      exact List.forall_mem_cons.mpr ⟨Nat.le_add_right _ _, ih _⟩
  | scheduleWithContext target delay event next ih =>
      exact List.forall_mem_cons.mpr ⟨Nat.le_add_right _ _, ih⟩
  | remove key next ih => exact ih

end Handler

namespace LogicalProcess

/-- The uids in the queue have been given out before. -/
def Fresh (lp : LogicalProcess σ ε) : Prop := ∀ e ∈ lp.m_events, e.key.m_uid < lp.m_uid

theorem Fresh.insert {lp : LogicalProcess σ ε} (h : lp.Fresh) (huid : lp.m_uid + 1 < 2 ^ 32)
    (ev : Event ε) : (lp.insert ev).Fresh := by
  intro e he
  rw [insert_m_uid, nextUid, Nat.mod_eq_of_lt huid]
  cases mem_insertEvent he with
  | inl heq => exact heq ▸ Nat.lt_succ_self _
  | inr hmem => exact (h e hmem).trans (Nat.lt_succ_self _)

theorem Fresh.insert_perm {lp : LogicalProcess σ ε} (h : lp.Fresh) (id : Nat) (ev : Event ε) :
    ((lp.insert ev).m_events.map (Event.occurrence id)).Perm
      (ev.occurrence id :: lp.m_events.map (Event.occurrence id)) :=
  (insertEvent_perm { ev with key.m_uid := lp.m_uid } fun e he => (h e he).ne).map _

theorem Fresh.insertAll {messages : List (Message ε)} {lp : LogicalProcess σ ε} (h : lp.Fresh)
    (huid : lp.m_uid + messages.length < 2 ^ 32) (id : Nat) :
    (messages.foldl (fun lp m => lp.insert m.ev) lp).Fresh ∧
      ((messages.foldl (fun lp m => lp.insert m.ev) lp).m_events.map (Event.occurrence id)).Perm
        (messages.map (fun m => m.ev.occurrence id) ++ lp.m_events.map (Event.occurrence id)) := by
  induction messages generalizing lp with
  | nil => exact ⟨h, .refl _⟩
  | cons m ms ih =>
      rw [List.length_cons] at huid
      have hlen : (lp.insert m.ev).m_uid + ms.length < 2 ^ 32 := by
        rw [insert_m_uid, nextUid, Nat.mod_eq_of_lt (by omega)]
        omega
      obtain ⟨hfresh, hms⟩ := ih (h.insert (by omega) m.ev) hlen
      refine ⟨hfresh, hms.trans ?_⟩
      exact ((h.insert_perm id m.ev).append_left _).trans List.perm_middle

theorem Fresh.receive {lp : LogicalProcess σ ε} (h : lp.Fresh) (order : MessageSort ε)
    {queue : List (Message ε)} (huid : lp.m_uid + queue.length < 2 ^ 32) (id : Nat) :
    (lp.receive order queue).Fresh ∧
      ((lp.receive order queue).m_events.map (Event.occurrence id)).Perm
        (queue.map (fun m => m.ev.occurrence id) ++ lp.m_events.map (Event.occurrence id)) := by
  have hperm : (order.sort queue).reverse.Perm queue :=
    (List.reverse_perm _).trans (order.perm queue)
  rw [← hperm.length_eq] at huid
  obtain ⟨hfresh, hmap⟩ := h.insertAll huid id
  exact ⟨hfresh, hmap.trans ((hperm.map _).append_right _)⟩

/-- What is left of the handler under way. -/
def rest (systemId : Nat → Nat) (id : Nat) (lp : LogicalProcess σ ε) :
    List (Occurrence Nat (Nat × ε)) :=
  match lp.running with
  | none => []
  | some handler => (handler.outcome systemId id lp.m_currentTs lp.m_currentContext).2

theorem rest_of_idle {systemId : Nat → Nat} {id : Nat} {lp : LogicalProcess σ ε}
    (h : lp.running = none) : lp.rest systemId id = [] := by rw [rest, h]

/-- The state that the process has when the handler under way has ended. -/
def settledState (systemId : Nat → Nat) (id : Nat) (lp : LogicalProcess σ ε) : σ :=
  match lp.running with
  | none => lp.state
  | some handler => (handler.outcome systemId id lp.m_currentTs lp.m_currentContext).1

/-- What the process is going to execute or to schedule. -/
def backlog (systemId : Nat → Nat) (id : Nat) (lp : LogicalProcess σ ε) :
    Multiset (Occurrence Nat (Nat × ε)) :=
  (lp.m_events.map (Event.occurrence id) : Multiset _) + (lp.rest systemId id : Multiset _)

/-- The events that the process has begun. -/
def begun (id : Nat) (lp : LogicalProcess σ ε) : List (Occurrence Nat (Nat × ε)) :=
  (lp.log.filterMap Action.executed?).map (Event.occurrence id)

end LogicalProcess

namespace Simulation

variable (sim : Simulation σ ε χ)

/-- Handlers read the state of their own process and of the event what a user has scheduled. They
send to nodes, and all nodes are in processes other than the public one. -/
structure Oblivious : Prop where
  same : ∀ seen seen' id ev ev' state, ev.key.m_ts = ev'.key.m_ts →
    ev.key.m_context = ev'.key.m_context → ev.impl = ev'.impl →
    sim.handler seen id ev state = sim.handler seen' id ev' state
  blind : ∀ seen id ev state, (sim.handler seen id ev state).Blind (· < sim.network.nodeCount)
  placed : ∀ node < sim.network.nodeCount,
    1 ≤ sim.network.systemId node ∧ sim.network.systemId node ≤ sim.g_systemCount
  nodeCount_le : sim.network.nodeCount ≤ LogicalProcess.noContext

/-- What a process does at an event. -/
def react (seen : χ) (o : Occurrence Nat (Nat × ε)) (state : σ) :
    σ × List (Occurrence Nat (Nat × ε)) :=
  (sim.handler seen o.proc ⟨⟨o.time, uidInvalid, o.event.1⟩, o.event.2, none⟩ state).outcome
    sim.network.systemId o.proc o.time o.event.1

/-- The logical processes, seen as processes that react to events. -/
def reactive (seen : χ) (start : Nat → σ) (initial : Multiset (Occurrence Nat (Nat × ε))) :
    Reactive Nat (Nat × ε) σ where
  procs := Finset.range (sim.g_systemCount + 1)
  start := start
  initial := initial
  react := sim.react seen
  delayed := fun _ _ => Handler.outcome_time _

/-- The events in a queue of the mailbox of process `r`. -/
def mail (r : Nat) (queue : List (Message ε)) : Multiset (Occurrence Nat (Nat × ε)) :=
  ↑(queue.map fun m => m.ev.occurrence r)

/-- What is still to be done: in the queues, by the handlers under way, and in the mailboxes. -/
def pending (s : System σ ε) : Multiset (Occurrence Nat (Nat × ε)) :=
  ∑ id ∈ Finset.range (sim.g_systemCount + 1),
      (s.g_systems id).backlog sim.network.systemId id +
    ∑ r ∈ Finset.range (sim.g_systemCount + 1), ∑ q ∈ Finset.range (sim.g_systemCount + 1),
      mail r (s.m_mailbox r q)

/-- No uid counter wraps around. -/
def NoWrap (s : System σ ε) : Move χ → Prop
  | .barrier => True
  | .work id _ => (s.g_systems id).m_uid + sim.insertions s id < 2 ^ 32

instance (s : System σ ε) : (a : Move χ) → Decidable (sim.NoWrap s a)
  | .barrier => isTrue trivial
  | .work id _ => Nat.decLt ((s.g_systems id).m_uid + sim.insertions s id) (2 ^ 32)

/-- What a step hands out. -/
def outgoing : Option (Nat × Message ε) → Multiset (Occurrence Nat (Nat × ε))
  | none => 0
  | some (remote, m) => {m.ev.occurrence remote}

/-- The process has come from `lp` to `lp'` without beginning an event. -/
structure Continues (id : Nat) (lp lp' : LogicalProcess σ ε)
    (sent : Option (Nat × Message ε)) : Prop where
  fresh : lp'.Fresh
  begun : lp'.begun id = lp.begun id
  state : lp'.settledState sim.network.systemId id = lp.settledState sim.network.systemId id
  backlog : lp'.backlog sim.network.systemId id + outgoing sent =
    lp.backlog sim.network.systemId id

variable {sim}

theorem begun_insert (id : Nat) (ev : Event ε) (lp : LogicalProcess σ ε) :
    (lp.insert ev).begun id = lp.begun id := by
  simp [LogicalProcess.begun, LogicalProcess.insert_log, Action.executed?]

theorem continues_insert {id : Nat} {lp lp' : LogicalProcess σ ε} (hfresh : lp.Fresh)
    (huid : lp.m_uid + 1 < 2 ^ 32) {ev : Event ε} {handler : Handler σ ε}
    (hlp' : lp' = { lp.insert ev with running := some handler })
    (hstate : (handler.outcome sim.network.systemId id lp.m_currentTs lp.m_currentContext).1 =
      lp.settledState sim.network.systemId id)
    (hrest : lp.rest sim.network.systemId id = ev.occurrence id ::
      (handler.outcome sim.network.systemId id lp.m_currentTs lp.m_currentContext).2) :
    sim.Continues id lp lp' none := by
  subst hlp'
  refine ⟨hfresh.insert huid ev, begun_insert id ev lp, hstate, ?_⟩
  have hperm := Multiset.coe_eq_coe.mpr (hfresh.insert_perm id ev)
  have hafter : LogicalProcess.rest sim.network.systemId id
      { lp.insert ev with running := some handler } =
      (handler.outcome sim.network.systemId id lp.m_currentTs lp.m_currentContext).2 := rfl
  rw [LogicalProcess.backlog, LogicalProcess.backlog, hafter, hrest, hperm, ← Multiset.cons_coe,
    ← Multiset.cons_coe, outgoing, add_zero, Multiset.cons_add, Multiset.add_cons]

theorem call_continues {id : Nat} {lp : LogicalProcess σ ε} {handler : Handler σ ε}
    {may : Nat → Prop} (hrun : lp.running = some handler) (hblind : handler.Blind may)
    (hfresh : lp.Fresh)
    (huid : ∀ delay event next, handler = .schedule delay event next → lp.m_uid + 1 < 2 ^ 32)
    (huid' : ∀ context delay event next, handler = .scheduleWithContext context delay event next →
      sim.network.systemId context = id → lp.m_uid + 1 < 2 ^ 32) :
    sim.Continues id lp (sim.call id lp handler).1 (sim.call id lp handler).2 := by
  have hstate : (handler.outcome sim.network.systemId id lp.m_currentTs lp.m_currentContext).1 =
      lp.settledState sim.network.systemId id := by rw [LogicalProcess.settledState, hrun]
  have hrest : lp.rest sim.network.systemId id =
      (handler.outcome sim.network.systemId id lp.m_currentTs lp.m_currentContext).2 := by
    rw [LogicalProcess.rest, hrun]
  cases handler with
  | done state =>
      refine ⟨hfresh, rfl, hstate, ?_⟩
      rw [LogicalProcess.backlog, LogicalProcess.backlog, hrest]
      exact add_zero _
  | schedule delay event next =>
      have hkey : next ⟨lp.m_currentTs + delay, lp.m_uid, lp.m_currentContext⟩ =
          next ⟨lp.m_currentTs + delay, uidInvalid, lp.m_currentContext⟩ := hblind.1 _ _
      refine continues_insert hfresh (huid delay event next rfl) rfl ?_ ?_
      · rw [hkey]
        exact hstate
      · rw [hkey]
        exact hrest
  | scheduleWithContext context delay event next =>
      rw [call]
      split
      · next hlocal =>
          refine continues_insert hfresh (huid' context delay event next rfl hlocal) rfl hstate ?_
          rw [hrest, Handler.outcome, hlocal]
          rfl
      · refine ⟨hfresh, rfl, hstate, ?_⟩
        have hsent : (lp.message id context delay event).ev.occurrence
            (sim.network.systemId context) =
            ⟨sim.network.systemId context, lp.m_currentTs + delay, context, event⟩ := by
          rw [Nat.add_comm]
          rfl
        change (↑(lp.m_events.map (Event.occurrence id)) : Multiset _) +
          ↑(next.outcome sim.network.systemId id lp.m_currentTs lp.m_currentContext).2 +
          {(lp.message id context delay event).ev.occurrence (sim.network.systemId context)} = _
        rw [hsent, LogicalProcess.backlog, hrest, Handler.outcome, ← Multiset.cons_coe,
          Multiset.add_cons, add_comm, Multiset.singleton_add]
  | remove key next => exact hblind.elim

theorem backlog_invoke (hobl : sim.Oblivious) (seen seen' : χ) (id : Nat) {lp : LogicalProcess σ ε}
    {ev : Event ε} {rest : List (Event ε)} (hrun : lp.running = none)
    (hev : lp.m_events = ev :: rest) :
    let lp' := lp.invoke ev rest (sim.handler seen' id ev lp.state)
    let result := sim.react seen (ev.occurrence id) (lp.settledState sim.network.systemId id)
    lp'.settledState sim.network.systemId id = result.1 ∧
      lp'.backlog sim.network.systemId id + {ev.occurrence id} =
        lp.backlog sim.network.systemId id + result.2 := by
  have hstate : lp.settledState sim.network.systemId id = lp.state := by
    rw [LogicalProcess.settledState, hrun]
  have hresult : sim.react seen (ev.occurrence id) (lp.settledState sim.network.systemId id) =
      (sim.handler seen' id ev lp.state).outcome sim.network.systemId id ev.key.m_ts
        ev.key.m_context := by
    have hsame := hobl.same seen seen' id ⟨⟨ev.key.m_ts, uidInvalid, ev.key.m_context⟩, ev.impl, none⟩
      ev lp.state rfl rfl rfl
    rw [hstate, react]
    exact congrArg (Handler.outcome sim.network.systemId id ev.key.m_ts ev.key.m_context) hsame
  have hrest : lp.rest sim.network.systemId id = [] := LogicalProcess.rest_of_idle hrun
  intro lp' result
  refine ⟨congrArg Prod.fst hresult.symm, ?_⟩
  have hrest' : lp'.rest sim.network.systemId id = result.2 := congrArg Prod.snd hresult.symm
  have hevents' : lp'.m_events = rest := rfl
  rw [LogicalProcess.backlog, LogicalProcess.backlog, hrest, hrest', hevents', hev, List.map_cons,
    ← Multiset.cons_coe, Multiset.coe_nil, add_zero, Multiset.cons_add, add_comm _ {_},
    Multiset.singleton_add]

theorem sum_post (mailbox : Nat → Nat → List (Message ε)) {id n : Nat} (hid : id ≤ n)
    {sent : Option (Nat × Message ε)} (hsent : ∀ r m, sent = some (r, m) → r ≤ n) :
    ∑ r ∈ Finset.range (n + 1), ∑ q ∈ Finset.range (n + 1),
        mail r (post mailbox id sent r q) =
      ∑ r ∈ Finset.range (n + 1), ∑ q ∈ Finset.range (n + 1),
        mail r (mailbox r q) + outgoing sent := by
  cases sent with
  | none => exact (add_zero _).symm
  | some sent =>
      obtain ⟨remote, m⟩ := sent
      have hr : remote ∈ Finset.range (n + 1) :=
        Finset.mem_range.mpr (Nat.lt_succ_of_le (hsent remote m rfl))
      have hq : id ∈ Finset.range (n + 1) := Finset.mem_range.mpr (Nat.lt_succ_of_le hid)
      rw [← add_zero (∑ r ∈ Finset.range (n + 1), ∑ q ∈ Finset.range (n + 1), _)]
      apply sum_exchange hr
      · intro r hne
        simp [post, hne]
      · apply sum_exchange hq
        · intro q hne
          simp [post, hne]
        · simp [post, outgoing, mail, ← Multiset.coe_add]

theorem pending_moved (s : System σ ε) {id : Nat} (hid : id ≤ sim.g_systemCount)
    (result : LogicalProcess σ ε × Option (Nat × Message ε))
    (hsent : ∀ r m, result.2 = some (r, m) → r ≤ sim.g_systemCount)
    {a b : Multiset (Occurrence Nat (Nat × ε))}
    (h : result.1.backlog sim.network.systemId id + outgoing result.2 + a =
      (s.g_systems id).backlog sim.network.systemId id + b) :
    sim.pending (moved s id result) + a = sim.pending s + b := by
  have hsum : ∑ i ∈ Finset.range (sim.g_systemCount + 1),
        ((moved s id result).g_systems i).backlog sim.network.systemId i + (outgoing result.2 + a) =
      ∑ i ∈ Finset.range (sim.g_systemCount + 1),
        (s.g_systems i).backlog sim.network.systemId i + b := by
    apply sum_exchange (Finset.mem_range.mpr (Nat.lt_succ_of_le hid))
    · intro i hne
      rw [moved_of_ne s hne]
    · rw [moved_self, ← add_assoc, h]
  have hmail := sum_post s.m_mailbox hid hsent
  rw [pending, pending]
  simp only [moved] at hsum ⊢
  rw [hmail, add_right_comm _ _ b, ← hsum]
  abel

theorem pending_drained {s : System σ ε} {id : Nat} (hid : id ≤ sim.g_systemCount)
    {lp : LogicalProcess σ ε} (hcursor : (s.g_systems id).cursor ≤ sim.g_systemCount)
    (h : lp.backlog sim.network.systemId id =
      (s.g_systems id).backlog sim.network.systemId id +
        mail id (s.m_mailbox id (s.g_systems id).cursor)) :
    sim.pending (sim.drained s id lp) = sim.pending s := by
  have hr : id ∈ Finset.range (sim.g_systemCount + 1) :=
    Finset.mem_range.mpr (Nat.lt_succ_of_le hid)
  have hq : (s.g_systems id).cursor ∈ Finset.range (sim.g_systemCount + 1) :=
    Finset.mem_range.mpr (Nat.lt_succ_of_le hcursor)
  have hsum : ∑ i ∈ Finset.range (sim.g_systemCount + 1),
        ((sim.drained s id lp).g_systems i).backlog sim.network.systemId i + 0 =
      ∑ i ∈ Finset.range (sim.g_systemCount + 1),
        (s.g_systems i).backlog sim.network.systemId i +
          mail id (s.m_mailbox id (s.g_systems id).cursor) := by
    apply sum_exchange hr
    · intro i hne
      rw [drained_of_ne s hne]
    · rw [drained_self, add_zero, h]
  have hmail : ∑ r ∈ Finset.range (sim.g_systemCount + 1),
        ∑ q ∈ Finset.range (sim.g_systemCount + 1),
          mail r ((sim.drained s id lp).m_mailbox r q) +
        mail id (s.m_mailbox id (s.g_systems id).cursor) =
      ∑ r ∈ Finset.range (sim.g_systemCount + 1), ∑ q ∈ Finset.range (sim.g_systemCount + 1),
        mail r (s.m_mailbox r q) + 0 := by
    apply sum_exchange hr
    · intro r hne
      simp [drained, hne]
    · apply sum_exchange hq
      · intro q hne
        simp [drained, hne]
      · simp [drained, hcursor, mail]
  rw [add_zero] at hsum hmail
  rw [pending, pending, hsum, ← hmail]
  abel

variable (sim) in
/-- The processes have come to `s` by beginning the events of `L`. -/
structure Tracks (seen : χ) (start : Nat → σ) (initial : Multiset (Occurrence Nat (Nat × ε)))
    (L : List (Occurrence Nat (Nat × ε))) (s : System σ ε) : Prop where
  execution : (sim.reactive seen start initial).Execution L
  begun : ∀ id ≤ sim.g_systemCount, Reactive.own id L = (s.g_systems id).begun id
  state : ∀ id ≤ sim.g_systemCount, (s.g_systems id).settledState sim.network.systemId id =
    (sim.reactive seen start initial).after (start id) (Reactive.own id L)
  account : ↑L + sim.pending s = (sim.reactive seen start initial).due L
  fresh : ∀ id ≤ sim.g_systemCount, (s.g_systems id).Fresh
  blind : ∀ id ≤ sim.g_systemCount, ∀ handler, (s.g_systems id).running = some handler →
    handler.Blind (· < sim.network.nodeCount)
  unread : ∀ q, s.m_mailbox 0 q = []
  chronological : ∀ id ≤ sim.g_systemCount, Chronological ((s.g_systems id).begun id) ∧
    ∀ o ∈ (s.g_systems id).begun id, o.time ≤ (s.g_systems id).m_currentTs

theorem blind_call {id : Nat} {lp : LogicalProcess σ ε} {handler rest : Handler σ ε}
    {may : Nat → Prop} (h : handler.Blind may)
    (hrest : (sim.call id lp handler).1.running = some rest) : rest.Blind may := by
  cases handler with
  | done state => cases hrest
  | schedule delay event next =>
      cases hrest
      exact h.2 _
  | scheduleWithContext context delay event next =>
      rw [call] at hrest
      split at hrest <;> cases hrest <;> exact h.2
  | remove key next => exact h.elim

theorem call_remote (hobl : sim.Oblivious) {id remote : Nat} {lp : LogicalProcess σ ε}
    {handler : Handler σ ε} {m : Message ε} (h : handler.Blind (· < sim.network.nodeCount))
    (hm : (sim.call id lp handler).2 = some (remote, m)) :
    1 ≤ remote ∧ remote ≤ sim.g_systemCount := by
  cases handler with
  | done state => cases hm
  | schedule delay event next => cases hm
  | scheduleWithContext context delay event next =>
      rw [call] at hm
      split at hm
      · cases hm
      · cases hm
        exact hobl.placed context h.1
  | remove key next => cases hm

section

variable {seen : χ} {start : Nat → σ} {initial : Multiset (Occurrence Nat (Nat × ε))}
  {L : List (Occurrence Nat (Nat × ε))} {s : System σ ε}

theorem Tracks.continues (h : sim.Tracks seen start initial L s) {id : Nat}
    (hid : id ≤ sim.g_systemCount) {result : LogicalProcess σ ε × Option (Nat × Message ε)}
    (hc : sim.Continues id (s.g_systems id) result.1 result.2)
    (hts : result.1.m_currentTs = (s.g_systems id).m_currentTs)
    (hblind : ∀ handler, result.1.running = some handler →
      handler.Blind (· < sim.network.nodeCount))
    (hsent : ∀ r m, result.2 = some (r, m) → 1 ≤ r ∧ r ≤ sim.g_systemCount) :
    sim.Tracks seen start initial L (moved s id result) := by
  have hpending := pending_moved s hid result (fun r m hm => (hsent r m hm).2)
    (a := 0) (b := 0) (by rw [add_zero, add_zero, hc.backlog])
  rw [add_zero, add_zero] at hpending
  refine ⟨h.execution, ?_, ?_, hpending ▸ h.account, ?_, ?_, ?_, ?_⟩
  · intro i hi
    by_cases heq : i = id
    · subst heq
      rw [moved_self, hc.begun, h.begun i hi]
    · rw [moved_of_ne s heq, h.begun i hi]
  · intro i hi
    by_cases heq : i = id
    · subst heq
      rw [moved_self, hc.state, h.state i hi]
    · rw [moved_of_ne s heq, h.state i hi]
  · intro i hi
    by_cases heq : i = id
    · subst heq
      rw [moved_self]
      exact hc.fresh
    · rw [moved_of_ne s heq]
      exact h.fresh i hi
  · intro i hi handler hrun
    by_cases heq : i = id
    · subst heq
      rw [moved_self] at hrun
      exact hblind handler hrun
    · rw [moved_of_ne s heq] at hrun
      exact h.blind i hi handler hrun
  · intro q
    refine List.eq_nil_iff_forall_not_mem.mpr fun m hm => ?_
    cases mem_post hm with
    | inl hold => simp [h.unread q] at hold
    | inr hnew => exact absurd (hsent 0 m hnew.2).1 (by decide)
  · intro i hi
    by_cases heq : i = id
    · subst heq
      rw [moved_self, hc.begun, hts]
      exact h.chronological i hi
    · rw [moved_of_ne s heq]
      exact h.chronological i hi

theorem Tracks.invoke (hobl : sim.Oblivious) (h : sim.Tracks seen start initial L s)
    (hcausal : sim.Causal s) {id : Nat} (hid : id ≤ sim.g_systemCount) {seen' : χ} {ev : Event ε}
    {rest : List (Event ε)} (hrun : (s.g_systems id).running = none)
    (hev : (s.g_systems id).m_events = ev :: rest) :
    sim.Tracks seen start initial (L ++ [ev.occurrence id]) (moved s id
      ((s.g_systems id).invoke ev rest (sim.handler seen' id ev (s.g_systems id).state), none)) := by
  have hrange : id ∈ Finset.range (sim.g_systemCount + 1) :=
    Finset.mem_range.mpr (Nat.lt_succ_of_le hid)
  obtain ⟨hstate, hbacklog⟩ := backlog_invoke hobl seen seen' id hrun hev
  have hpending := pending_moved s hid ((s.g_systems id).invoke ev rest
    (sim.handler seen' id ev (s.g_systems id).state), none) (fun r m hm => by cases hm)
    (a := {ev.occurrence id}) ((congrArg (· + _) (add_zero _)).trans hbacklog)
  rw [h.state id hid] at hstate hpending
  have hdue := Reactive.due_append_singleton (sim.reactive seen start initial) (L := L)
    (o := ev.occurrence id) hrange
  have hmem : ev.occurrence id ∈ sim.pending s := by
    refine Multiset.mem_add.mpr (.inl (Multiset.mem_sum.mpr ⟨id, hrange, ?_⟩))
    rw [LogicalProcess.backlog, hev]
    simp
  have hbegun : ((s.g_systems id).invoke ev rest
      (sim.handler seen' id ev (s.g_systems id).state)).begun id =
      (s.g_systems id).begun id ++ [ev.occurrence id] := by
    simp [LogicalProcess.begun, LogicalProcess.invoke, Action.executed?]
  have hts : (s.g_systems id).m_currentTs ≤ ev.key.m_ts :=
    (hcausal.timely id hid).ts_le ev (hev ▸ List.mem_cons_self)
  have hself : Reactive.own id [ev.occurrence id] = [ev.occurrence id] :=
    Reactive.own_singleton_self (ev.occurrence id)
  have hother : ∀ i, i ≠ id → Reactive.own i [ev.occurrence id] = [] :=
    fun i hne => Reactive.own_singleton_of_ne (o := ev.occurrence id) (Ne.symm hne)
  refine ⟨.snoc h.execution hrange ?_, ?_, ?_, ?_, ?_, ?_, ?_, ?_⟩
  · rw [← h.account, ← Multiset.coe_add]
    exact add_le_add_right (Multiset.singleton_le.mpr hmem) _
  · intro i hi
    by_cases heq : i = id
    · subst heq
      rw [moved_self, Reactive.own_append, hself, hbegun, h.begun i hi]
    · rw [moved_of_ne s heq, Reactive.own_append, hother i heq, List.append_nil, h.begun i hi]
  · intro i hi
    by_cases heq : i = id
    · subst heq
      rw [moved_self, Reactive.own_append, hself, Reactive.after_append_singleton]
      exact hstate
    · rw [moved_of_ne s heq, Reactive.own_append, hother i heq, List.append_nil, h.state i hi]
  · rw [hdue, ← h.account, ← Multiset.coe_add, add_assoc, add_comm _ (sim.pending (moved s id _)),
      add_assoc]
    exact congrArg _ hpending
  · intro i hi
    by_cases heq : i = id
    · subst heq
      rw [moved_self]
      exact fun e he => h.fresh i hi e (hev ▸ List.mem_cons_of_mem ev he)
    · rw [moved_of_ne s heq]
      exact h.fresh i hi
  · intro i hi handler hhandler
    by_cases heq : i = id
    · subst heq
      rw [moved_self] at hhandler
      cases hhandler
      exact hobl.blind _ _ _ _
    · rw [moved_of_ne s heq] at hhandler
      exact h.blind i hi handler hhandler
  · exact h.unread
  · intro i hi
    by_cases heq : i = id
    · subst heq
      obtain ⟨hsorted, hle⟩ := h.chronological i hi
      rw [moved_self, hbegun]
      constructor
      · refine List.pairwise_append.mpr ⟨hsorted, List.pairwise_singleton _ _, ?_⟩
        intro a ha b hb
        exact List.mem_singleton.mp hb ▸ (hle a ha).trans hts
      · intro o ho
        cases List.mem_append.mp ho with
        | inl hold => exact (hle o hold).trans hts
        | inr hnew => exact List.mem_singleton.mp hnew ▸ le_rfl
    · rw [moved_of_ne s heq]
      exact h.chronological i hi

theorem Tracks.moved (hobl : sim.Oblivious) (h : sim.Tracks seen start initial L s)
    (hcausal : sim.Causal s) {id granted : Nat} (hid : id ≤ sim.g_systemCount)
    (hstage : s.stage ≠ .receiveMessages) {seen' : χ}
    (huid : (s.g_systems id).m_uid + sim.insertions s id < 2 ^ 32)
    {result : LogicalProcess σ ε × Option (Nat × Message ε)}
    (hadv : sim.advance id granted seen' (s.g_systems id) = some result) :
    ∃ L', sim.Tracks seen start initial L' (moved s id result) := by
  rw [insertions, if_neg hstage] at huid
  obtain ⟨-, ⟨handler, hrun, rfl⟩ | ⟨hrun, -, ev, rest, hev, rfl⟩ | ⟨hrun, -, rfl⟩⟩ :=
    advance_eq_some.mp hadv
  · have hblind := h.blind id hid handler hrun
    refine ⟨L, h.continues hid ?_ (call_m_currentTs id _ handler)
      (fun _ hrest => blind_call hblind hrest) fun r m hm => call_remote hobl hblind hm⟩
    apply call_continues hrun hblind (h.fresh id hid)
    · rintro delay event next rfl
      simpa [hrun] using huid
    · rintro context delay event next rfl hlocal
      simpa [hrun, hlocal] using huid
  · exact ⟨_, h.invoke hobl hcausal hid hrun hev⟩
  · refine ⟨L, h.continues hid ⟨h.fresh id hid, rfl, rfl, add_zero _⟩ rfl ?_ fun r m hm => ?_⟩
    · exact h.blind id hid
    · cases hm

theorem collect_keeps {id : Nat} (hid : id ≤ sim.g_systemCount)
    (hidle : (s.g_systems id).running = none) (hfresh : (s.g_systems id).Fresh)
    (huid : (s.g_systems id).m_uid + (s.m_mailbox id (s.g_systems id).cursor).length < 2 ^ 32)
    {lp : LogicalProcess σ ε} (hlp : sim.collect (s.m_mailbox id) (s.g_systems id) = some lp) :
    lp.Fresh ∧ lp.begun id = (s.g_systems id).begun id ∧ lp.running = none ∧
      lp.state = (s.g_systems id).state ∧ lp.m_currentTs = (s.g_systems id).m_currentTs ∧
      sim.pending (sim.drained s id lp) = sim.pending s := by
  obtain ⟨-, ⟨hcursor, rfl⟩ | ⟨hcursor, rfl⟩⟩ := collect_eq_some.mp hlp
  · obtain ⟨hfresh, hperm⟩ := hfresh.receive sim.order huid id
    refine ⟨hfresh, ?_, by simp [hidle], ?_, by simp, pending_drained hid hcursor ?_⟩
    · exact LogicalProcess.receive_keep (LogicalProcess.begun id) (begun_insert id) ..
    · exact LogicalProcess.receive_keep LogicalProcess.state (fun _ _ => rfl) ..
    · rw [LogicalProcess.backlog, LogicalProcess.backlog, LogicalProcess.rest_of_idle hidle,
        LogicalProcess.rest_of_idle (by simp [hidle]), Multiset.coe_nil, add_zero, add_zero]
      exact Multiset.coe_eq_coe.mpr (hperm.trans List.perm_append_comm)
  · refine ⟨hfresh, rfl, hidle, rfl, rfl, ?_⟩
    have hmail : (sim.drained s id { s.g_systems id with finished := true }).m_mailbox =
        s.m_mailbox := by
      funext r q
      simp only [Simulation.drained]
      rw [if_neg (by omega)]
    rw [pending, pending, hmail]
    congr 1
    apply Finset.sum_congr rfl
    intro i _
    by_cases heq : i = id
    · subst heq
      rw [drained_self]
      rfl
    · rw [drained_of_ne s heq]

theorem Tracks.drain (h : sim.Tracks seen start initial L s) (hcausal : sim.Causal s) {id : Nat}
    (hid : id ≤ sim.g_systemCount) (hstage : s.stage = .receiveMessages)
    (huid : (s.g_systems id).m_uid + sim.insertions s id < 2 ^ 32) {lp : LogicalProcess σ ε}
    (hlp : sim.collect (s.m_mailbox id) (s.g_systems id) = some lp) :
    sim.Tracks seen start initial L (sim.drained s id lp) := by
  rw [insertions, if_pos hstage] at huid
  have hidle := hcausal.staged.idle_of_receive hstage id hid
  obtain ⟨hfresh, hbegun, hrun, hstate, hts, hpending⟩ :=
    collect_keeps hid hidle (h.fresh id hid) huid hlp
  refine ⟨h.execution, ?_, ?_, hpending ▸ h.account, ?_, ?_, ?_, ?_⟩
  · intro i hi
    by_cases heq : i = id
    · subst heq
      rw [drained_self, hbegun, h.begun i hi]
    · rw [drained_of_ne s heq, h.begun i hi]
  · intro i hi
    by_cases heq : i = id
    · subst heq
      rw [drained_self, ← h.state i hi, LogicalProcess.settledState, LogicalProcess.settledState,
        hrun, hidle, hstate]
    · rw [drained_of_ne s heq, h.state i hi]
  · intro i hi
    by_cases heq : i = id
    · subst heq
      rw [drained_self]
      exact hfresh
    · rw [drained_of_ne s heq]
      exact h.fresh i hi
  · intro i hi handler hhandler
    by_cases heq : i = id
    · subst heq
      rw [drained_self, hrun] at hhandler
      cases hhandler
    · rw [drained_of_ne s heq] at hhandler
      exact h.blind i hi handler hhandler
  · intro q
    refine List.eq_nil_iff_forall_not_mem.mpr fun m hm => ?_
    have hold := mem_drained hm
    simp [h.unread q] at hold
  · intro i hi
    by_cases heq : i = id
    · subst heq
      rw [drained_self, hbegun, hts]
      exact h.chronological i hi
    · rw [drained_of_ne s heq]
      exact h.chronological i hi

theorem Tracks.nextStage (h : sim.Tracks seen start initial L s) :
    sim.Tracks seen start initial L (sim.nextStage s) := by
  rw [Simulation.nextStage]
  split <;>
    exact ⟨h.execution, h.begun, h.state, h.account, h.fresh, h.blind, h.unread, h.chronological⟩

theorem Tracks.step (hobl : sim.Oblivious) (h : sim.Tracks seen start initial L s)
    (hcausal : sim.Causal s) {a : Move χ} (hok : sim.NoWrap s a) {t : System σ ε}
    (hstep : sim.step s a = some t) : ∃ L', sim.Tracks seen start initial L' t := by
  cases a with
  | work id seen' =>
      obtain ⟨-, hpart, ⟨hstage, lp, hlp, rfl⟩ | ⟨hstage, result, hadv, rfl⟩⟩ :=
        work_eq_some.mp hstep
      · have hid := takesPart_le hpart
        exact ⟨L, h.drain hcausal hid hstage hok hlp⟩
      · exact h.moved hobl hcausal (takesPart_le hpart) hstage hok hadv
  | barrier =>
      obtain ⟨-, -, rfl⟩ := barrier_eq_some.mp hstep
      exact ⟨L, h.nextStage⟩

end

end Simulation

end CollectiveSim.Mtp
