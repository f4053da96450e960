import CollectiveSim.Mtp.Stages

/-!
# Messages of one sender with one receive time

The receiver gives every message a uid when it drains the queue, and executes events of one time in
the order of their uids. So messages are executed as they were sent if sorting a queue does not
exchange any two of them that have the same receive time. The sort looks at the sender's clock and
at its uid counter, and only the latter tells messages of one handler apart.
-/

namespace CollectiveSim.Mtp

open Framework

variable {σ ε χ : Type}

/-- Of two messages of one sender for one time, the first was sent before the second. -/
def SentFirst (a b : Event ε) : Prop :=
  ∀ o o', a.origin = some o → b.origin = some o' → o.sender = o'.sender →
    a.key.m_ts = b.key.m_ts → o.count < o'.count

theorem SentFirst.of_local {a b : Event ε} (h : a.origin = none ∨ b.origin = none) :
    SentFirst a b := by
  intro o o' ho ho'
  cases h with
  | inl hnone => rw [hnone] at ho; cases ho
  | inr hnone => rw [hnone] at ho'; cases ho'

/-- Of two messages for one time the first was sent before the second, and its sender's clock and
uid counter tell so. -/
def Message.Precedes (a b : Message ε) : Prop :=
  a.ev.key.m_ts = b.ev.key.m_ts → SentFirst a.ev b.ev ∧
    (a.m_currentTs < b.m_currentTs ∨ a.m_currentTs = b.m_currentTs ∧ a.m_uid < b.m_uid)

theorem Message.Precedes.lt {a b : Message ε} (h : a.Precedes b) (hid : a.m_systemId = b.m_systemId)
    (hts : a.ev.key.m_ts = b.ev.key.m_ts) : a.lt b := by
  obtain ⟨-, hlt⟩ := h hts
  simp only [Message.lt]
  omega

theorem Message.Precedes.sentFirst {a b : Message ε} (h : a.Precedes b) : SentFirst a.ev b.ev :=
  fun o o' ho ho' hsender hts => (h hts).1 o o' ho ho' hsender hts

theorem pairwise_drained (order : MessageSort ε) {queue : List (Message ε)} {sender : Nat}
    (hsender : ∀ m ∈ queue, m.m_systemId = sender) (h : queue.Pairwise Message.Precedes) :
    ((order.sort queue).reverse).Pairwise fun a b => SentFirst a.ev b.ev := by
  have hperm : (order.sort queue).reverse.Perm queue :=
    (List.reverse_perm _).trans (order.perm queue)
  have hnodup : (order.sort queue).reverse.Nodup := by
    refine hperm.nodup_iff.mpr (h.imp ?_)
    intro a b hab heq
    obtain ⟨-, hlt⟩ := hab (by rw [heq])
    rw [heq] at hlt
    omega
  have hsorted : (order.sort queue).reverse.Pairwise fun a b => ¬ b.lt a :=
    List.pairwise_reverse.mpr (order.sorted queue)
  refine (hnodup.and hsorted).imp_of_mem ?_
  intro a b ha hb hab
  have ha' := hperm.mem_iff.mp ha
  have hb' := hperm.mem_iff.mp hb
  have hsymm : Std.Symm fun a b : Message ε => a.Precedes b ∨ b.Precedes a :=
    ⟨fun _ _ => Or.symm⟩
  have hqueue : queue.Pairwise fun a b => a.Precedes b ∨ b.Precedes a := h.imp Or.inl
  have hboth : a.Precedes b ∨ b.Precedes a := hqueue.forall ha' hb' hab.1
  cases hboth with
  | inl hfirst => exact hfirst.sentFirst
  | inr hlast =>
      intro o o' _ _ _ hts
      exact absurd (hlast.lt ((hsender b hb').trans (hsender a ha').symm) hts.symm) hab.2

section

variable {R : Event ε → Event ε → Prop}

theorem pairwise_insertEvent {es : List (Event ε)} (h : es.Pairwise R) (horder : InOrder es)
    {ev : Event ε} (hbefore : ∀ e ∈ es, R e ev) (hafter : ∀ e ∈ es, ev.key.lt e.key → R ev e) :
    (insertEvent ev es).Pairwise R := by
  induction es with
  | nil => exact List.pairwise_singleton R ev
  | cons x xs ih =>
      obtain ⟨hx, hxs⟩ := List.pairwise_cons.mp h
      obtain ⟨hfirst, hrest⟩ := List.pairwise_cons.mp horder
      obtain ⟨hbx, hbxs⟩ := List.forall_mem_cons.mp hbefore
      obtain ⟨hax, haxs⟩ := List.forall_mem_cons.mp hafter
      rw [insertEvent]
      split
      · next hlt =>
          refine List.pairwise_cons.mpr ⟨?_, h⟩
          intro y hy
          cases List.mem_cons.mp hy with
          | inl heq => exact heq ▸ hax hlt
          | inr hmem => exact haxs y hmem (EventKey.lt_trans hlt (hfirst y hmem))
      · split
        · refine List.pairwise_cons.mpr ⟨?_, ih hxs hrest hbxs haxs⟩
          intro y hy
          cases mem_insertEvent hy with
          | inl heq => exact heq ▸ hbx
          | inr hmem => exact hx y hmem
        · exact h

end

namespace LogicalProcess

/-- What the process has executed, and behind it what it is going to execute. -/
def executedEvents (lp : LogicalProcess σ ε) : List (Event ε) := lp.log.filterMap Action.executed?

def schedule (lp : LogicalProcess σ ε) : List (Event ε) := lp.executedEvents ++ lp.m_events

theorem executedEvents_insert (ev : Event ε) (lp : LogicalProcess σ ε) :
    (lp.insert ev).executedEvents = lp.executedEvents := by
  simp [executedEvents, insert_log, Action.executed?]

theorem mem_schedule_insert {e ev : Event ε} {lp : LogicalProcess σ ε}
    (h : e ∈ (lp.insert ev).schedule) :
    e ∈ lp.schedule ∨ e = { ev with key.m_uid := lp.m_uid } := by
  rw [schedule, executedEvents_insert, List.mem_append, insert_m_events] at h
  cases h with
  | inl hold => exact .inl (List.mem_append_left _ hold)
  | inr hnew => exact (mem_insertEvent hnew).symm.imp_left (List.mem_append_right _)

/-- Whatever was sent first stands first, among what is executed and what waits. -/
structure Steady (lp : LogicalProcess σ ε) : Prop where
  inOrder : InOrder lp.m_events
  uid : ∀ e ∈ lp.m_events, e.key.m_uid < lp.m_uid
  sent : lp.schedule.Pairwise SentFirst

theorem Steady.insert {lp : LogicalProcess σ ε} (h : lp.Steady) {ev : Event ε}
    (huid : lp.m_uid + 1 < 2 ^ 32) (hev : ∀ e ∈ lp.schedule, SentFirst e ev) :
    (lp.insert ev).Steady where
  inOrder := h.inOrder.insertEvent _
  uid := by
    intro e he
    rw [insert_m_uid, nextUid, Nat.mod_eq_of_lt huid]
    cases mem_insertEvent he with
    | inl heq => exact heq ▸ Nat.lt_succ_self _
    | inr hmem => exact (h.uid e hmem).trans (Nat.lt_succ_self _)
  sent := by
    obtain ⟨hexecuted, hevents, hcross⟩ := List.pairwise_append.mp h.sent
    have hbefore : ∀ e ∈ lp.schedule, SentFirst e { ev with key.m_uid := lp.m_uid } := hev
    rw [schedule, executedEvents_insert, insert_m_events]
    refine List.pairwise_append.mpr ⟨hexecuted, ?_, ?_⟩
    · apply pairwise_insertEvent hevents h.inOrder
      · intro e he
        exact hbefore e (List.mem_append_right _ he)
      · -- the new uid is the largest, so what stands behind is for a later time
        intro e he hlt o o' _ _ _ hts
        have hold := h.uid e he
        simp only [EventKey.lt] at hlt hts
        omega
    · intro a ha b hb
      cases mem_insertEvent hb with
      | inl heq => exact heq ▸ hbefore a (List.mem_append_left _ ha)
      | inr hmem => exact hcross a ha b hmem

theorem Steady.drain {lp : LogicalProcess σ ε} {messages : List (Message ε)} (h : lp.Steady)
    (huid : lp.m_uid + messages.length < 2 ^ 32)
    (horder : messages.Pairwise fun a b => SentFirst a.ev b.ev)
    (hnew : ∀ e ∈ lp.schedule, ∀ m ∈ messages, SentFirst e m.ev) :
    (messages.foldl (fun lp m => lp.insert m.ev) lp).Steady ∧
      ∀ e ∈ (messages.foldl (fun lp m => lp.insert m.ev) lp).schedule, e ∈ lp.schedule ∨
        ∃ m ∈ messages, e.key.m_ts = m.ev.key.m_ts ∧ e.origin = m.ev.origin := by
  induction messages generalizing lp with
  | nil => exact ⟨h, fun e he => .inl he⟩
  | cons m ms ih =>
      rw [List.length_cons] at huid
      obtain ⟨hfirst, hrest⟩ := List.pairwise_cons.mp horder
      have hins : (lp.insert m.ev).Steady := by
        apply h.insert (by omega)
        intro e he
        exact hnew e he m List.mem_cons_self
      have hlen : (lp.insert m.ev).m_uid + ms.length < 2 ^ 32 := by
        rw [insert_m_uid, nextUid, Nat.mod_eq_of_lt (by omega)]
        omega
      have hlater : ∀ e ∈ (lp.insert m.ev).schedule, ∀ m' ∈ ms, SentFirst e m'.ev := by
        intro e he m' hm'
        cases mem_schedule_insert he with
        | inl hold => exact hnew e hold m' (List.mem_cons_of_mem m hm')
        | inr heq => exact heq ▸ hfirst m' hm'
      obtain ⟨hsteady, hmem⟩ := ih hins hlen hrest hlater
      refine ⟨hsteady, ?_⟩
      intro e he
      cases hmem e he with
      | inl hold =>
          cases mem_schedule_insert hold with
          | inl hold => exact .inl hold
          | inr heq => exact .inr ⟨m, List.mem_cons_self, heq ▸ ⟨rfl, rfl⟩⟩
      | inr hms =>
          obtain ⟨m', hm', heq⟩ := hms
          exact .inr ⟨m', List.mem_cons_of_mem m hm', heq⟩

theorem uid_le_drain {lp : LogicalProcess σ ε} {messages : List (Message ε)}
    (huid : lp.m_uid + messages.length < 2 ^ 32) :
    lp.m_uid ≤ (messages.foldl (fun lp m => lp.insert m.ev) lp).m_uid := by
  induction messages generalizing lp with
  | nil => exact le_rfl
  | cons m ms ih =>
      rw [List.length_cons] at huid
      have hnext : (lp.insert m.ev).m_uid = lp.m_uid + 1 := by
        rw [insert_m_uid, nextUid, Nat.mod_eq_of_lt (by omega)]
      have hrest : (lp.insert m.ev).m_uid ≤ _ := ih (by omega)
      rw [List.foldl_cons]
      omega

theorem Steady.of_eq {lp lp' : LogicalProcess σ ε} (h : lp.Steady)
    (hevents : lp'.m_events = lp.m_events) (huid : lp'.m_uid = lp.m_uid)
    (hlog : lp'.log = lp.log) : lp'.Steady where
  inOrder := hevents ▸ h.inOrder
  uid := by rw [hevents, huid]; exact h.uid
  sent := by
    rw [schedule, executedEvents, hevents, hlog]
    exact h.sent

/-- What a step of the process itself makes of it: events of its own only. -/
structure Follows (lp lp' : LogicalProcess σ ε) : Prop where
  steady : lp'.Steady
  own : ∀ e ∈ lp'.schedule, e ∈ lp.schedule ∨ e.origin = none
  uid : lp.m_uid ≤ lp'.m_uid
  sent : lp.sent ≤ lp'.sent

theorem Follows.of_eq {lp lp' lp'' : LogicalProcess σ ε} (h : lp.Follows lp')
    (hevents : lp''.m_events = lp'.m_events) (huid : lp''.m_uid = lp'.m_uid)
    (hlog : lp''.log = lp'.log) (hsent : lp'.sent ≤ lp''.sent) : lp.Follows lp'' where
  steady := h.steady.of_eq hevents huid hlog
  own := by
    rw [schedule, executedEvents, hevents, hlog]
    exact h.own
  uid := huid ▸ h.uid
  sent := h.sent.trans hsent

theorem Steady.follows {lp : LogicalProcess σ ε} (h : lp.Steady) : lp.Follows lp :=
  ⟨h, fun _ he => .inl he, le_rfl, le_rfl⟩

theorem Steady.follows_insert {lp : LogicalProcess σ ε} (h : lp.Steady)
    (huid : lp.m_uid + 1 < 2 ^ 32) (context delay : Nat) (event : ε) :
    lp.Follows (lp.insert (lp.localEvent context delay event)) where
  steady := h.insert huid fun _ _ => .of_local (.inr rfl)
  own := by
    intro e he
    exact (mem_schedule_insert he).imp_right fun heq => by rw [heq]; rfl
  uid := by
    rw [insert_m_uid, nextUid, Nat.mod_eq_of_lt huid]
    exact Nat.le_succ _
  sent := le_rfl

theorem Steady.follows_remove {lp : LogicalProcess σ ε} (h : lp.Steady) (id : EventKey) :
    lp.Follows (lp.Remove id) := by
  have hsub := lp.remove_sublist id
  have hschedule : (lp.Remove id).schedule.Sublist lp.schedule := by
    rw [schedule, executedEvents, remove_log]
    exact hsub.append_left _
  have hrest : (lp.Remove id).m_uid = lp.m_uid ∧ (lp.Remove id).sent = lp.sent := by
    rw [Remove]
    split <;> exact ⟨rfl, rfl⟩
  refine ⟨⟨h.inOrder.sublist hsub, ?_, h.sent.sublist hschedule⟩, ?_, hrest.1.ge, hrest.2.ge⟩
  · intro e he
    rw [hrest.1]
    exact h.uid e (hsub.subset he)
  · exact fun e he => .inl (hschedule.subset he)

theorem Steady.follows_invoke {lp : LogicalProcess σ ε} (h : lp.Steady) {ev : Event ε}
    {rest : List (Event ε)} (hev : lp.m_events = ev :: rest) (handler : Handler σ ε) :
    lp.Follows (lp.invoke ev rest handler) := by
  have hschedule : (lp.invoke ev rest handler).schedule = lp.schedule := by
    simp [schedule, executedEvents, LogicalProcess.invoke, hev, Action.executed?]
  have horder : InOrder (ev :: rest) := hev ▸ h.inOrder
  refine ⟨⟨(List.pairwise_cons.mp horder).2, ?_, hschedule ▸ h.sent⟩, ?_, le_rfl, le_rfl⟩
  · intro e he
    exact h.uid e (hev ▸ List.mem_cons_of_mem ev he)
  · exact fun e he => .inl (hschedule ▸ he)

end LogicalProcess

namespace Simulation

variable (sim : Simulation σ ε χ)

/-- How many events the next step of the process puts into its queue. -/
def insertions (s : System σ ε) (id : Nat) : Nat :=
  if s.stage = .receiveMessages then (s.m_mailbox id (s.g_systems id).cursor).length
  else match (s.g_systems id).running with
    | some (.schedule _ _ _) => 1
    | some (.scheduleWithContext context _ _ _) =>
        if sim.network.systemId context = id then 1 else 0
    | _ => 0

/-- The messages in a queue that the next message for it could be confused with: for the same time,
sent at the same time, and with no event scheduled in between. Queues that are never drained do not
count. -/
def tied (s : System σ ε) (id : Nat) : List (Message ε) :=
  match (s.g_systems id).running with
  | some (.scheduleWithContext context delay _ _) =>
      let remote := sim.network.systemId context
      if remote = id ∨ remote = 0 ∨ sim.g_systemCount < remote then []
      else (s.m_mailbox remote id).filter fun m =>
        m.ev.key.m_ts = delay + (s.g_systems id).m_currentTs ∧
          m.m_currentTs = (s.g_systems id).m_currentTs ∧ m.m_uid = (s.g_systems id).m_uid
  | _ => []

/-- No message is sent that is tied to an earlier one or that two threads race for, and no uid counter
wraps around. -/
def NoTie (s : System σ ε) : Move χ → Prop
  | .barrier => True
  | .work id seen =>
      (s.g_systems id).m_uid + sim.insertions s id < 2 ^ 32 ∧ sim.tied s id = [] ∧
        sim.NoRace s (.work id seen)

instance (s : System σ ε) : (a : Move χ) → Decidable (sim.NoTie s a)
  | .barrier => isTrue trivial
  | .work _ _ => inferInstanceAs (Decidable (_ ∧ _ ∧ _))

/-- The events are local ones, and the messages are filed as they were sent, without a tie. -/
structure Filed (s : System σ ε) : Prop where
  events : ∀ id, ∀ e ∈ (s.g_systems id).m_events,
    e.origin = none ∧ e.key.m_uid < (s.g_systems id).m_uid
  messages : ∀ r q, ∀ m ∈ s.m_mailbox r q,
    m.m_currentTs = 0 ∧ m.m_systemId = q ∧ m.m_uid ≤ (s.g_systems q).m_uid ∧
      ∃ count < (s.g_systems q).sent, m.ev.origin = some ⟨q, count⟩
  order : ∀ r q, (s.m_mailbox r q).Pairwise Message.Precedes

/-- What holds between any two steps of a round. -/
structure SendOrder (s : System σ ε) : Prop where
  staged : sim.Staged s
  steady : ∀ id ≤ sim.g_systemCount, (s.g_systems id).Steady
  ahead : ∀ id ≤ sim.g_systemCount, (s.g_systems id).running ≠ none →
    (s.g_systems id).From (s.g_systems id).m_currentTs
  counted : ∀ id ≤ sim.g_systemCount, ∀ e ∈ (s.g_systems id).schedule, ∀ o,
    e.origin = some o → o.count < (s.g_systems o.sender).sent
  later : ∀ r, 1 ≤ r → r ≤ sim.g_systemCount → ∀ q, ∀ e ∈ (s.g_systems r).schedule,
    ∀ m ∈ s.m_mailbox r q, SentFirst e m.ev
  queued : ∀ r, 1 ≤ r → r ≤ sim.g_systemCount → ∀ q, ∀ m ∈ s.m_mailbox r q,
    m.m_systemId = q ∧ m.m_uid ≤ (s.g_systems q).m_uid ∧
      ∃ count < (s.g_systems q).sent, m.ev.origin = some ⟨q, count⟩
  order : ∀ r, 1 ≤ r → r ≤ sim.g_systemCount → ∀ q, (s.m_mailbox r q).Pairwise Message.Precedes
  clock : s.stage ≠ .receiveMessages → ∀ r, 1 ≤ r → r ≤ sim.g_systemCount → ∀ q,
    ∀ m ∈ s.m_mailbox r q, (s.g_systems q).From m.m_currentTs

variable {sim}

theorem Initial.sendOrder {s : System σ ε} (h : sim.Initial s) (hfiled : Filed s) :
    sim.SendOrder s := by
  have hschedule : ∀ id, (s.g_systems id).schedule = (s.g_systems id).m_events := by
    intro id
    simp [LogicalProcess.schedule, LogicalProcess.executedEvents, h.log id]
  have hlocal : ∀ id, ∀ e ∈ (s.g_systems id).schedule, e.origin = none := by
    intro id e he
    exact (hfiled.events id e (hschedule id ▸ he)).1
  refine ⟨h.staged, ?_, ?_, ?_, ?_, ?_, ?_, ?_⟩
  · intro id _
    refine ⟨h.inOrder id, fun e he => (hfiled.events id e he).2, ?_⟩
    exact List.pairwise_of_forall_mem_list fun a ha b _ => .of_local (.inl (hlocal id a ha))
  · exact fun id _ hrun => absurd (h.running id) hrun
  · intro id _ e he o ho
    rw [hlocal id e he] at ho
    cases ho
  · intro r _ _ q e he m _
    exact .of_local (.inl (hlocal r e he))
  · intro r _ _ q m hm
    exact (hfiled.messages r q m hm).2
  · exact fun r _ _ q => hfiled.order r q
  · intro _ r _ _ q m hm
    rw [(hfiled.messages r q m hm).1]
    exact ⟨fun _ _ => Nat.zero_le _, fun _ => Nat.zero_le _⟩

theorem advance_follows {s : System σ ε} {id : Nat} {seen : χ} {granted : Nat}
    {result : LogicalProcess σ ε × Option (Nat × Message ε)}
    (h : sim.advance id granted seen (s.g_systems id) = some result)
    (hstage : s.stage ≠ .receiveMessages) (hsteady : (s.g_systems id).Steady)
    (huid : (s.g_systems id).m_uid + sim.insertions s id < 2 ^ 32) :
    (s.g_systems id).Follows result.1 := by
  rw [insertions, if_neg hstage] at huid
  obtain ⟨-, ⟨handler, hrun, rfl⟩ | ⟨-, -, ev, rest, hev, rfl⟩ | ⟨-, -, rfl⟩⟩ :=
    advance_eq_some.mp h
  · rw [hrun] at huid
    cases handler with
    | done state => exact hsteady.follows.of_eq rfl rfl rfl le_rfl
    | schedule delay event next =>
        exact (hsteady.follows_insert huid _ delay event).of_eq rfl rfl rfl le_rfl
    | scheduleWithContext context delay event next =>
        rw [call]
        split
        · next hlocal =>
            simp only [hlocal, if_true] at huid
            exact (hsteady.follows_insert huid context delay event).of_eq rfl rfl rfl le_rfl
        · exact hsteady.follows.of_eq rfl rfl rfl (Nat.le_succ _)
    | remove key next => exact (hsteady.follows_remove key).of_eq rfl rfl rfl le_rfl
  · exact hsteady.follows_invoke hev _
  · exact hsteady.follows.of_eq rfl rfl rfl le_rfl

theorem advance_sends {id granted remote : Nat} {seen : χ} {lp : LogicalProcess σ ε}
    {result : LogicalProcess σ ε × Option (Nat × Message ε)} {m : Message ε}
    (h : sim.advance id granted seen lp = some result) (hm : result.2 = some (remote, m)) :
    ∃ context delay event next,
      lp.running = some (.scheduleWithContext context delay event next) ∧
      remote = sim.network.systemId context ∧ remote ≠ id ∧
      m = lp.message id context delay event ∧ result.1.sent = lp.sent + 1 := by
  obtain ⟨-, ⟨handler, hrun, rfl⟩ | ⟨-, -, ev, rest, hev, rfl⟩ | ⟨-, -, rfl⟩⟩ :=
    advance_eq_some.mp h
  · cases handler with
    | done state => cases hm
    | schedule delay event next => cases hm
    | scheduleWithContext context delay event next =>
        refine ⟨context, delay, event, next, hrun, ?_⟩
        rw [call] at hm ⊢
        split at hm
        · cases hm
        · next hremote =>
            cases hm
            rw [if_neg hremote]
            exact ⟨rfl, hremote, rfl, rfl⟩
    | remove key next => cases hm
  · cases hm
  · cases hm

theorem advance_ahead {id granted : Nat} {seen : χ} {lp : LogicalProcess σ ε}
    {result : LogicalProcess σ ε × Option (Nat × Message ε)}
    (h : sim.advance id granted seen lp = some result) (horder : InOrder lp.m_events)
    (hahead : lp.running ≠ none → lp.From lp.m_currentTs) (hrun : result.1.running ≠ none) :
    result.1.From result.1.m_currentTs := by
  obtain ⟨-, ⟨handler, hhandler, rfl⟩ | ⟨-, -, ev, rest, hev, rfl⟩ | ⟨hnone, -, rfl⟩⟩ :=
    advance_eq_some.mp h
  · rw [call_m_currentTs]
    exact advance_from h (hahead (by simp [hhandler]))
  · have horder' : InOrder (ev :: rest) := hev ▸ horder
    exact ⟨horder'.ts_le, fun _ => le_rfl⟩
  · exact absurd hnone hrun

theorem tied_eq_nil {s : System σ ε} {id context delay : Nat} {event : ε} {next : Handler σ ε}
    (h : sim.tied s id = [])
    (hrun : (s.g_systems id).running = some (.scheduleWithContext context delay event next))
    (hremote : sim.network.systemId context ≠ id) (hone : 1 ≤ sim.network.systemId context)
    (hcount : sim.network.systemId context ≤ sim.g_systemCount) :
    ∀ m ∈ s.m_mailbox (sim.network.systemId context) id,
      m.ev.key.m_ts = delay + (s.g_systems id).m_currentTs →
      ¬ (m.m_currentTs = (s.g_systems id).m_currentTs ∧ m.m_uid = (s.g_systems id).m_uid) := by
  intro m hm hts heq
  rw [tied, hrun] at h
  simp only at h
  rw [if_neg (by omega)] at h
  exact (List.filter_eq_nil_iff.mp h) m hm (by simp [hts, heq])

/-- The message of a step that takes the process from `lp` to `lp'`. -/
structure Stamped (id : Nat) (lp lp' : LogicalProcess σ ε) (m : Message ε) : Prop where
  m_systemId : m.m_systemId = id
  m_uid : m.m_uid = lp.m_uid
  m_currentTs : m.m_currentTs = lp.m_currentTs
  origin : m.ev.origin = some ⟨id, lp.sent⟩
  sent : lp'.sent = lp.sent + 1
  running : lp.running ≠ none

theorem mem_moved_mailbox {s : System σ ε} {id granted : Nat} {seen : χ}
    {result : LogicalProcess σ ε × Option (Nat × Message ε)}
    (hadv : sim.advance id granted seen (s.g_systems id) = some result) {r q : Nat} {m : Message ε}
    (hm : m ∈ (moved s id result).m_mailbox r q) :
    m ∈ s.m_mailbox r q ∨ q = id ∧ Stamped id (s.g_systems id) result.1 m := by
  refine (mem_post hm).imp_right fun hpost => ?_
  obtain ⟨context, delay, event, next, hrun, hr, hne, rfl, hcount⟩ :=
    advance_sends hadv hpost.2
  exact ⟨hpost.1, rfl, rfl, rfl, rfl, hcount, by simp [hrun]⟩

/-- The message of a step without a tie goes behind all others of its mailbox. -/
theorem SendOrder.order_moved {s : System σ ε} (h : sim.SendOrder s) {id : Nat} {seen : χ}
    {result : LogicalProcess σ ε × Option (Nat × Message ε)}
    (hstage : s.stage ≠ .receiveMessages) (hok : sim.NoTie s (.work id seen))
    (hadv : sim.advance id (sim.grantedTime s id) seen (s.g_systems id) = some result) {r : Nat}
    (hone : 1 ≤ r) (hr : r ≤ sim.g_systemCount) (q : Nat) :
    ((moved s id result).m_mailbox r q).Pairwise Message.Precedes := by
  have hold := h.order r hone hr q
  cases hpost : result.2 with
  | none => simpa [Simulation.moved, post, hpost] using hold
  | some sent =>
      by_cases hqueue : r = sent.1 ∧ q = id
      · obtain ⟨rfl, rfl⟩ := hqueue
        obtain ⟨context, delay, event, next, hrun, hremote, hne, hm, -⟩ :=
          advance_sends hadv (show result.2 = some (sent.1, sent.2) from hpost)
        simp only [Simulation.moved, post, hpost, and_self, if_true]
        apply List.pairwise_append.mpr ⟨hold, List.pairwise_singleton _ _, ?_⟩
        intro a ha b hb hts
        cases List.mem_singleton.mp hb
        obtain ⟨-, hle, count, hlt, horigin⟩ := h.queued _ hone hr q a ha
        have hclock := (h.clock hstage _ hone hr q a ha).running (by simp [hrun])
        rw [hm] at hts ⊢
        have htie := tied_eq_nil hok.2.1 hrun (hremote ▸ hne) (hremote ▸ hone) (hremote ▸ hr) a
          (hremote ▸ ha) hts
        constructor
        · intro o o' ho ho' _ _
          rw [horigin] at ho
          cases ho
          cases ho'
          exact hlt
        · simp only [LogicalProcess.message] at htie ⊢
          omega
      · simpa [Simulation.moved, post, hpost, hqueue] using hold

theorem counters_moved {s : System σ ε} {id : Nat}
    {result : LogicalProcess σ ε × Option (Nat × Message ε)}
    (h : (s.g_systems id).Follows result.1) (i : Nat) :
    (s.g_systems i).sent ≤ ((moved s id result).g_systems i).sent ∧
      (s.g_systems i).m_uid ≤ ((moved s id result).g_systems i).m_uid := by
  by_cases heq : i = id
  · subst heq
    rw [moved_self]
    exact ⟨h.sent, h.uid⟩
  · rw [moved_of_ne s heq]
    exact ⟨le_rfl, le_rfl⟩

theorem own_moved {s : System σ ε} {id : Nat}
    {result : LogicalProcess σ ε × Option (Nat × Message ε)}
    (h : (s.g_systems id).Follows result.1) {i : Nat} {e : Event ε}
    (he : e ∈ ((moved s id result).g_systems i).schedule) :
    e ∈ (s.g_systems i).schedule ∨ e.origin = none := by
  by_cases heq : i = id
  · subst heq
    rw [moved_self] at he
    exact h.own e he
  · rw [moved_of_ne s heq] at he
    exact .inl he

theorem SendOrder.moved {s : System σ ε} (h : sim.SendOrder s) {id : Nat} {seen : χ}
    {result : LogicalProcess σ ε × Option (Nat × Message ε)} (hpart : sim.takesPart s id)
    (hstage : s.stage ≠ .receiveMessages) (hok : sim.NoTie s (.work id seen))
    (hadv : sim.advance id (sim.grantedTime s id) seen (s.g_systems id) = some result) :
    sim.SendOrder (moved s id result) := by
  have hid : id ≤ sim.g_systemCount := takesPart_le hpart
  have hfollows := advance_follows hadv hstage (h.steady id hid) hok.1
  have hcounters := counters_moved hfollows
  refine
    { staged := h.staged.moved hpart hstage hadv
      steady := ?steady
      ahead := ?ahead
      counted := ?counted
      later := ?later
      queued := ?queued
      order := fun r hone hr q => h.order_moved hstage hok hadv hone hr q
      clock := ?clock }
  case steady =>
    intro i hi
    by_cases heq : i = id
    · subst heq
      rw [moved_self]
      exact hfollows.steady
    · rw [moved_of_ne s heq]
      exact h.steady i hi
  case ahead =>
    intro i hi hrun
    by_cases heq : i = id
    · subst heq
      rw [moved_self] at hrun ⊢
      exact advance_ahead hadv (h.steady i hi).inOrder (h.ahead i hi) hrun
    · rw [moved_of_ne s heq] at hrun ⊢
      exact h.ahead i hi hrun
  case counted =>
    intro i hi e he o ho
    cases own_moved hfollows he with
    | inl hold => exact (h.counted i hi e hold o ho).trans_le (hcounters o.sender).1
    | inr hlocal => rw [hlocal] at ho; cases ho
  case later =>
    intro r hone hr q e he m hm
    cases own_moved hfollows he with
    | inr hlocal => exact .of_local (.inl hlocal)
    | inl hold =>
        cases mem_moved_mailbox hadv hm with
        | inl hm => exact h.later r hone hr q e hold m hm
        | inr hm =>
            intro o o' ho ho' hsender _
            rw [hm.2.origin] at ho'
            cases ho'
            have hcount := h.counted r hr e hold o ho
            rwa [hsender] at hcount
  case queued =>
    intro r hone hr q m hm
    obtain ⟨hsent, huid⟩ := hcounters q
    cases mem_moved_mailbox hadv hm with
    | inl hold =>
        obtain ⟨hsystem, hle, count, hlt, horigin⟩ := h.queued r hone hr q m hold
        exact ⟨hsystem, hle.trans huid, count, hlt.trans_le hsent, horigin⟩
    | inr hm =>
        obtain ⟨rfl, hstamped⟩ := hm
        refine ⟨hstamped.m_systemId, hstamped.m_uid.le.trans huid, _, ?_, hstamped.origin⟩
        rw [moved_self, hstamped.sent]
        exact Nat.lt_succ_self _
  case clock =>
    intro _ r hone hr q m hm
    by_cases hq : q = id
    · subst hq
      rw [moved_self]
      apply advance_from hadv
      cases mem_moved_mailbox hadv hm with
      | inl hold => exact h.clock hstage r hone hr q m hold
      | inr hm =>
          rw [hm.2.m_currentTs]
          exact h.ahead q hid hm.2.running
    · rw [moved_of_ne s hq]
      cases mem_moved_mailbox hadv hm with
      | inl hold => exact h.clock hstage r hone hr q m hold
      | inr hm => exact absurd hm.1 hq

theorem collect_steady {s : System σ ε} (h : sim.SendOrder s) {id : Nat}
    {lp : LogicalProcess σ ε} (hone : 1 ≤ id) (hid : id ≤ sim.g_systemCount)
    (hstage : s.stage = .receiveMessages)
    (huid : (s.g_systems id).m_uid + sim.insertions s id < 2 ^ 32)
    (hlp : sim.collect (s.m_mailbox id) (s.g_systems id) = some lp) :
    lp.Steady ∧ (s.g_systems id).m_uid ≤ lp.m_uid ∧ lp.sent = (s.g_systems id).sent ∧
      ∀ e ∈ lp.schedule, e ∈ (s.g_systems id).schedule ∨
        (s.g_systems id).cursor ≤ sim.g_systemCount ∧
          ∃ m ∈ s.m_mailbox id (s.g_systems id).cursor, e.origin = m.ev.origin := by
  have hold := h.steady id hid
  obtain ⟨-, ⟨hcursor, rfl⟩ | ⟨-, rfl⟩⟩ := collect_eq_some.mp hlp
  · rw [insertions, if_pos hstage] at huid
    generalize hq : (s.g_systems id).cursor = q at huid hcursor
    have hmem : ∀ m, m ∈ (sim.order.sort (s.m_mailbox id q)).reverse ↔ m ∈ s.m_mailbox id q :=
      fun m => List.mem_reverse.trans (sim.order.perm _).mem_iff
    have hlength : (sim.order.sort (s.m_mailbox id q)).reverse.length =
        (s.m_mailbox id q).length := by
      rw [List.length_reverse, (sim.order.perm _).length_eq]
    have hsorted := pairwise_drained sim.order
      (fun m hm => (h.queued id hone hid q m hm).1) (h.order id hone hid q)
    obtain ⟨hsteady, hnew⟩ := hold.drain (hlength ▸ huid) hsorted
      fun e he m hm => h.later id hone hid q e he m ((hmem m).mp hm)
    refine ⟨hsteady.of_eq rfl rfl rfl, ?_, by simp, ?_⟩
    · exact LogicalProcess.uid_le_drain (hlength ▸ huid)
    · intro e he
      refine (hnew e he).imp_right fun hqueue => ⟨hcursor, ?_⟩
      obtain ⟨m, hm, -, horigin⟩ := hqueue
      exact ⟨m, (hmem m).mp hm, horigin⟩
  · exact ⟨hold.of_eq rfl rfl rfl, le_rfl, rfl, fun e he => .inl he⟩

theorem SendOrder.drain {s : System σ ε} (h : sim.SendOrder s) {id : Nat}
    {lp : LogicalProcess σ ε} (hpart : sim.takesPart s id) (hstage : s.stage = .receiveMessages)
    (huid : (s.g_systems id).m_uid + sim.insertions s id < 2 ^ 32)
    (hlp : sim.collect (s.m_mailbox id) (s.g_systems id) = some lp) :
    sim.SendOrder (sim.drained s id lp) := by
  obtain ⟨hone, hid⟩ := (takesPart_receive hstage).mp hpart
  have hstaged := h.staged.drain hpart hstage hlp
  obtain ⟨hsteady, hle, hsent, hschedule⟩ := collect_steady h hone hid hstage huid hlp
  have hcount : ∀ i, ((sim.drained s id lp).g_systems i).sent = (s.g_systems i).sent := by
    intro i
    by_cases heq : i = id
    · subst heq
      rw [drained_self, hsent]
    · rw [drained_of_ne s heq]
  refine
    { staged := hstaged
      steady := ?steady
      ahead := fun i hi hrun => absurd (hstaged.idle_of_receive hstage i hi) hrun
      counted := ?counted
      later := ?later
      queued := ?queued
      order := ?order
      clock := fun hne => absurd hstage hne }
  case steady =>
    intro i hi
    by_cases heq : i = id
    · subst heq
      rw [drained_self]
      exact hsteady
    · rw [drained_of_ne s heq]
      exact h.steady i hi
  case counted =>
    intro i hi e he o ho
    rw [hcount]
    by_cases heq : i = id
    · subst heq
      rw [drained_self] at he
      cases hschedule e he with
      | inl hold => exact h.counted i hi e hold o ho
      | inr hqueue =>
          obtain ⟨-, m, hm, horigin⟩ := hqueue
          obtain ⟨-, -, count, hlt, hmessage⟩ := h.queued i hone hi _ m hm
          rw [horigin, hmessage] at ho
          cases ho
          exact hlt
    · rw [drained_of_ne s heq] at he
      exact h.counted i hi e he o ho
  case later =>
    intro r hr hrn q e he m hm
    by_cases heq : r = id
    · subst heq
      rw [drained_self] at he
      cases hschedule e he with
      | inl hold => exact h.later r hr hrn q e hold m (mem_drained hm)
      | inr hqueue =>
          -- the queue is empty now, and what came from it has another sender than the rest
          obtain ⟨hcursor, m', hm', horigin⟩ := hqueue
          obtain ⟨-, -, count, -, hmessage⟩ := h.queued r hr hrn _ m (mem_drained hm)
          obtain ⟨-, -, count', -, hmessage'⟩ := h.queued r hr hrn _ m' hm'
          intro o o' ho ho' hsender _
          rw [horigin, hmessage'] at ho
          rw [hmessage] at ho'
          cases ho
          cases ho'
          simp only at hsender
          subst hsender
          simp [Simulation.drained, hcursor] at hm
    · rw [drained_of_ne s heq] at he
      exact h.later r hr hrn q e he m (mem_drained hm)
  case queued =>
    intro r hr hrn q m hm
    obtain ⟨hsystem, hmle, hrest⟩ := h.queued r hr hrn q m (mem_drained hm)
    rw [hcount]
    refine ⟨hsystem, hmle.trans ?_, hrest⟩
    by_cases heq : q = id
    · subst heq
      rw [drained_self]
      exact hle
    · rw [drained_of_ne s heq]
  case order =>
    intro r hr hrn q
    simp only [Simulation.drained]
    split
    · exact List.Pairwise.nil
    · exact h.order r hr hrn q

theorem SendOrder.nextStage {s : System σ ε} (h : sim.SendOrder s) (hdone : sim.stageDone s) :
    sim.SendOrder (sim.nextStage s) := by
  have hstaged := h.staged.nextStage hdone
  have hidle := h.staged.idle hdone
  have hsame : ∀ i, ((sim.nextStage s).g_systems i).schedule = (s.g_systems i).schedule ∧
      ((sim.nextStage s).g_systems i).sent = (s.g_systems i).sent ∧
      ((sim.nextStage s).g_systems i).m_uid = (s.g_systems i).m_uid ∧
      ((sim.nextStage s).g_systems i).running = (s.g_systems i).running := by
    intro i
    rw [Simulation.nextStage]
    split <;> exact ⟨rfl, rfl, rfl, rfl⟩
  have hmailbox : (sim.nextStage s).m_mailbox = s.m_mailbox := by
    rw [Simulation.nextStage]
    split <;> rfl
  refine ⟨hstaged, ?_, ?_, ?_, ?_, ?_, ?_, ?_⟩
  · intro i hi
    refine (h.steady i hi).of_eq ?_ (hsame i).2.2.1 ?_ <;>
      (rw [Simulation.nextStage]; split <;> rfl)
  · intro i hi hrun
    rw [(hsame i).2.2.2] at hrun
    exact absurd (hidle i hi) hrun
  · intro i hi e he o ho
    rw [(hsame i).1] at he
    rw [(hsame o.sender).2.1]
    exact h.counted i hi e he o ho
  · intro r hr hrn q e he m hm
    rw [(hsame r).1] at he
    exact h.later r hr hrn q e he m (hmailbox ▸ hm)
  · intro r hr hrn q m hm
    rw [(hsame q).2.1, (hsame q).2.2.1]
    exact h.queued r hr hrn q m (hmailbox ▸ hm)
  · intro r hr hrn q
    rw [hmailbox]
    exact h.order r hr hrn q
  · intro hnext r hr hrn q m hm
    rw [hmailbox] at hm
    cases hstage : s.stage with
    | processEvents =>
        have hfrom := h.clock (by simp [hstage]) r hr hrn q m hm
        rw [Simulation.nextStage, hstage]
        exact ⟨hfrom.events, hfrom.running⟩
    | processPublic => simp [Simulation.nextStage, enter, hstage] at hnext
    | receiveMessages => simp [h.staged.empty hdone hstage hr hrn q] at hm

theorem SendOrder.step {s t : System σ ε} (h : sim.SendOrder s) {a : Move χ}
    (hok : sim.NoTie s a) (hstep : sim.step s a = some t) : sim.SendOrder t := by
  cases a with
  | work id seen =>
      obtain ⟨-, hpart, ⟨hstage, lp, hlp, rfl⟩ | ⟨hstage, result, hadv, rfl⟩⟩ :=
        work_eq_some.mp hstep
      · exact h.drain hpart hstage hok.1 hlp
      · exact h.moved hpart hstage hok hadv
  | barrier =>
      obtain ⟨-, hdone, rfl⟩ := barrier_eq_some.mp hstep
      exact h.nextStage hdone

theorem NoTie.noRace {s : System σ ε} : (a : Move χ) → sim.NoTie s a → sim.NoRace s a
  | .barrier, _ => trivial
  | .work _ _, h => h.2.2

/-- In a run without ties messages of one sender for one time are executed as they were sent. -/
theorem run_tieOrder (s t : System σ ε) (as : List (Move χ)) (hs : sim.Initial s)
    (hfiled : Filed s) (h : Run sim.step sim.NoTie s as t) :
    t.raced = false ∧
      ∀ id ≤ sim.g_systemCount, (t.g_systems id).executedEvents.Pairwise SentFirst := by
  have horder : sim.SendOrder t :=
    h.invariant (fun _ _ _ hinv hok hstep => SendOrder.step hinv hok hstep) (hs.sendOrder hfiled)
  have hrace : Run sim.step sim.NoRace s as t := h.mono fun _ => NoTie.noRace
  refine ⟨(raced_run h.any).mpr ⟨hs.raced, hrace⟩, fun id hid => ?_⟩
  exact (List.pairwise_append.mp (horder.steady id hid).sent).1

/-- Two messages that arrive together. -/
def sendTwice : Handler Unit Nat :=
  .scheduleWithContext 1 1 1 (.scheduleWithContext 1 1 2 (.done ()))

def twiceOverCable : Simulation Unit Nat Unit :=
  twoNodes (.pointToPoint 1 0 1) cable_nodes_lt sendTwice

theorem filed_fiveAndHundred (net : Network) : Filed (System.new net fiveAndHundred ()) where
  events := by
    intro id e he
    simp only [System.new, LogicalProcess.new, fiveAndHundred] at he ⊢
    split at he <;> simp_all [uidValid]
  messages := by
    intro r q m hm
    cases hm
  order := fun _ _ => .nil

/-- Two messages of one handler for one time are executed in the reverse order. -/
theorem not_run_tieOrder :
    ¬ ∀ (sim : Simulation Unit Nat Unit) (s t : System Unit Nat) (as : List (Move Unit)),
      sim.Initial s → Filed s → Run sim.step anyEvent s as t →
        ∀ id ≤ sim.g_systemCount, (t.g_systems id).executedEvents.Pairwise SentFirst := by
  intro hall
  obtain ⟨t, hrun, hlog⟩ := exists_run twiceOverCable.step anyEvent
    (fun t => (t.g_systems 2).executedEvents.map (fun e => (e.key.m_ts, e.origin)) =
      [(6, some ⟨1, 1⟩), (6, some ⟨1, 0⟩)])
    (System.new twiceOverCable.network fiveAndHundred ())
    (roundOf (turns 1 1) ++ roundOf (turns 5 1) ++ roundOf (turns 1 5)) (by decide +kernel)
  have hpair := hall twiceOverCable _ t _ (initial_new fiveAndHundred_inOrder ())
    (filed_fiveAndHundred _) hrun 2 le_rfl
  obtain ⟨a, l, hl, ha, hrest⟩ := List.map_eq_cons_iff.mp hlog
  obtain ⟨b, l', rfl, hb, -⟩ := List.map_eq_cons_iff.mp hrest
  rw [hl] at hpair
  have hfirst := (List.pairwise_cons.mp hpair).1 b List.mem_cons_self
  rw [Prod.mk.injEq] at ha hb
  have hcount := hfirst _ _ ha.2 hb.2 rfl (ha.1.trans hb.1.symm)
  exact absurd hcount (by decide)

/-- Two messages that arrive together, and an event that is scheduled between them. -/
def sendApart : Handler Unit Nat :=
  .scheduleWithContext 1 1 1 (.schedule 50 7 fun _ => .scheduleWithContext 1 1 2 (.done ()))

def apartOverCable : Simulation Unit Nat Unit :=
  twoNodes (.pointToPoint 1 0 1) cable_nodes_lt sendApart

theorem fiveAndHundred_tieOrder :
    ∃ t, Run apartOverCable.step apartOverCable.NoTie
        (System.new apartOverCable.network fiveAndHundred ())
        (roundOf (turns 1 1) ++ roundOf (turns 6 1) ++ roundOf (turns 1 5)) t ∧
      (t.g_systems 2).executedEvents.map (fun e => (e.key.m_ts, e.origin)) =
        [(6, some ⟨1, 0⟩), (6, some ⟨1, 1⟩)] ∧
      (t.g_systems 2).executedEvents.Pairwise SentFirst := by
  obtain ⟨t, hrun, hlog⟩ := exists_run apartOverCable.step apartOverCable.NoTie
    (fun t => (t.g_systems 2).executedEvents.map (fun e => (e.key.m_ts, e.origin)) =
      [(6, some ⟨1, 0⟩), (6, some ⟨1, 1⟩)])
    (System.new apartOverCable.network fiveAndHundred ())
    (roundOf (turns 1 1) ++ roundOf (turns 6 1) ++ roundOf (turns 1 5)) (by decide +kernel)
  refine ⟨t, hrun, hlog, ?_⟩
  exact (run_tieOrder _ t _ (initial_new fiveAndHundred_inOrder ()) (filed_fiveAndHundred _)
    hrun).2 2 le_rfl

end Simulation

end CollectiveSim.Mtp
