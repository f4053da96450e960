import CollectiveSim.Framework.Run
import CollectiveSim.Mtp.LogicalProcess

/-!
# The default simulator

One queue, one clock and one thread: `Run` takes the next event and runs its code to the end, until
the queue is empty or the code has stopped it. The queue is that of the logical processes, and so is
the state of the nodes, which is kept by process.

`issued`, `handled` and `invoked` are not in the source: they record the keys that have been handed
out, the events that have been taken from the queue, and those of them that had not been cancelled.
-/

namespace CollectiveSim.Mtp

open Framework

/-- What is left of the code of an event. -/
inductive Code (σ ε : Type) where
  | done (state : σ)
  | schedule (delay : Nat) (event : ε) (next : EventKey → Code σ ε)
  | scheduleWithContext (context delay : Nat) (event : ε) (next : Code σ ε)
  | remove (id : EventKey) (next : Code σ ε)
  | cancel (id : EventKey) (next : Code σ ε)
  | isExpired (id : EventKey) (next : Bool → Code σ ε)
  | stop (next : Code σ ε)

/-- The code of a handler of the logical processes. -/
def Handler.code {σ ε : Type} : Handler σ ε → Code σ ε
  | .done state => .done state
  | .schedule delay event next => .schedule delay event fun key => (next key).code
  | .scheduleWithContext context delay event next =>
      .scheduleWithContext context delay event next.code
  | .remove id next => .remove id next.code

structure DefaultSimulatorImpl (σ ε : Type) where
  m_stop : Bool
  m_events : List (Event ε)
  m_uid : Nat
  m_currentUid : Nat
  m_currentTs : Nat
  m_currentContext : Nat
  m_eventCount : Nat
  m_unscheduledEvents : Int
  /-- The events whose `EventImpl` has been cancelled. -/
  m_cancel : List EventKey
  /-- What the nodes of each process hold. -/
  state : Nat → σ
  issued : List EventKey
  handled : List (Event ε)
  invoked : List (Event ε)

namespace DefaultSimulatorImpl

variable {σ ε : Type}

def new (state : Nat → σ) : DefaultSimulatorImpl σ ε :=
  ⟨false, [], uidValid, uidInvalid, 0, LogicalProcess.noContext, 0, 0, [], state, [], [], []⟩

/-- Insert an event under the next uid. -/
def insert (context delay : Nat) (event : ε) (s : DefaultSimulatorImpl σ ε) :
    DefaultSimulatorImpl σ ε × EventKey :=
  let key := ⟨s.m_currentTs + delay, s.m_uid, context⟩
  ({ s with
      m_uid := nextUid s.m_uid
      m_unscheduledEvents := s.m_unscheduledEvents + 1
      m_events := insertEvent ⟨key, event, none⟩ s.m_events
      issued := s.issued ++ [key] }, key)

def Schedule (delay : Nat) (event : ε) (s : DefaultSimulatorImpl σ ε) :
    DefaultSimulatorImpl σ ε × EventKey := s.insert s.m_currentContext delay event

def ScheduleWithContext (context delay : Nat) (event : ε) (s : DefaultSimulatorImpl σ ε) :
    DefaultSimulatorImpl σ ε := (s.insert context delay event).1

def IsExpired (id : EventKey) (s : DefaultSimulatorImpl σ ε) : Prop :=
  id.m_ts < s.m_currentTs ∨ (id.m_ts = s.m_currentTs ∧ id.m_uid ≤ s.m_currentUid) ∨ id ∈ s.m_cancel

instance (id : EventKey) (s : DefaultSimulatorImpl σ ε) : Decidable (s.IsExpired id) :=
  inferInstanceAs (Decidable (_ ∨ _))

def Remove (id : EventKey) (s : DefaultSimulatorImpl σ ε) : DefaultSimulatorImpl σ ε :=
  if s.IsExpired id then s
  else { s with
    m_events := s.m_events.filter fun e => e.key.m_ts ≠ id.m_ts ∨ e.key.m_uid ≠ id.m_uid
    m_cancel := id :: s.m_cancel
    m_unscheduledEvents := s.m_unscheduledEvents - 1 }

def Cancel (id : EventKey) (s : DefaultSimulatorImpl σ ε) : DefaultSimulatorImpl σ ε :=
  if s.IsExpired id then s else { s with m_cancel := id :: s.m_cancel }

def Stop (s : DefaultSimulatorImpl σ ε) : DefaultSimulatorImpl σ ε := { s with m_stop := true }

/-- The code runs to its end. -/
def perform : Code σ ε → DefaultSimulatorImpl σ ε → DefaultSimulatorImpl σ ε × σ
  | .done state, s => (s, state)
  | .schedule delay event next, s => perform (next (s.Schedule delay event).2) (s.Schedule delay event).1
  | .scheduleWithContext context delay event next, s =>
      perform next (s.ScheduleWithContext context delay event)
  | .remove id next, s => perform next (s.Remove id)
  | .cancel id next, s => perform next (s.Cancel id)
  | .isExpired id next, s => perform (next (s.IsExpired id)) s
  | .stop next, s => perform next s.Stop

/-- `RemoveNext` and what `ProcessOneEvent` writes before it invokes the event. -/
def dequeue (ev : Event ε) (rest : List (Event ε)) (s : DefaultSimulatorImpl σ ε) :
    DefaultSimulatorImpl σ ε :=
  { s with
    m_events := rest
    m_unscheduledEvents := s.m_unscheduledEvents - 1
    m_eventCount := s.m_eventCount + 1
    m_currentTs := ev.key.m_ts
    m_currentContext := ev.key.m_context
    m_currentUid := ev.key.m_uid
    handled := s.handled ++ [ev] }

/-- `EventImpl::Invoke`: a cancelled event does nothing. -/
def Invoke (code : Nat → Event ε → σ → Code σ ε) (owner : Nat → Nat) (ev : Event ε)
    (s : DefaultSimulatorImpl σ ε) : DefaultSimulatorImpl σ ε :=
  if ev.key ∈ s.m_cancel then s
  else
    let id := owner ev.key.m_context
    let (s, state) := perform (code id ev (s.state id)) { s with invoked := s.invoked ++ [ev] }
    { s with state := Function.update s.state id state }

def ProcessOneEvent (code : Nat → Event ε → σ → Code σ ε) (owner : Nat → Nat)
    (s : DefaultSimulatorImpl σ ε) : Option (DefaultSimulatorImpl σ ε) :=
  match s.m_events with
  | [] => none
  | ev :: rest => some ((s.dequeue ev rest).Invoke code owner ev)

/-- One turn of the loop of `Run`. -/
def step (code : Nat → Event ε → σ → Code σ ε) (owner : Nat → Nat)
    (s : DefaultSimulatorImpl σ ε) (_ : Unit) : Option (DefaultSimulatorImpl σ ε) :=
  if s.m_stop then none else s.ProcessOneEvent code owner

/-- The uid counter does not wrap around, and the code names only events whose keys it can have. -/
def Legal : Code σ ε → DefaultSimulatorImpl σ ε → Prop
  | .done _, _ => True
  | .schedule delay event next, s => s.m_uid + 1 < 2 ^ 32 ∧
      Legal (next (s.Schedule delay event).2) (s.Schedule delay event).1
  | .scheduleWithContext context delay event next, s => s.m_uid + 1 < 2 ^ 32 ∧
      Legal next (s.ScheduleWithContext context delay event)
  | .remove id next, s => id ∈ s.issued ∧ Legal next (s.Remove id)
  | .cancel id next, s => id ∈ s.issued ∧ Legal next (s.Cancel id)
  | .isExpired id next, s => id ∈ s.issued ∧ Legal (next (s.IsExpired id)) s
  | .stop next, s => Legal next s.Stop

instance decidableLegal : (c : Code σ ε) → (s : DefaultSimulatorImpl σ ε) → Decidable (Legal c s)
  | .done _, _ => isTrue trivial
  | .schedule _ _ _, _ => @instDecidableAnd _ _ _ (decidableLegal _ _)
  | .scheduleWithContext _ _ _ _, _ => @instDecidableAnd _ _ _ (decidableLegal _ _)
  | .remove _ _, _ => @instDecidableAnd _ _ _ (decidableLegal _ _)
  | .cancel _ _, _ => @instDecidableAnd _ _ _ (decidableLegal _ _)
  | .isExpired _ _, _ => @instDecidableAnd _ _ _ (decidableLegal _ _)
  | .stop next, s => decidableLegal next s.Stop

/-- What the next event does is legal. -/
def NextLegal (code : Nat → Event ε → σ → Code σ ε) (owner : Nat → Nat)
    (s : DefaultSimulatorImpl σ ε) (_ : Unit) : Prop :=
  ∀ ev ∈ s.m_events.head?, ev.key ∉ s.m_cancel →
    Legal (code (owner ev.key.m_context) ev (s.state (owner ev.key.m_context)))
      { s.dequeue ev s.m_events.tail with invoked := s.invoked ++ [ev] }

instance (code : Nat → Event ε → σ → Code σ ε) (owner : Nat → Nat)
    (s : DefaultSimulatorImpl σ ε) (u : Unit) : Decidable (NextLegal code owner s u) :=
  inferInstanceAs (Decidable (∀ ev ∈ s.m_events.head?, _))

theorem invoke_dequeue (code : Nat → Event ε → σ → Code σ ε) (owner : Nat → Nat) {ev : Event ε}
    {s : DefaultSimulatorImpl σ ε} (h : ev.key ∉ s.m_cancel) (rest : List (Event ε)) :
    (s.dequeue ev rest).Invoke code owner ev =
      let id := owner ev.key.m_context
      let result := perform (code id ev (s.state id))
        { s.dequeue ev rest with invoked := s.invoked ++ [ev] }
      { result.1 with state := Function.update result.1.state id result.2 } := if_neg h

/-- The key of the event under way. -/
def now (s : DefaultSimulatorImpl σ ε) : EventKey :=
  ⟨s.m_currentTs, s.m_currentUid, s.m_currentContext⟩

/-- What holds between any two calls. -/
structure Sound (s : DefaultSimulatorImpl σ ε) : Prop where
  inOrder : InOrder s.m_events
  ahead : ∀ e ∈ s.m_events, s.now.lt e.key
  behind : ∀ e ∈ s.handled, ¬ s.now.lt e.key
  ordered : s.handled.Pairwise fun a b => a.key.lt b.key
  uid : s.m_currentUid < s.m_uid
  fresh : ∀ id ∈ s.issued, id.m_uid < s.m_uid
  unique : ∀ a ∈ s.issued, ∀ b ∈ s.issued, a.m_uid = b.m_uid → a = b
  waiting : ∀ e ∈ s.m_events, e.key ∈ s.issued
  past : ∀ e ∈ s.handled, e.key ∈ s.issued
  known : ∀ id ∈ s.issued,
    id ∈ s.m_events.map Event.key ∨ id ∈ s.handled.map Event.key ∨ id ∈ s.m_cancel
  cancelled : ∀ id ∈ s.m_cancel, id ∈ s.issued
  invoked : s.invoked = s.handled.filter fun e => e.key ∉ s.m_cancel
  unscheduled : s.m_unscheduledEvents = s.m_events.length
  counted : s.m_eventCount = s.handled.length

theorem length_remove {es : List (Event ε)} (h : InOrder es) {id : EventKey}
    (hid : id ∈ es.map Event.key) :
    (es.filter fun e => e.key.m_ts ≠ id.m_ts ∨ e.key.m_uid ≠ id.m_uid).length + 1 = es.length := by
  induction es with
  | nil => cases hid
  | cons x xs ih =>
      obtain ⟨hx, hxs⟩ := List.pairwise_cons.mp h
      rw [List.map_cons, List.mem_cons] at hid
      by_cases heq : id = x.key
      · have hkeep : xs.filter (fun e => e.key.m_ts ≠ id.m_ts ∨ e.key.m_uid ≠ id.m_uid) = xs := by
          rw [List.filter_eq_self]
          intro e he
          have hlt := hx e he
          simp only [EventKey.lt] at hlt
          simp only [heq, decide_eq_true_eq]
          omega
        rw [List.filter_cons_of_neg (by simp [heq]), hkeep, List.length_cons]
      · have hmem := hid.resolve_left heq
        have hlt : x.key.lt id := by
          obtain ⟨e, he, rfl⟩ := List.mem_map.mp hmem
          exact hx e he
        simp only [EventKey.lt] at hlt
        rw [List.filter_cons_of_pos (by simp only [decide_eq_true_eq]; omega), List.length_cons,
          ih hxs hmem, List.length_cons]

theorem sound_new (state : Nat → σ) : (new state : DefaultSimulatorImpl σ ε).Sound := by
  constructor <;> simp [new, InOrder, uidInvalid, uidValid]

namespace Sound

variable {s : DefaultSimulatorImpl σ ε} (h : s.Sound)
include h

theorem insert (huid : s.m_uid + 1 < 2 ^ 32) (context delay : Nat) (event : ε) :
    (s.insert context delay event).1.Sound := by
  have hperm := insertEvent_perm ⟨⟨s.m_currentTs + delay, s.m_uid, context⟩, event, none⟩
    fun e he => (h.fresh _ (h.waiting e he)).ne
  have hnext : nextUid s.m_uid = s.m_uid + 1 := Nat.mod_eq_of_lt huid
  have huid' := h.uid
  refine ⟨h.inOrder.insertEvent _, ?_, h.behind, h.ordered, ?_, ?_, ?_, ?_, ?_, ?_, ?_, h.invoked,
    ?_, h.counted⟩
  · intro e he
    cases List.mem_cons.mp (hperm.mem_iff.mp he) with
    | inl heq =>
        simp only [heq, EventKey.lt, now, DefaultSimulatorImpl.insert]
        omega
    | inr hold => exact h.ahead e hold
  · change s.m_currentUid < nextUid s.m_uid
    omega
  · intro id hid
    simp only [DefaultSimulatorImpl.insert, List.mem_append, List.mem_singleton, hnext] at hid ⊢
    cases hid with
    | inl hold => exact (h.fresh id hold).trans (Nat.lt_succ_self _)
    | inr hnew => exact hnew ▸ Nat.lt_succ_self _
  · intro a ha b hb hab
    simp only [DefaultSimulatorImpl.insert, List.mem_append, List.mem_singleton] at ha hb
    obtain ha | rfl := ha <;> obtain hb | rfl := hb
    · exact h.unique a ha b hb hab
    · exact absurd hab (h.fresh a ha).ne
    · exact absurd hab.symm (h.fresh b hb).ne
    · rfl
  · intro e he
    cases List.mem_cons.mp (hperm.mem_iff.mp he) with
    | inl heq => exact heq ▸ List.mem_append_right _ (List.mem_singleton_self _)
    | inr hold => exact List.mem_append_left _ (h.waiting e hold)
  · exact fun e he => List.mem_append_left _ (h.past e he)
  · intro id hid
    have hmem : id ∈ (s.insert context delay event).1.m_events.map Event.key ↔
        id = ⟨s.m_currentTs + delay, s.m_uid, context⟩ ∨ id ∈ s.m_events.map Event.key := by
      exact (hperm.map Event.key).mem_iff.trans (by simp)
    rw [hmem]
    simp only [DefaultSimulatorImpl.insert, List.mem_append, List.mem_singleton] at hid
    cases hid with
    | inl hold => exact (h.known id hold).imp_left .inr
    | inr hnew => exact .inl (.inl hnew)
  · exact fun id hid => List.mem_append_left _ (h.cancelled id hid)
  · have hlen := hperm.length_eq
    simp only [DefaultSimulatorImpl.insert, h.unscheduled, hlen, List.length_cons]
    omega

theorem mem_of_not_isExpired {id : EventKey} (hid : id ∈ s.issued) (hexp : ¬ s.IsExpired id) :
    id ∈ s.m_events.map Event.key ∧ id ∉ s.handled.map Event.key := by
  simp only [IsExpired, not_or] at hexp
  have hpast : id ∉ s.handled.map Event.key := by
    rw [List.mem_map]
    rintro ⟨e, he, rfl⟩
    have hbehind := h.behind e he
    simp only [EventKey.lt, now] at hbehind
    omega
  exact ⟨(h.known id hid).resolve_right (not_or.mpr ⟨hpast, hexp.2.2⟩), hpast⟩

theorem cancel {id : EventKey} (hid : id ∈ s.issued) : (s.Cancel id).Sound := by
  rw [Cancel]
  split
  · exact h
  · next hexp =>
      obtain ⟨-, hpast⟩ := h.mem_of_not_isExpired hid hexp
      refine ⟨h.inOrder, h.ahead, h.behind, h.ordered, h.uid, h.fresh, h.unique, h.waiting, h.past,
        ?_, ?_, ?_, h.unscheduled, h.counted⟩
      · exact fun a ha => (h.known a ha).imp_right (Or.imp_right (List.mem_cons_of_mem id))
      · exact List.forall_mem_cons.mpr ⟨hid, h.cancelled⟩
      · rw [h.invoked]
        apply List.filter_congr
        intro e he
        have hne : e.key ≠ id := fun heq => hpast (heq ▸ List.mem_map_of_mem he)
        simp [hne]

theorem remove {id : EventKey} (hid : id ∈ s.issued) : (s.Remove id).Sound := by
  rw [Remove]
  split
  · exact h
  · next hexp =>
      obtain ⟨hwait, hpast⟩ := h.mem_of_not_isExpired hid hexp
      have hsub : (s.m_events.filter fun e =>
          e.key.m_ts ≠ id.m_ts ∨ e.key.m_uid ≠ id.m_uid).Sublist s.m_events := List.filter_sublist
      refine ⟨h.inOrder.filter _, fun e he => h.ahead e (hsub.subset he), h.behind, h.ordered, h.uid,
        h.fresh, h.unique, fun e he => h.waiting e (hsub.subset he), h.past, ?_, ?_, ?_, ?_,
        h.counted⟩
      · intro a ha
        obtain hqueue | hdone | hcancel := h.known a ha
        · obtain ⟨e, he, rfl⟩ := List.mem_map.mp hqueue
          by_cases heq : e.key = id
          · exact .inr (.inr (heq ▸ List.mem_cons_self))
          · refine .inl (List.mem_map_of_mem (List.mem_filter.mpr ⟨he, ?_⟩))
            have hne : e.key.m_uid ≠ id.m_uid := fun huid => heq (h.unique _ ha _ hid huid)
            simp [hne]
        · exact .inr (.inl hdone)
        · exact .inr (.inr (List.mem_cons_of_mem id hcancel))
      · exact List.forall_mem_cons.mpr ⟨hid, h.cancelled⟩
      · rw [h.invoked]
        apply List.filter_congr
        intro e he
        have hne : e.key ≠ id := fun heq => hpast (heq ▸ List.mem_map_of_mem he)
        simp [hne]
      · have hlen := length_remove h.inOrder hwait
        simp only [h.unscheduled]
        omega

theorem dequeue {ev : Event ε} {rest : List (Event ε)} (hev : s.m_events = ev :: rest)
    {invoked : List (Event ε)}
    (hinvoked : invoked = if ev.key ∈ s.m_cancel then s.invoked else s.invoked ++ [ev]) :
    Sound { s.dequeue ev rest with invoked } := by
  have horder : InOrder (ev :: rest) := hev ▸ h.inOrder
  have hahead : s.now.lt ev.key := h.ahead ev (hev ▸ List.mem_cons_self)
  have hissued : ev.key ∈ s.issued := h.waiting ev (hev ▸ List.mem_cons_self)
  have hpast : ∀ e ∈ s.handled, e.key.lt ev.key := by
    intro e he
    have hbehind := h.behind e he
    simp only [EventKey.lt] at *
    omega
  have hsub : ∀ e ∈ rest, e ∈ s.m_events := fun e he => hev ▸ List.mem_cons_of_mem ev he
  refine ⟨(List.pairwise_cons.mp horder).2, (List.pairwise_cons.mp horder).1, ?_, ?_,
    h.fresh _ hissued, h.fresh, h.unique, fun e he => h.waiting e (hsub e he), ?_, ?_, h.cancelled,
    ?_, ?_, ?_⟩
  · intro e he
    cases List.mem_append.mp he with
    | inl hold =>
        have hlt := hpast e hold
        simp only [EventKey.lt, now, DefaultSimulatorImpl.dequeue] at *
        omega
    | inr hnew =>
        rw [List.mem_singleton.mp hnew]
        simp [EventKey.lt, now, DefaultSimulatorImpl.dequeue]
  · refine List.pairwise_append.mpr ⟨h.ordered, List.pairwise_singleton _ ev, ?_⟩
    intro a ha b hb
    exact List.mem_singleton.mp hb ▸ hpast a ha
  · intro e he
    cases List.mem_append.mp he with
    | inl hold => exact h.past e hold
    | inr hnew => exact List.mem_singleton.mp hnew ▸ hissued
  · intro id hid
    have hknown := h.known id hid
    simp only [DefaultSimulatorImpl.dequeue, hev, List.map_append, List.map_cons, List.mem_append,
      List.mem_cons] at hknown ⊢
    tauto
  · rw [hinvoked, DefaultSimulatorImpl.dequeue, List.filter_append, ← h.invoked]
    split <;> simp [*]
  · simp only [DefaultSimulatorImpl.dequeue, h.unscheduled, hev, List.length_cons]
    omega
  · simp only [DefaultSimulatorImpl.dequeue, h.counted, List.length_append, List.length_singleton]

theorem perform {c : Code σ ε} (hlegal : Legal c s) : (perform c s).1.Sound := by
  induction c generalizing s with
  | done state => exact h
  | schedule delay event next ih => exact ih _ (h.insert hlegal.1 _ _ _) hlegal.2
  | scheduleWithContext context delay event next ih => exact ih (h.insert hlegal.1 _ _ _) hlegal.2
  | remove id next ih => exact ih (h.remove hlegal.1) hlegal.2
  | cancel id next ih => exact ih (h.cancel hlegal.1) hlegal.2
  | isExpired id next ih => exact ih _ h hlegal.2
  | stop next ih => exact ih { h with } hlegal

theorem step {code : Nat → Event ε → σ → Code σ ε} {owner : Nat → Nat}
    {t : DefaultSimulatorImpl σ ε} {u : Unit} (hok : NextLegal code owner s u)
    (hstep : s.step code owner u = some t) : t.Sound := by
  rw [DefaultSimulatorImpl.step] at hstep
  split at hstep
  · cases hstep
  · rw [ProcessOneEvent] at hstep
    split at hstep
    · cases hstep
    · next ev rest hev =>
        cases hstep
        by_cases hcancel : ev.key ∈ s.m_cancel
        · rw [Invoke, if_pos (show ev.key ∈ (s.dequeue ev rest).m_cancel from hcancel)]
          exact h.dequeue hev (if_pos hcancel).symm
        · have hlegal := hok ev (by rw [hev]; rfl) hcancel
          rw [hev] at hlegal
          rw [invoke_dequeue code owner hcancel]
          exact { (h.dequeue hev (if_neg hcancel).symm).perform hlegal with }

theorem isExpired_iff {id : EventKey} (hid : id ∈ s.issued) :
    s.IsExpired id ↔ id ∈ s.handled.map Event.key ∨ id ∈ s.m_cancel := by
  constructor
  · intro hexp
    by_contra hnot
    obtain ⟨hpast, hcancel⟩ := not_or.mp hnot
    have hwait : id ∈ s.m_events.map Event.key :=
      (h.known id hid).resolve_right (not_or.mpr ⟨hpast, hcancel⟩)
    obtain ⟨e, he, rfl⟩ := List.mem_map.mp hwait
    have hahead := h.ahead e he
    simp only [EventKey.lt, now] at hahead
    obtain hlt | ⟨heq, hle⟩ | hmem := hexp
    · omega
    · omega
    · exact hcancel hmem
  · intro hor
    by_contra hexp
    obtain ⟨-, hpast⟩ := h.mem_of_not_isExpired hid hexp
    exact hexp (.inr (.inr (hor.resolve_left hpast)))

theorem mem_invoked_iff {id : EventKey} :
    id ∈ s.invoked.map Event.key ↔ id ∈ s.handled.map Event.key ∧ id ∉ s.m_cancel := by
  rw [h.invoked]
  simp only [List.mem_map, List.mem_filter, decide_eq_true_eq]
  constructor
  · rintro ⟨e, ⟨he, hcancel⟩, rfl⟩
    exact ⟨⟨e, he, rfl⟩, hcancel⟩
  · rintro ⟨⟨e, he, rfl⟩, hcancel⟩
    exact ⟨e, ⟨he, hcancel⟩, rfl⟩

end Sound

/-- However the code of the events schedules, cancels, removes and asks, the events are taken from
the queue each once and in the order of time and uid; an event has expired if it was invoked or
cancelled, never both, and one that has not still waits; and the counters count what they say. -/
theorem run_lifecycle (code : Nat → Event ε → σ → Code σ ε) (owner : Nat → Nat) (setup : Code σ ε)
    (state : Nat → σ) (hsetup : Legal setup (new state)) (as : List Unit)
    (t : DefaultSimulatorImpl σ ε)
    (h : Run (step code owner) (NextLegal code owner) (perform setup (new state)).1 as t) :
    t.handled.Pairwise (fun a b => a.key.lt b.key) ∧ t.invoked.Sublist t.handled ∧
    (∀ id ∈ t.issued,
      (t.IsExpired id ↔ id ∈ t.invoked.map Event.key ∨ id ∈ t.m_cancel) ∧
      ¬ (id ∈ t.invoked.map Event.key ∧ id ∈ t.m_cancel) ∧
      (¬ t.IsExpired id → id ∈ t.m_events.map Event.key)) ∧
    t.m_unscheduledEvents = t.m_events.length ∧ t.m_eventCount = t.handled.length := by
  have hsound : t.Sound :=
    h.invariant (fun _ _ _ hinv hok hstep => Sound.step hinv hok hstep)
      ((sound_new state).perform hsetup)
  refine ⟨hsound.ordered, hsound.invoked ▸ List.filter_sublist, ?_, hsound.unscheduled,
    hsound.counted⟩
  intro id hid
  refine ⟨?_, ?_, fun hexp => (hsound.mem_of_not_isExpired hid hexp).1⟩
  · rw [hsound.isExpired_iff hid, hsound.mem_invoked_iff]
    tauto
  · rw [hsound.mem_invoked_iff]
    tauto

/-- The first event schedules another one and cancels it, and the last one is not reached. -/
def cancelOnce : Nat → Event Nat → Unit → Code Unit Nat := fun _ ev _ =>
  if ev.impl = 0 then .schedule 1 2 fun id => .cancel id (.done ()) else .stop (.done ())

def threeEvents : Code Unit Nat :=
  .schedule 5 0 fun _ => .scheduleWithContext 1 7 1 (.schedule 9 3 fun _ => .done ())

theorem cancelOnce_lifecycle :
    ∃ t, Run (step cancelOnce fun _ => 1) (NextLegal cancelOnce fun _ => 1)
        (perform threeEvents (new fun _ => ())).1 [(), (), ()] t ∧
      t.handled.map Event.impl = [0, 2, 1] ∧ t.invoked.map Event.impl = [0, 1] ∧
      t.handled.Pairwise fun a b => a.key.lt b.key := by
  obtain ⟨t, hrun, hhandled, hinvoked⟩ := exists_run (step cancelOnce fun _ => 1)
    (NextLegal cancelOnce fun _ => 1)
    (fun t => t.handled.map Event.impl = [0, 2, 1] ∧ t.invoked.map Event.impl = [0, 1])
    (perform threeEvents (new fun _ => ())).1 [(), (), ()] (by decide +kernel)
  refine ⟨t, hrun, hhandled, hinvoked, ?_⟩
  exact (run_lifecycle cancelOnce (fun _ => 1) threeEvents (fun _ => ()) (by decide) _ t hrun).1

end DefaultSimulatorImpl

end CollectiveSim.Mtp
