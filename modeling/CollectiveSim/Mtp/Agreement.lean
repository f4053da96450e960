import CollectiveSim.Mtp.DefaultSimulator
import CollectiveSim.Mtp.Mailboxes
import CollectiveSim.Mtp.Pending

/-!
# The multithreaded simulator does what the default one does

Both begin with the same events and states and run the same handlers. The default simulator takes
the events from one queue in the order of time; the multithreaded one takes them from the queues of
the processes, a window at a time, and lets messages wait in mailboxes. Where no process has two
events of one time, every process executes the same events in the same order in both.
-/

namespace CollectiveSim.Mtp

open Framework

variable {σ ε χ : Type}

namespace Network

/-- The process that the events of a context belong to. -/
def owner (net : Network) (context : Nat) : Nat :=
  if context = LogicalProcess.noContext then 0 else net.systemId context

end Network

namespace Simulation

variable (sim : Simulation σ ε χ)

/-- What the default simulator runs for an event. -/
def code (seen : χ) (id : Nat) (ev : Event ε) (state : σ) : Code σ ε :=
  (sim.handler seen id ev state).code

/-- An event in the one queue of the default simulator. -/
def owned (e : Event ε) : Occurrence Nat (Nat × ε) :=
  e.occurrence (sim.network.owner e.key.m_context)

/-- The two simulators are about to run the same events on the same states. -/
structure Matches (s : System σ ε) (d : DefaultSimulatorImpl σ ε) : Prop where
  sound : d.Sound
  kept : d.m_cancel = []
  proc : ∀ e ∈ d.m_events, sim.network.owner e.key.m_context ≤ sim.g_systemCount
  events : (d.m_events.map sim.owned : Multiset _) = sim.pending s
  state : ∀ id ≤ sim.g_systemCount, d.state id = (s.g_systems id).state
  fresh : ∀ id ≤ sim.g_systemCount, (s.g_systems id).Fresh
  unread : ∀ q, s.m_mailbox 0 q = []

/-- What the default simulator has handled behind its first `skip` events, of one process. -/
def handledBy (skip id : Nat) (d : DefaultSimulatorImpl σ ε) : List (Nat × Nat × ε) :=
  ((d.handled.drop skip).filter fun e => sim.network.owner e.key.m_context = id).map
    fun e => (e.key.m_ts, e.key.m_context, e.impl)

/-- The default simulator has come to `d` by handling the events of `L`. -/
structure Follows (seen : χ) (start : Nat → σ) (initial : Multiset (Occurrence Nat (Nat × ε)))
    (skip : Nat) (L : List (Occurrence Nat (Nat × ε))) (d : DefaultSimulatorImpl σ ε) : Prop where
  sound : d.Sound
  kept : d.m_cancel = []
  execution : (sim.reactive seen start initial).Execution L
  skipped : skip ≤ d.handled.length
  handled : (d.handled.drop skip).map sim.owned = L
  proc : ∀ e ∈ d.m_events, sim.network.owner e.key.m_context ≤ sim.g_systemCount
  state : ∀ id ≤ sim.g_systemCount,
    d.state id = (sim.reactive seen start initial).after (start id) (Reactive.own id L)
  account : ↑L + (↑(d.m_events.map sim.owned) : Multiset (Occurrence Nat (Nat × ε))) =
    (sim.reactive seen start initial).due L

variable {sim}

theorem owner_of_node (hobl : sim.Oblivious) {context : Nat}
    (h : context < sim.network.nodeCount) :
    sim.network.owner context = sim.network.systemId context := by
  have hle := hobl.nodeCount_le
  rw [Network.owner, if_neg (by omega)]

variable (sim) in
theorem owned_insert {d : DefaultSimulatorImpl σ ε} (h : d.Sound) (context delay : Nat)
    (event : ε) : ((d.insert context delay event).1.m_events.map sim.owned).Perm
      (⟨sim.network.owner context, d.m_currentTs + delay, context, event⟩ ::
        d.m_events.map sim.owned) :=
  (insertEvent_perm ⟨⟨d.m_currentTs + delay, d.m_uid, context⟩, event, none⟩
    fun e he => (h.fresh _ (h.waiting e he)).ne).map sim.owned

theorem proc_insert {d : DefaultSimulatorImpl σ ε}
    (h : ∀ e ∈ d.m_events, sim.network.owner e.key.m_context ≤ sim.g_systemCount) {context : Nat}
    (hcontext : sim.network.owner context ≤ sim.g_systemCount) (delay : Nat) (event : ε) :
    ∀ e ∈ (d.insert context delay event).1.m_events,
      sim.network.owner e.key.m_context ≤ sim.g_systemCount := by
  intro e he
  cases mem_insertEvent he with
  | inl heq => exact heq ▸ hcontext
  | inr hmem => exact h e hmem

/-- The code of a handler that looks at no key leaves the state of its outcome, and in the queue the
events of its outcome. -/
theorem perform_code (hobl : sim.Oblivious) {handler : Handler σ ε} {d : DefaultSimulatorImpl σ ε}
    (hblind : handler.Blind (· < sim.network.nodeCount)) (hsound : d.Sound)
    (hlegal : DefaultSimulatorImpl.Legal handler.code d)
    (hproc : ∀ e ∈ d.m_events, sim.network.owner e.key.m_context ≤ sim.g_systemCount)
    (hle : sim.network.owner d.m_currentContext ≤ sim.g_systemCount) :
    let result := d.perform handler.code
    let outcome := handler.outcome sim.network.systemId (sim.network.owner d.m_currentContext)
      d.m_currentTs d.m_currentContext
    result.2 = outcome.1 ∧
    (result.1.m_events.map sim.owned).Perm (outcome.2 ++ d.m_events.map sim.owned) ∧
    (∀ e ∈ result.1.m_events, sim.network.owner e.key.m_context ≤ sim.g_systemCount) ∧
    result.1.state = d.state ∧ result.1.m_cancel = d.m_cancel ∧ result.1.handled = d.handled := by
  induction handler generalizing d with
  | done state => exact ⟨rfl, .refl _, hproc, rfl, rfl, rfl⟩
  | schedule delay event next ih =>
      obtain ⟨hkey, hnext⟩ := hblind
      obtain ⟨hstate, hperm, hrest⟩ := ih _ (hnext _) (hsound.insert hlegal.1 _ delay event)
        hlegal.2 (proc_insert hproc hle delay event) hle
      have hout := congrArg (Handler.outcome sim.network.systemId
        (sim.network.owner d.m_currentContext) d.m_currentTs d.m_currentContext)
        (hkey (d.Schedule delay event).2 ⟨d.m_currentTs + delay, uidInvalid, d.m_currentContext⟩)
      have hfirst := congrArg Prod.fst hout
      have hsecond := congrArg Prod.snd hout
      refine ⟨hstate.trans hfirst, (hperm.trans (List.Perm.of_eq ?_)).trans
        (((owned_insert sim hsound _ delay event).append_left _).trans List.perm_middle), hrest⟩
      exact congrArg (· ++ _) hsecond
  | scheduleWithContext context delay event next ih =>
      have howner := owner_of_node hobl hblind.1
      have hcontext : sim.network.owner context ≤ sim.g_systemCount :=
        howner ▸ (hobl.placed context hblind.1).2
      obtain ⟨hstate, hperm, hrest⟩ := ih hblind.2 (hsound.insert hlegal.1 _ delay event)
        hlegal.2 (proc_insert hproc hcontext delay event) hle
      refine ⟨hstate, hperm.trans ?_, hrest⟩
      have hinsert := owned_insert sim hsound context delay event
      rw [howner] at hinsert
      exact (hinsert.append_left _).trans List.perm_middle
  | remove key next => exact hblind.elim

theorem step_outcome (hobl : sim.Oblivious) {seen : χ} {d t : DefaultSimulatorImpl σ ε}
    (hsound : d.Sound) (hkept : d.m_cancel = [])
    (hproc : ∀ e ∈ d.m_events, sim.network.owner e.key.m_context ≤ sim.g_systemCount) {u : Unit}
    (hok : DefaultSimulatorImpl.NextLegal (sim.code seen) sim.network.owner d u)
    (hstep : d.step (sim.code seen) sim.network.owner u = some t) :
    ∃ ev rest, d.m_events = ev :: rest ∧
      let id := sim.network.owner ev.key.m_context
      let result := sim.react seen (sim.owned ev) (d.state id)
      t.state = Function.update d.state id result.1 ∧
      (t.m_events.map sim.owned).Perm (result.2 ++ rest.map sim.owned) ∧
      (∀ e ∈ t.m_events, sim.network.owner e.key.m_context ≤ sim.g_systemCount) ∧
      t.m_cancel = [] ∧ t.handled = d.handled ++ [ev] := by
  rw [DefaultSimulatorImpl.step, DefaultSimulatorImpl.ProcessOneEvent] at hstep
  split at hstep
  · cases hstep
  · split at hstep
    · cases hstep
    · next ev rest hev =>
        cases hstep
        have hcancel : ev.key ∉ d.m_cancel := by simp [hkept]
        have hlegal := hok ev (by rw [hev]; rfl) hcancel
        rw [hev] at hlegal
        obtain ⟨hstate, hperm, hprocs, hkeep, hnone, hhandled⟩ :=
          perform_code hobl (hobl.blind seen _ ev _) (hsound.dequeue hev (if_neg hcancel).symm)
            hlegal (fun e he => hproc e (hev ▸ List.mem_cons_of_mem ev he))
            (hproc ev (hev ▸ List.mem_cons_self))
        have hreact : sim.react seen (sim.owned ev) (d.state (sim.network.owner ev.key.m_context)) =
            (sim.handler seen (sim.network.owner ev.key.m_context) ev
              (d.state (sim.network.owner ev.key.m_context))).outcome sim.network.systemId
              (sim.network.owner ev.key.m_context) ev.key.m_ts ev.key.m_context :=
          congrArg (Handler.outcome _ _ _ _) (hobl.same seen seen _ _ ev _ rfl rfl rfl)
        have hfirst := congrArg Prod.fst hreact
        have hsecond := congrArg Prod.snd hreact
        rw [DefaultSimulatorImpl.invoke_dequeue _ _ hcancel]
        refine ⟨ev, rest, hev, ?_, ?_, hprocs, hnone.trans hkept, hhandled⟩
        · exact congrArg₂ (fun f v => Function.update f _ v) hkeep (hstate.trans hfirst.symm)
        · exact hperm.trans (List.Perm.of_eq (congrArg (· ++ _) hsecond.symm))

section

variable {seen : χ} {start : Nat → σ} {initial : Multiset (Occurrence Nat (Nat × ε))} {skip : Nat}
  {L : List (Occurrence Nat (Nat × ε))} {d : DefaultSimulatorImpl σ ε}

theorem Follows.step (hobl : sim.Oblivious) (h : sim.Follows seen start initial skip L d) {u : Unit}
    (hok : DefaultSimulatorImpl.NextLegal (sim.code seen) sim.network.owner d u)
    {t : DefaultSimulatorImpl σ ε} (hstep : d.step (sim.code seen) sim.network.owner u = some t) :
    ∃ L', sim.Follows seen start initial skip L' t := by
  obtain ⟨ev, rest, hev, hstate, hperm, hprocs, hnone, hhandled⟩ :=
    step_outcome hobl h.sound h.kept h.proc hok hstep
  have hproc := h.proc ev (hev ▸ List.mem_cons_self)
  have hrange : (sim.owned ev).proc ∈ (sim.reactive seen start initial).procs :=
    Finset.mem_range.mpr (Nat.lt_succ_of_le hproc)
  have hat : (sim.reactive seen start initial).after
      ((sim.reactive seen start initial).start (sim.owned ev).proc)
      (Reactive.own (sim.owned ev).proc L) = d.state (sim.network.owner ev.key.m_context) :=
    (h.state _ hproc).symm
  have hdue := Reactive.due_append_singleton (sim.reactive seen start initial) (L := L) hrange
  rw [hat] at hdue
  have haccount := h.account
  rw [hev, List.map_cons, ← Multiset.cons_coe, ← Multiset.singleton_add, ← add_assoc] at haccount
  have hsplit : (↑(L ++ [sim.owned ev]) : Multiset (Occurrence Nat (Nat × ε))) =
      ↑L + {sim.owned ev} := (Multiset.coe_add L [sim.owned ev]).symm
  refine ⟨L ++ [sim.owned ev], h.sound.step hok hstep, hnone, .snoc h.execution hrange ?_, ?_, ?_,
    hprocs, ?_, ?_⟩
  · rw [← haccount, hsplit]
    exact Multiset.le_add_right _ _
  · rw [hhandled]
    exact h.skipped.trans (List.prefix_append d.handled [ev]).length_le
  · rw [hhandled, List.drop_append_of_le_length h.skipped, List.map_append, h.handled]
    rfl
  · intro i hi
    rw [Reactive.own_append, hstate]
    by_cases heq : i = (sim.owned ev).proc
    · subst heq
      rw [Reactive.own_singleton_self, Reactive.after_append_singleton]
      exact (Function.update_self ..).trans (congrArg (fun s => (sim.react seen _ s).1) hat.symm)
    · rw [Reactive.own_singleton_of_ne (Ne.symm heq), List.append_nil, ← h.state i hi]
      exact Function.update_of_ne heq ..
  · rw [hdue, ← haccount, hsplit, Multiset.coe_eq_coe.mpr hperm, ← Multiset.coe_add]
    exact congrArg (_ + ·) (add_comm _ _) |>.trans (add_assoc _ _ _).symm

theorem Follows.own_eq (h : sim.Follows seen start initial skip L d) (id : Nat) :
    Reactive.own id L = (sim.handledBy skip id d).map fun x => ⟨id, x.1, x.2.1, x.2.2⟩ := by
  rw [← h.handled, Reactive.own, List.filter_map, handledBy, List.map_map]
  apply List.map_congr_left
  intro e he
  have hid : (sim.owned e).proc = id := by simpa using (List.mem_filter.mp he).2
  subst hid
  rfl

theorem Follows.chronological (h : sim.Follows seen start initial skip L d) (id : Nat) :
    Chronological (Reactive.own id L) := by
  have hhandled : (d.handled.map sim.owned).Pairwise fun a b => a.time ≤ b.time := by
    refine List.pairwise_map.mpr (h.sound.ordered.imp ?_)
    intro a b hab
    simp only [EventKey.lt, owned, Event.occurrence] at hab ⊢
    omega
  rw [← h.handled, List.map_drop]
  exact (hhandled.sublist (List.drop_sublist ..)).sublist List.filter_sublist

theorem Follows.settled (h : sim.Follows seen start initial skip L d) {F : Nat}
    (hF : ∀ e ∈ d.m_events, F ≤ e.key.m_ts) : (sim.reactive seen start initial).Settled F L := by
  refine ⟨_, h.account, ?_⟩
  intro o ho
  obtain ⟨e, he, rfl⟩ := List.mem_map.mp (Multiset.mem_coe.mp ho)
  exact hF e he

theorem Matches.follows {s : System σ ε} (h : sim.Matches s d) (seen : χ) :
    sim.Follows seen (fun id => (s.g_systems id).state) (sim.pending s) d.handled.length [] d where
  sound := h.sound
  kept := h.kept
  execution := .nil
  skipped := le_rfl
  handled := by rw [List.drop_length]; rfl
  proc := h.proc
  state := h.state
  account := by simp [Reactive.due, Reactive.spawned, Reactive.own, reactive, h.events]

theorem Matches.tracks {s : System σ ε} (hs : sim.Initial s) (h : sim.Matches s d) (seen : χ) :
    sim.Tracks seen (fun id => (s.g_systems id).state) (sim.pending s) [] s where
  execution := .nil
  begun := fun id _ => by simp [LogicalProcess.begun, hs.log id, Reactive.own]
  state := fun id _ => by
    rw [LogicalProcess.settledState, hs.running id]
    rfl
  account := by simp [Reactive.due, Reactive.spawned, Reactive.own, reactive]
  fresh := h.fresh
  blind := fun id _ handler hrun => by simp [hs.running id] at hrun
  unread := h.unread
  chronological := fun id _ => by simp [LogicalProcess.begun, hs.log id, Chronological]

end

/-- What a causal system has still to do is for the smallest time or later. -/
theorem Causal.pending_time {s : System σ ε} (h : sim.Causal s) (hunread : ∀ q, s.m_mailbox 0 q = []) :
    ∀ o ∈ sim.pending s, s.g_smallestTime ≤ o.time := by
  intro o ho
  cases Multiset.mem_add.mp ho with
  | inl hqueue =>
      obtain ⟨id, hid, hmem⟩ := Multiset.mem_sum.mp hqueue
      have hid := Nat.le_of_lt_succ (Finset.mem_range.mp hid)
      have hlow := low_le_low h id
      have hbegins := (h.timely id hid).begins
      cases Multiset.mem_add.mp hmem with
      | inl hevent =>
          obtain ⟨e, he, rfl⟩ := List.mem_map.mp (Multiset.mem_coe.mp hevent)
          exact hlow.trans (hbegins.events e he)
      | inr hrest =>
          rw [LogicalProcess.rest] at hrest
          split at hrest
          · cases hrest
          · next handler hrun =>
              have htime := Handler.outcome_time handler o (Multiset.mem_coe.mp hrest)
              exact (hlow.trans (hbegins.running (by simp [hrun]))).trans htime
  | inr hmail =>
      obtain ⟨r, hr, hq⟩ := Multiset.mem_sum.mp hmail
      obtain ⟨q, -, hmem⟩ := Multiset.mem_sum.mp hq
      obtain ⟨m, hm, rfl⟩ := List.mem_map.mp (Multiset.mem_coe.mp hmem)
      have hr := Nat.le_of_lt_succ (Finset.mem_range.mp hr)
      cases r with
      | zero => simp [hunread q] at hm
      | succ r =>
          refine le_trans ?_ (h.messages (r + 1) (by omega) hr q m hm)
          exact le_min (Nat.le_add_right _ _) h.smallest_le

theorem begun_eq (id : Nat) (lp : LogicalProcess σ ε) :
    lp.begun id = lp.executed.map fun x => ⟨id, x.1, x.2.1, x.2.2⟩ := by
  rw [LogicalProcess.begun, LogicalProcess.executed, List.map_map]
  rfl

/-- Whatever both simulators have done before a time is the same. -/
theorem Tracks.agree {seen : χ} {start : Nat → σ} {initial : Multiset (Occurrence Nat (Nat × ε))}
    {X Y : List (Occurrence Nat (Nat × ε))} {s : System σ ε} {d : DefaultSimulatorImpl σ ε}
    {skip F : Nat} (hX : sim.Tracks seen start initial X s)
    (hY : sim.Follows seen start initial skip Y d) (hs : ∀ o ∈ sim.pending s, F ≤ o.time)
    (hd : ∀ e ∈ d.m_events, F ≤ e.key.m_ts)
    (htie : ∀ id ≤ sim.g_systemCount,
      (sim.handledBy skip id d).Pairwise fun a b => b.1 < F → a.1 < b.1) :
    ∀ id ≤ sim.g_systemCount,
      (Reactive.own id X).filter (fun o => o.time < F) =
        (Reactive.own id Y).filter fun o => o.time < F := by
  have hnone : ∀ {L : List (Occurrence Nat (Nat × ε))} (id : Nat),
      (sim.reactive seen start initial).Execution L → ¬ id ≤ sim.g_systemCount →
      Reactive.own id L = [] := by
    intro L id hL hid
    refine List.filter_eq_nil_iff.mpr fun o ho heq => hid ?_
    rw [← of_decide_eq_true heq]
    exact Nat.le_of_lt_succ (Finset.mem_range.mp (hL.proc_mem o ho))
  have hXs : ∀ id, Chronological (Reactive.own id X) := by
    intro id
    by_cases hid : id ≤ sim.g_systemCount
    · exact hX.begun id hid ▸ (hX.chronological id hid).1
    · exact hnone id hX.execution hid ▸ List.Pairwise.nil
  have hstrict : ∀ id, (Reactive.own id Y).Pairwise fun a b => b.time < F → a.time < b.time := by
    intro id
    by_cases hid : id ≤ sim.g_systemCount
    · rw [hY.own_eq id, List.pairwise_map]
      exact htie id hid
    · exact hnone id hY.execution hid ▸ List.Pairwise.nil
  exact fun id _ => hX.execution.agree hY.execution hXs hY.chronological ⟨_, hX.account, hs⟩
    (hY.settled hd) hstrict le_rfl id

theorem run_tracks (hobl : sim.Oblivious) (hlinks : sim.OverLinks)
    (hcut : sim.network.CutsPointToPoint) (seen : χ) {s t : System σ ε}
    {d : DefaultSimulatorImpl σ ε} {as : List (Move χ)} (hs : sim.Initial s)
    (hmatch : sim.Matches s d) (h : Run sim.step sim.NoWrap s as t) :
    sim.Causal t ∧
      ∃ L, sim.Tracks seen (fun id => (s.g_systems id).state) (sim.pending s) L t := by
  have hkeep : ∀ u a v,
      (sim.Causal u ∧
        ∃ L, sim.Tracks seen (fun id => (s.g_systems id).state) (sim.pending s) L u) →
      sim.NoWrap u a → sim.step u a = some v →
      sim.Causal v ∧
        ∃ L, sim.Tracks seen (fun id => (s.g_systems id).state) (sim.pending s) L v := by
    rintro u a v ⟨hcausal, L, htracks⟩ hok hstep
    exact ⟨hcausal.step hlinks hcut hstep, htracks.step hobl hcausal hok hstep⟩
  exact h.invariant hkeep ⟨hs.causal, [], hmatch.tracks hs seen⟩

theorem run_follows (hobl : sim.Oblivious) {seen : χ} {s : System σ ε}
    {d d' : DefaultSimulatorImpl σ ε} {bs : List Unit} (hmatch : sim.Matches s d)
    (h : Run (DefaultSimulatorImpl.step (sim.code seen) sim.network.owner)
      (DefaultSimulatorImpl.NextLegal (sim.code seen) sim.network.owner) d bs d') :
    ∃ L, sim.Follows seen (fun id => (s.g_systems id).state) (sim.pending s) d.handled.length L
      d' := by
  have hkeep : ∀ u a v,
      (∃ L, sim.Follows seen (fun id => (s.g_systems id).state) (sim.pending s) d.handled.length L
        u) →
      DefaultSimulatorImpl.NextLegal (sim.code seen) sim.network.owner u a →
      u.step (sim.code seen) sim.network.owner a = some v →
      ∃ L, sim.Follows seen (fun id => (s.g_systems id).state) (sim.pending s) d.handled.length L
        v := by
    rintro u a v ⟨L, hfollows⟩ hok hstep
    exact hfollows.step hobl hok hstep
  exact h.invariant hkeep ⟨[], hmatch.follows seen⟩

/-- However the worker threads pick and interleave the processes, at any point of the run no two of
them have raced for a mailbox, and every process has executed before the smallest time exactly what it
executes before this time under the default simulator, and in this order. -/
theorem run_agrees (hobl : sim.Oblivious) (hlinks : sim.OverLinks)
    (hcut : sim.network.CutsPointToPoint) (seen : χ) (s t : System σ ε)
    (d d' : DefaultSimulatorImpl σ ε) (as : List (Move χ)) (bs : List Unit) (hs : sim.Initial s)
    (hmatch : sim.Matches s d) (ht : Run sim.step sim.NoWrap s as t)
    (hd : Run (DefaultSimulatorImpl.step (sim.code seen) sim.network.owner)
      (DefaultSimulatorImpl.NextLegal (sim.code seen) sim.network.owner) d bs d')
    (F : Nat) (hF : F ≤ t.g_smallestTime) (hdF : ∀ e ∈ d'.m_events, F ≤ e.key.m_ts)
    (htie : ∀ id ≤ sim.g_systemCount,
      (sim.handledBy d.handled.length id d').Pairwise fun a b => b.1 < F → a.1 < b.1) :
    t.raced = false ∧
      ∀ id ≤ sim.g_systemCount, (t.g_systems id).executed.filter (fun x => x.1 < F) =
        (sim.handledBy d.handled.length id d').filter fun x => x.1 < F := by
  obtain ⟨hcausal, X, hX⟩ := run_tracks hobl hlinks hcut seen hs hmatch ht
  obtain ⟨Y, hY⟩ := run_follows hobl hmatch hd
  have hpending : ∀ o ∈ sim.pending t, F ≤ o.time :=
    fun o ho => hF.trans (hcausal.pending_time hX.unread o ho)
  refine ⟨run_defined hlinks hcut hobl.placed hs ht.any, fun id hid => ?_⟩
  have hagree := hX.agree hY hpending hdF htie id hid
  rw [hX.begun id hid, begun_eq, hY.own_eq id, List.filter_map, List.filter_map] at hagree
  refine List.map_injective_iff.mpr ?_ hagree
  rintro ⟨a, b, c⟩ ⟨a', b', c'⟩ heq
  cases heq
  rfl

theorem pending_of_finished {s t : System σ ε} (hs : s.g_globalFinished = false)
    (hcausal : sim.Causal s) (hunread : ∀ q, s.m_mailbox 0 q = []) {a : Move χ}
    (hstep : sim.step s a = some t) (ht : t.g_globalFinished = true) :
    sim.pending t = 0 ∧ ∀ id ≤ sim.g_systemCount, (t.g_systems id).running = none := by
  cases a with
  | work id seen =>
      obtain ⟨-, -, ⟨-, lp, -, rfl⟩ | ⟨-, result, -, rfl⟩⟩ := work_eq_some.mp hstep
      · exact absurd (hs.symm.trans ht) (by decide)
      · exact absurd (hs.symm.trans ht) (by decide)
  | barrier =>
      obtain ⟨-, hdone, rfl⟩ := barrier_eq_some.mp hstep
      cases hstage : s.stage with
      | processEvents => simp [nextStage, enter, hstage, hs] at ht
      | processPublic => simp [nextStage, enter, hstage, hs] at ht
      | receiveMessages =>
          simp only [nextStage, enter, hstage, globalFinished, List.all_eq_true, List.mem_range] at ht ⊢
          have hidle := hcausal.staged.idle hdone
          refine ⟨add_eq_zero.mpr ⟨Finset.sum_eq_zero fun id hid => ?_,
            Finset.sum_eq_zero fun r hr => Finset.sum_eq_zero fun q _ => ?_⟩, hidle⟩
          · have hlt := Finset.mem_range.mp hid
            have hevents : (restart s.g_systems id).m_events = [] := List.isEmpty_iff.mp (ht id hlt)
            have hrun : (restart s.g_systems id).running = none := hidle id (Nat.le_of_lt_succ hlt)
            rw [LogicalProcess.backlog, LogicalProcess.rest_of_idle hrun, hevents]
            rfl
          · have hr := Nat.le_of_lt_succ (Finset.mem_range.mp hr)
            have hempty : s.m_mailbox r q = [] := by
              cases r with
              | zero => exact hunread q
              | succ r => exact hcausal.staged.empty hdone hstage (by omega) hr q
            simp [mail, hempty]

theorem mailbox_of_pending {s : System σ ε} (h : sim.Staged s) (hpending : sim.pending s = 0) :
    ∀ r ≤ sim.g_systemCount, ∀ q, s.m_mailbox r q = [] := by
  intro r hr q
  by_cases hq : q ≤ sim.g_systemCount
  · have hmails := (add_eq_zero.mp hpending).2
    have hrow := Finset.sum_eq_zero_iff.mp hmails r (Finset.mem_range.mpr (Nat.lt_succ_of_le hr))
    have hmail := Finset.sum_eq_zero_iff.mp hrow q (Finset.mem_range.mpr (Nat.lt_succ_of_le hq))
    simpa [mail] using hmail
  · exact h.senders r q (Nat.lt_of_not_le hq)

theorem run_finished (hobl : sim.Oblivious) (hlinks : sim.OverLinks)
    (hcut : sim.network.CutsPointToPoint) (seen : χ) {s t : System σ ε}
    {d : DefaultSimulatorImpl σ ε} {as : List (Move χ)} (hs : sim.Initial s)
    (hmatch : sim.Matches s d) (hunfinished : s.g_globalFinished = false)
    (h : Run sim.step sim.NoWrap s as t) (htend : t.g_globalFinished = true) :
    sim.pending t = 0 ∧ ∀ id ≤ sim.g_systemCount, (t.g_systems id).running = none := by
  cases as using List.reverseRecOn with
  | nil =>
      cases h
      exact absurd (hunfinished.symm.trans htend) (by decide)
  | append_singleton as a =>
      obtain ⟨u, hfront, hlast⟩ := h.of_append
      obtain ⟨hcausal, L, htracks⟩ := run_tracks hobl hlinks hcut seen hs hmatch hfront
      cases hlast with
      | cons hok hstep hrest =>
          cases hrest
          refine pending_of_finished ?_ hcausal htracks.unread hstep htend
          cases a with
          | work id seen' => exact (work_eq_some.mp hstep).1
          | barrier => exact (barrier_eq_some.mp hstep).1

theorem filter_time_eq_self {α : Type} (l : List α) (time : α → Nat) :
    ∃ F₀, ∀ F, F₀ ≤ F → l.filter (fun a => time a < F) = l := by
  refine ⟨(l.map time).sum + 1, fun F hF => ?_⟩
  rw [List.filter_eq_self]
  intro a ha
  have hle := List.single_le_sum (fun n _ => Nat.zero_le n) _ (List.mem_map_of_mem (f := time) ha)
  simp only [decide_eq_true_eq]
  omega

/-- Where both simulators come to their ends, every process has executed the same events in the same
order and holds the same state, and no mailbox holds a message. -/
theorem run_agrees_ended (hobl : sim.Oblivious) (hlinks : sim.OverLinks)
    (hcut : sim.network.CutsPointToPoint) (seen : χ) (s t : System σ ε)
    (d d' : DefaultSimulatorImpl σ ε) (as : List (Move χ)) (bs : List Unit) (hs : sim.Initial s)
    (hmatch : sim.Matches s d) (hunfinished : s.g_globalFinished = false)
    (ht : Run sim.step sim.NoWrap s as t)
    (hd : Run (DefaultSimulatorImpl.step (sim.code seen) sim.network.owner)
      (DefaultSimulatorImpl.NextLegal (sim.code seen) sim.network.owner) d bs d')
    (htend : t.g_globalFinished = true) (hdend : d'.m_events = [])
    (htie : ∀ id ≤ sim.g_systemCount,
      (sim.handledBy d.handled.length id d').Pairwise fun a b => a.1 < b.1) :
    t.raced = false ∧ (∀ r ≤ sim.g_systemCount, ∀ q, t.m_mailbox r q = []) ∧
      ∀ id ≤ sim.g_systemCount,
        (t.g_systems id).executed = sim.handledBy d.handled.length id d' ∧
        (t.g_systems id).state = d'.state id := by
  obtain ⟨hpending, hidle⟩ := run_finished hobl hlinks hcut seen hs hmatch hunfinished ht htend
  obtain ⟨hcausal, X, hX⟩ := run_tracks hobl hlinks hcut seen hs hmatch ht
  obtain ⟨Y, hY⟩ := run_follows hobl hmatch hd
  refine ⟨run_defined hlinks hcut hobl.placed hs ht.any,
    mailbox_of_pending hcausal.staged hpending, fun id hid => ?_⟩
  have hsame : Reactive.own id X = Reactive.own id Y := by
    obtain ⟨F, hF⟩ := filter_time_eq_self (Reactive.own id X) Occurrence.time
    obtain ⟨G, hG⟩ := filter_time_eq_self (Reactive.own id Y) Occurrence.time
    have htie' : ∀ id ≤ sim.g_systemCount, (sim.handledBy d.handled.length id d').Pairwise
        fun a b => b.1 < max F G → a.1 < b.1 := by
      intro id hid
      refine (htie id hid).imp ?_
      intro a b hlt _
      exact hlt
    have hagree := hX.agree hY (by simp [hpending]) (by simp [hdend]) htie' id hid
    rwa [hF _ (Nat.le_max_left F G), hG _ (Nat.le_max_right F G)] at hagree
  constructor
  · rw [hX.begun id hid, begun_eq, hY.own_eq id] at hsame
    refine List.map_injective_iff.mpr ?_ hsame
    rintro ⟨a, b, c⟩ ⟨a', b', c'⟩ heq
    cases heq
    rfl
  · have hstate := hX.state id hid
    rw [LogicalProcess.settledState, hidle id hid, hsame, ← hY.state id hid] at hstate
    exact hstate

/-- The two events of `fiveAndHundred`, scheduled in the default simulator. -/
def fiveAndHundredSetup : Code Unit Nat :=
  .scheduleWithContext 0 5 0 (.scheduleWithContext 1 100 1 (.done ()))

def fiveAndHundredDefault : DefaultSimulatorImpl Unit Nat :=
  (DefaultSimulatorImpl.perform fiveAndHundredSetup (.new fun _ => ())).1

theorem overCable_oblivious : overCable.Oblivious where
  same := by
    intro _ _ id ev ev' _ _ _ himpl
    simp only [overCable, twoNodes, himpl]
  blind := by
    intro _ id ev _
    simp only [overCable, twoNodes]
    split
    · exact ⟨by decide, trivial⟩
    · trivial
  placed := by decide
  nodeCount_le := by decide

/-- The first two processes of `overCable`, before they run. -/
def overCableStart : System Unit Nat := .new overCable.network fiveAndHundred ()

theorem overCable_matches : overCable.Matches overCableStart fiveAndHundredDefault where
  sound := (DefaultSimulatorImpl.sound_new _).perform (by decide)
  kept := rfl
  proc := by decide
  events := by decide +kernel
  state := fun _ _ => rfl
  fresh := by
    intro id _ e he
    simp only [overCableStart, System.new, LogicalProcess.new, fiveAndHundred] at he ⊢
    split at he <;> simp_all [uidValid]
  unread := fun _ => rfl

theorem overCable_cuts : overCable.network.CutsPointToPoint := by
  intro delay devices hch
  cases List.mem_singleton.mp hch

theorem overCable_agrees :
    ∃ t d', Run overCable.step overCable.NoWrap overCableStart
        (roundOf (turns 1 1) ++ roundOf (turns 4 1) ++ roundOf (turns 1 3)) t ∧
      Run (DefaultSimulatorImpl.step (overCable.code ()) overCable.network.owner)
        (DefaultSimulatorImpl.NextLegal (overCable.code ()) overCable.network.owner)
        fiveAndHundredDefault [(), ()] d' ∧
      (t.g_systems 2).executed = [(6, 1, 1)] ∧ t.raced = false ∧
      ∀ id ≤ 2, (t.g_systems id).executed.filter (fun x => x.1 < 100) =
        (overCable.handledBy 0 id d').filter fun x => x.1 < 100 := by
  obtain ⟨t, ht, hlog, htime⟩ := exists_run overCable.step overCable.NoWrap
    (fun t => (t.g_systems 2).executed = [(6, 1, 1)] ∧ 100 ≤ t.g_smallestTime)
    overCableStart
    (roundOf (turns 1 1) ++ roundOf (turns 4 1) ++ roundOf (turns 1 3)) (by decide +kernel)
  obtain ⟨d', hd, hqueue, htie⟩ := exists_run
    (DefaultSimulatorImpl.step (overCable.code ()) overCable.network.owner)
    (DefaultSimulatorImpl.NextLegal (overCable.code ()) overCable.network.owner)
    (fun d' => (∀ e ∈ d'.m_events, 100 ≤ e.key.m_ts) ∧
      ∀ id < 3, (overCable.handledBy 0 id d').Pairwise fun a b => b.1 < 100 → a.1 < b.1)
    fiveAndHundredDefault [(), ()] (by decide +kernel)
  refine ⟨t, d', ht, hd, hlog, ?_⟩
  exact run_agrees overCable_oblivious (twoNodes_overLinks _ _ rfl (by decide) (by decide))
    overCable_cuts () _ t _ d' _ _ (initial_new fiveAndHundred_inOrder ()) overCable_matches ht hd
    100 htime hqueue fun id hid => htie id (Nat.lt_succ_of_le hid)

theorem overCable_agrees_ended :
    ∃ t d', Run overCable.step overCable.NoWrap overCableStart
        (roundOf (turns 1 1) ++ roundOf (turns 4 1) ++ roundOf (turns 1 3) ++ roundOf (turns 1 3)) t ∧
      Run (DefaultSimulatorImpl.step (overCable.code ()) overCable.network.owner)
        (DefaultSimulatorImpl.NextLegal (overCable.code ()) overCable.network.owner)
        fiveAndHundredDefault [(), (), ()] d' ∧
      (t.g_systems 2).executed = [(6, 1, 1), (100, 1, 1)] ∧ t.raced = false ∧
      (∀ r ≤ 2, ∀ q, t.m_mailbox r q = []) ∧
      ∀ id ≤ 2, (t.g_systems id).executed = overCable.handledBy 0 id d' ∧
        (t.g_systems id).state = d'.state id := by
  obtain ⟨t, ht, hlog, hend⟩ := exists_run overCable.step overCable.NoWrap
    (fun t => (t.g_systems 2).executed = [(6, 1, 1), (100, 1, 1)] ∧ t.g_globalFinished = true)
    overCableStart
    (roundOf (turns 1 1) ++ roundOf (turns 4 1) ++ roundOf (turns 1 3) ++ roundOf (turns 1 3))
    (by decide +kernel)
  obtain ⟨d', hd, hqueue, htie⟩ := exists_run
    (DefaultSimulatorImpl.step (overCable.code ()) overCable.network.owner)
    (DefaultSimulatorImpl.NextLegal (overCable.code ()) overCable.network.owner)
    (fun d' => d'.m_events = [] ∧
      ∀ id < 3, (overCable.handledBy 0 id d').Pairwise fun a b => a.1 < b.1)
    fiveAndHundredDefault [(), (), ()] (by decide +kernel)
  refine ⟨t, d', ht, hd, hlog, ?_⟩
  exact run_agrees_ended overCable_oblivious (twoNodes_overLinks _ _ rfl (by decide) (by decide))
    overCable_cuts () _ t _ d' _ _ (initial_new fiveAndHundred_inOrder ()) overCable_matches rfl ht hd
    hend hqueue fun id hid => htie id (Nat.lt_succ_of_le hid)

end Simulation

end CollectiveSim.Mtp
