import CollectiveSim.Framework.Lowering
import CollectiveSim.Mtp.Stages

/-!
# Events in the past

A round lets a process run to the global smallest time plus its own lookahead, and never past the
next public event. What reaches it later in the round was sent at the smallest time or later, over
a link whose delay the receiver itself has taken into its lookahead, or by the public process.
-/

namespace CollectiveSim.Mtp

open Framework

variable {σ ε χ : Type}

namespace Network

variable (net : Network)

theorem nodeLookAhead_le (m_systemId node lookAhead : Nat) :
    net.nodeLookAhead m_systemId node lookAhead ≤ lookAhead := by
  apply foldl_le
  intro look d
  split_ifs <;> omega

variable {net}

theorem nodeLookAhead_le_delay {m_systemId node : Nat} {d : NetDevice} (hd : d ∈ net.devices node)
    (hp : d.IsPointToPoint = true) (hremote : net.systemId d.remoteNode ≠ m_systemId)
    (lookAhead : Nat) : net.nodeLookAhead m_systemId node lookAhead ≤ d.channel.delay := by
  apply foldl_le_of_mem _ hd
  · intro look
    simp only [hp, hremote, Bool.not_true, Bool.false_eq_true, if_false]
    split_ifs <;> omega
  · intro look d
    split_ifs <;> omega

theorem CalculateLookAhead_le_delay {m_systemId node : Nat} {d : NetDevice}
    (hnode : node < net.nodeCount) (hsystem : net.systemId node = m_systemId)
    (hd : d ∈ net.devices node) (hp : d.IsPointToPoint = true)
    (hremote : net.systemId d.remoteNode ≠ m_systemId) :
    net.CalculateLookAhead m_systemId ≤ d.channel.delay := by
  rw [CalculateLookAhead]
  split
  · exact Nat.zero_le _
  · apply foldl_le_of_mem _ (List.mem_range.mpr hnode)
    · intro look
      rw [if_neg (not_not.mpr hsystem)]
      exact nodeLookAhead_le_delay hd hp hremote look
    · intro look x
      split
      · exact le_rfl
      · exact net.nodeLookAhead_le m_systemId x look

theorem CalculateLookAhead_le (m_systemId : Nat) :
    net.CalculateLookAhead m_systemId ≤ timeMax / 2 - 1 := by
  rw [CalculateLookAhead]
  split
  · exact Nat.zero_le _
  · apply foldl_le
    intro look node
    split
    · exact le_rfl
    · exact net.nodeLookAhead_le m_systemId node look

theorem mem_devices {ch : Channel} (hch : ch ∈ net.channels) {node index : Nat}
    (h : ch.nodes[index]? = some node) : (⟨ch, index⟩ : NetDevice) ∈ net.devices node := by
  refine List.mem_flatMap.mpr ⟨ch, hch, List.mem_map.mpr ⟨(node, index), ?_, rfl⟩⟩
  refine List.mem_filter.mpr ⟨List.mem_zipIdx_iff_getElem?.mpr h, ?_⟩
  simp

variable (net)

/-- A link joins a node of the process to the node of the context and takes `delay` at most. -/
def Joins (m_systemId context delay : Nat) : Prop :=
  ∃ ch ∈ net.channels, ch.delay ≤ delay ∧ context ∈ ch.nodes ∧
    ∃ node ∈ ch.nodes, net.systemId node = m_systemId

/-- Links between different processes are point-to-point. -/
def CutsPointToPoint : Prop :=
  ∀ delay devices, .shared delay devices ∈ net.channels →
    ∀ a ∈ devices, ∀ b ∈ devices, net.systemId a = net.systemId b

variable {net}

theorem device_of_joins (hcut : net.CutsPointToPoint) {m_systemId context delay : Nat}
    (h : net.Joins m_systemId context delay) (hremote : net.systemId context ≠ m_systemId) :
    context < net.nodeCount ∧ ∃ d ∈ net.devices context, d.IsPointToPoint = true ∧
      net.systemId d.remoteNode = m_systemId ∧ d.channel.delay ≤ delay := by
  obtain ⟨ch, hch, hdelay, hcontext, node, hnode, hsystem⟩ := h
  refine ⟨net.attached ch hch context hcontext, ?_⟩
  cases ch with
  | shared d devices =>
      exact absurd (hcut d devices hch context hcontext node hnode) (hsystem ▸ hremote)
  | pointToPoint d device0 device1 =>
      simp only [Channel.nodes, List.mem_cons, List.not_mem_nil, or_false] at hcontext hnode
      obtain rfl | rfl := hcontext
      · have hother : node = device1 := by
          obtain rfl | rfl := hnode
          · exact absurd hsystem hremote
          · rfl
        subst hother
        have hdev : (⟨.pointToPoint d context node, 0⟩ : NetDevice) ∈ net.devices context :=
          mem_devices hch rfl
        exact ⟨_, hdev, rfl, hsystem, hdelay⟩
      · have hother : node = device0 := by
          obtain rfl | rfl := hnode
          · rfl
          · exact absurd hsystem hremote
        subst hother
        have hdev : (⟨.pointToPoint d node context, 1⟩ : NetDevice) ∈ net.devices context :=
          mem_devices hch rfl
        exact ⟨_, hdev, rfl, hsystem, hdelay⟩

/-- The link that a message comes over counts in the lookahead of its receiver. -/
theorem lookAhead_le_of_joins (hcut : net.CutsPointToPoint) {m_systemId context delay : Nat}
    (h : net.Joins m_systemId context delay) (hremote : net.systemId context ≠ m_systemId) :
    net.CalculateLookAhead (net.systemId context) ≤ delay := by
  obtain ⟨hlt, d, hd, hp, hsystem, hdelay⟩ := device_of_joins hcut h hremote
  refine le_trans ?_ hdelay
  exact CalculateLookAhead_le_delay hlt rfl hd hp (hsystem ▸ hremote.symm)

end Network

namespace Handler

/-- Every message for another process is one that `may` be sent. -/
def Sends (own : Nat → Prop) (may : Nat → Nat → Prop) : Handler σ ε → Prop
  | .done _ => True
  | .schedule _ _ next => ∀ key, (next key).Sends own may
  | .scheduleWithContext context delay _ next =>
      (¬ own context → may context delay) ∧ next.Sends own may
  | .remove _ next => next.Sends own may

end Handler

namespace LogicalProcess

/-- The queue, the clock and the log of a process whose events begin at time `low`. -/
structure Timely (low : Nat) (lp : LogicalProcess σ ε) : Prop where
  begins : lp.From low
  inOrder : InOrder lp.m_events
  ts_le : ∀ e ∈ lp.m_events, lp.m_currentTs ≤ e.key.m_ts
  log : ∀ a ∈ lp.log, a.now ≤ a.event.key.m_ts

namespace Timely

variable {low : Nat} {lp : LogicalProcess σ ε}

theorem insert (h : lp.Timely low) (ev : Event ε) (hlow : low ≤ ev.key.m_ts)
    (hts : lp.m_currentTs ≤ ev.key.m_ts) : (lp.insert ev).Timely low where
  begins := h.begins.insert ev hlow
  inOrder := h.inOrder.insertEvent _
  ts_le := by
    intro e he
    cases mem_insertEvent he with
    | inl heq => exact heq ▸ hts
    | inr hmem => exact h.ts_le e hmem
  log := by
    intro a ha
    rw [insert_log, List.mem_append, List.mem_singleton] at ha
    cases ha with
    | inl hold => exact h.log a hold
    | inr hnew => exact hnew ▸ hts

theorem of_eq (h : lp.Timely low) {lp' : LogicalProcess σ ε}
    (hevents : lp'.m_events = lp.m_events) (hts : lp'.m_currentTs = lp.m_currentTs)
    (hrunning : lp'.running ≠ none → lp.running ≠ none) (hlog : lp'.log = lp.log) :
    lp'.Timely low where
  begins := ⟨hevents ▸ h.begins.events, fun hrun => hts ▸ h.begins.running (hrunning hrun)⟩
  inOrder := hevents ▸ h.inOrder
  ts_le := by rw [hevents, hts]; exact h.ts_le
  log := hlog ▸ h.log

theorem mono (h : lp.Timely low) {low' : Nat} (hrunning : lp.running = none)
    (hlow : ∀ e ∈ lp.m_events, low' ≤ e.key.m_ts) : lp.Timely low' where
  begins := ⟨hlow, fun hrun => absurd hrunning hrun⟩
  inOrder := h.inOrder
  ts_le := h.ts_le
  log := h.log

theorem receive (h : lp.Timely low) (order : MessageSort ε) {queue : List (Message ε)}
    (hqueue : ∀ m ∈ queue, low ≤ m.ev.key.m_ts ∧ lp.m_currentTs ≤ m.ev.key.m_ts) :
    (lp.receive order queue).Timely low := by
  rw [LogicalProcess.receive]
  have hsorted : ∀ m ∈ (order.sort queue).reverse,
      low ≤ m.ev.key.m_ts ∧ lp.m_currentTs ≤ m.ev.key.m_ts := by
    intro m hm
    exact hqueue m ((order.perm queue).mem_iff.mp (List.mem_reverse.mp hm))
  clear hqueue
  generalize (order.sort queue).reverse = messages at hsorted
  induction messages generalizing lp with
  | nil => exact h
  | cons m ms ih =>
      obtain ⟨⟨hlow, hts⟩, hms⟩ := List.forall_mem_cons.mp hsorted
      exact ih (h.insert m.ev hlow hts) hms

end Timely

end LogicalProcess

namespace Simulation

variable (sim : Simulation σ ε χ)

/-- The messages that a process other than the public one sends go over links with at least the
delays of these. -/
def OverLinks : Prop :=
  ∀ seen id ev state, (sim.handler seen id ev state).Sends
    (fun context => sim.network.systemId context = id)
    (fun context delay => id ≠ 0 → sim.network.Joins id context delay)

/-- The time at which the events of a process begin in this round. -/
def low (s : System σ ε) (id : Nat) : Nat := if id = 0 then s.g_nextPublicTime else s.g_smallestTime

/-- What holds between any two steps of a round. -/
structure Causal (s : System σ ε) : Prop where
  staged : sim.Staged s
  timely : ∀ id ≤ sim.g_systemCount, (s.g_systems id).Timely (low s id)
  sends : ∀ id ≤ sim.g_systemCount, ∀ handler, (s.g_systems id).running = some handler →
    handler.Sends (fun context => sim.network.systemId context = id)
      (fun context delay => id ≠ 0 → sim.network.Joins id context delay)
  window : ∀ id, 1 ≤ id → id ≤ sim.g_systemCount →
    (s.g_systems id).m_currentTs ≤ sim.grantedTime s id
  messages : ∀ id, 1 ≤ id → id ≤ sim.g_systemCount → ∀ q, ∀ m ∈ s.m_mailbox id q,
    sim.grantedTime s id ≤ m.ev.key.m_ts
  smallest_le : s.g_smallestTime ≤ s.g_nextPublicTime
  smallest_le_half : s.g_smallestTime ≤ timeMax / 2

variable {sim}

theorem Initial.causal {s : System σ ε} (h : sim.Initial s) : sim.Causal s where
  staged := h.staged
  timely := by
    intro id _
    refine ⟨⟨?_, ?_⟩, h.inOrder id, ?_, ?_⟩
    · simp [low, h.smallest, h.nextPublic]
    · simp [h.running id]
    · simp [h.ts id]
    · simp [h.log id]
  sends := by simp [h.running]
  window := by simp [h.ts]
  messages := by simp [grantedTime, h.nextPublic]
  smallest_le := by simp [h.smallest]
  smallest_le_half := by simp [h.smallest]

theorem timely_call {low id : Nat} {lp : LogicalProcess σ ε} {handler : Handler σ ε}
    (h : lp.Timely low) (hrunning : lp.running ≠ none) :
    (sim.call id lp handler).1.Timely low := by
  have hlow : low ≤ lp.m_currentTs := h.begins.running hrunning
  cases handler with
  | done state => exact h.of_eq rfl rfl (fun hrun => absurd rfl hrun) rfl
  | schedule delay event next =>
      refine (h.insert (lp.localEvent lp.m_currentContext delay event) ?_ ?_).of_eq rfl rfl
        (fun _ => hrunning) rfl
      · exact hlow.trans (Nat.le_add_right _ _)
      · exact Nat.le_add_right _ _
  | scheduleWithContext context delay event next =>
      rw [call]
      split
      · refine (h.insert (lp.localEvent context delay event) ?_ ?_).of_eq rfl rfl
          (fun _ => hrunning) rfl
        · exact hlow.trans (Nat.le_add_right _ _)
        · exact Nat.le_add_right _ _
      · exact h.of_eq rfl rfl (fun _ => hrunning) rfl
  | remove key next =>
      have hsub := lp.remove_sublist key
      refine ⟨call_from (.remove key next) h.begins hrunning, h.inOrder.sublist hsub, ?_, ?_⟩
      · intro e he
        exact (lp.remove_m_currentTs key).symm ▸ h.ts_le e (hsub.subset he)
      · exact (lp.remove_log key).symm ▸ h.log

theorem timely_advance {id granted low : Nat} {seen : χ} {lp : LogicalProcess σ ε}
    {result : LogicalProcess σ ε × Option (Nat × Message ε)}
    (h : sim.advance id granted seen lp = some result) (ht : lp.Timely low) :
    result.1.Timely low := by
  obtain ⟨-, ⟨handler, hrun, rfl⟩ | ⟨-, -, ev, rest, hev, rfl⟩ | ⟨hrun, -, rfl⟩⟩ :=
    advance_eq_some.mp h
  · exact timely_call ht (by simp [hrun])
  · have horder : InOrder (ev :: rest) := hev ▸ ht.inOrder
    refine ⟨advance_from h ht.begins, (List.pairwise_cons.mp horder).2, horder.ts_le, ?_⟩
    intro a ha
    simp only [LogicalProcess.invoke, List.mem_append, List.mem_singleton] at ha
    cases ha with
    | inl hold => exact ht.log a hold
    | inr hnew => exact hnew ▸ ht.ts_le ev (hev ▸ List.mem_cons_self)
  · exact ht.of_eq rfl rfl (fun hne => hne) rfl

theorem sends_call {id : Nat} {lp : LogicalProcess σ ε} {handler rest : Handler σ ε}
    {own : Nat → Prop} {may : Nat → Nat → Prop} (h : handler.Sends own may)
    (hrest : (sim.call id lp handler).1.running = some rest) : rest.Sends own may := by
  cases handler with
  | done state => cases hrest
  | schedule delay event next =>
      cases hrest
      exact h _
  | scheduleWithContext context delay event next =>
      rw [call] at hrest
      split at hrest <;> cases hrest <;> exact h.2
  | remove key next =>
      cases hrest
      exact h

theorem call_message {id remote : Nat} {lp : LogicalProcess σ ε} {handler : Handler σ ε}
    {m : Message ε} {may : Nat → Nat → Prop}
    (h : handler.Sends (fun context => sim.network.systemId context = id) may)
    (hm : (sim.call id lp handler).2 = some (remote, m)) :
    ∃ context delay, remote = sim.network.systemId context ∧ remote ≠ id ∧ may context delay ∧
      m.ev.key.m_ts = delay + lp.m_currentTs := by
  cases handler with
  | done state => cases hm
  | schedule delay event next => cases hm
  | scheduleWithContext context delay event next =>
      rw [call] at hm
      split at hm
      · cases hm
      · next hremote =>
          cases hm
          exact ⟨context, delay, rfl, hremote, h.1 hremote, rfl⟩
  | remove key next => cases hm

theorem sends_advance (hlinks : sim.OverLinks) {id granted : Nat} {seen : χ}
    {lp : LogicalProcess σ ε} {result : LogicalProcess σ ε × Option (Nat × Message ε)}
    {rest : Handler σ ε}
    (h : sim.advance id granted seen lp = some result)
    (hsends : ∀ handler, lp.running = some handler →
      handler.Sends (fun context => sim.network.systemId context = id)
        (fun context delay => id ≠ 0 → sim.network.Joins id context delay))
    (hrest : result.1.running = some rest) :
    rest.Sends (fun context => sim.network.systemId context = id)
      (fun context delay => id ≠ 0 → sim.network.Joins id context delay) := by
  obtain ⟨-, ⟨handler, hrun, rfl⟩ | ⟨-, -, ev, es, -, rfl⟩ | ⟨hrun, -, rfl⟩⟩ :=
    advance_eq_some.mp h
  · exact sends_call (hsends handler hrun) hrest
  · cases hrest
    exact hlinks seen id ev lp.state
  · exact hsends rest hrest

theorem advance_message (hcut : sim.network.CutsPointToPoint) {s : System σ ε}
    (h : sim.Causal s) {id granted remote : Nat} (hid : id ≤ sim.g_systemCount) {seen : χ}
    {result : LogicalProcess σ ε × Option (Nat × Message ε)} {m : Message ε}
    (hadv : sim.advance id granted seen (s.g_systems id) = some result)
    (hm : result.2 = some (remote, m)) : sim.grantedTime s remote ≤ m.ev.key.m_ts := by
  obtain ⟨-, ⟨handler, hrun, rfl⟩ | ⟨-, -, ev, rest, -, rfl⟩ | ⟨-, -, rfl⟩⟩ :=
    advance_eq_some.mp hadv
  · obtain ⟨context, delay, rfl, hremote, hlink, hts⟩ :=
      call_message (h.sends id hid handler hrun) hm
    have hlow : low s id ≤ (s.g_systems id).m_currentTs :=
      (h.timely id hid).begins.running (by simp [hrun])
    rw [hts, grantedTime]
    by_cases hzero : id = 0
    · rw [low, if_pos hzero] at hlow
      omega
    · have hdelay := Network.lookAhead_le_of_joins hcut (hlink hzero) hremote
      rw [low, if_neg hzero] at hlow
      omega
  · cases hm
  · cases hm

theorem Causal.moved (hlinks : sim.OverLinks) (hcut : sim.network.CutsPointToPoint)
    {s : System σ ε} (h : sim.Causal s) {id : Nat} {seen : χ}
    {result : LogicalProcess σ ε × Option (Nat × Message ε)} (hpart : sim.takesPart s id)
    (hstage : s.stage ≠ .receiveMessages)
    (hadv : sim.advance id (sim.grantedTime s id) seen (s.g_systems id) = some result) :
    sim.Causal (moved s id result) where
  staged := h.staged.moved hpart hstage hadv
  timely := by
    intro i hi
    by_cases heq : i = id
    · subst heq
      rw [moved_self]
      exact timely_advance hadv (h.timely i hi)
    · rw [moved_of_ne s heq]
      exact h.timely i hi
  sends := by
    intro i hi handler hrun
    by_cases heq : i = id
    · subst heq
      rw [moved_self] at hrun
      exact sends_advance hlinks hadv (h.sends i hi) hrun
    · rw [moved_of_ne s heq] at hrun
      exact h.sends i hi handler hrun
  window := by
    intro i hone hi
    by_cases heq : i = id
    · subst heq
      rw [moved_self]
      exact advance_window hadv (h.window i hone hi)
    · rw [moved_of_ne s heq]
      exact h.window i hone hi
  messages := by
    intro r hone hr q m hm
    cases mem_post hm with
    | inl hold => exact h.messages r hone hr q m hold
    | inr hnew => exact advance_message hcut h (takesPart_le hpart) hadv hnew.2
  smallest_le := h.smallest_le
  smallest_le_half := h.smallest_le_half

theorem timely_collect {s : System σ ε} (h : sim.Causal s) {id : Nat} {lp : LogicalProcess σ ε}
    (hone : 1 ≤ id) (hid : id ≤ sim.g_systemCount)
    (hlp : sim.collect (s.m_mailbox id) (s.g_systems id) = some lp) : lp.Timely (low s id) := by
  have hold := h.timely id hid
  obtain ⟨-, ⟨-, rfl⟩ | ⟨-, rfl⟩⟩ := collect_eq_some.mp hlp
  · refine (hold.receive sim.order ?_).of_eq rfl rfl (fun hne => hne) rfl
    intro m hm
    have hts := h.messages id hone hid _ m hm
    have hwindow := h.window id hone hid
    have hsmall := h.smallest_le
    refine ⟨?_, hwindow.trans hts⟩
    rw [low, if_neg (by omega)]
    rw [grantedTime] at hts
    omega
  · exact hold.of_eq rfl rfl (fun hne => hne) rfl

theorem Causal.drain {s : System σ ε} (h : sim.Causal s) {id : Nat} {lp : LogicalProcess σ ε}
    (hpart : sim.takesPart s id) (hstage : s.stage = .receiveMessages)
    (hlp : sim.collect (s.m_mailbox id) (s.g_systems id) = some lp) :
    sim.Causal (sim.drained s id lp) := by
  obtain ⟨hone, hid⟩ := (takesPart_receive hstage).mp hpart
  have hidle := h.staged.idle_of_receive hstage
  have hsame : lp.m_currentTs = (s.g_systems id).m_currentTs ∧ lp.running = none := by
    rw [← hidle id hid]
    obtain ⟨-, ⟨-, rfl⟩ | ⟨-, rfl⟩⟩ := collect_eq_some.mp hlp <;> simp
  refine ⟨h.staged.drain hpart hstage hlp, ?_, ?_, ?_, ?_, h.smallest_le, h.smallest_le_half⟩
  · intro i hi
    by_cases heq : i = id
    · subst heq
      rw [drained_self]
      exact timely_collect h hone hid hlp
    · rw [drained_of_ne s heq]
      exact h.timely i hi
  · intro i hi handler hrun
    by_cases heq : i = id
    · subst heq
      simp [hsame.2] at hrun
    · simp [drained_of_ne s heq, hidle i hi] at hrun
  · intro i hone hi
    by_cases heq : i = id
    · subst heq
      rw [drained_self, hsame.1]
      exact h.window i hone hi
    · rw [drained_of_ne s heq]
      exact h.window i hone hi
  · intro r hone hr q m hm
    exact h.messages r hone hr q m (mem_drained hm)

theorem Next_le {lp : LogicalProcess σ ε} (h : InOrder lp.m_events) :
    ∀ e ∈ lp.m_events, lp.Next ≤ e.key.m_ts := by
  intro e he
  rw [LogicalProcess.Next]
  cases hevents : lp.m_events with
  | nil => simp [hevents] at he
  | cons x xs =>
      rw [hevents] at he h
      cases List.mem_cons.mp he with
      | inl heq => exact heq ▸ le_rfl
      | inr hmem => exact h.ts_le e hmem

theorem le_Next {lp : LogicalProcess σ ε} {v : Nat} (hmax : v ≤ timeMax)
    (h : ∀ e ∈ lp.m_events, v ≤ e.key.m_ts) : v ≤ lp.Next := by
  rw [LogicalProcess.Next]
  split
  · exact hmax
  · next e rest hevents => exact h e (hevents ▸ List.mem_cons_self)

theorem smallestTime_le (systems : Nat → LogicalProcess σ ε) {id : Nat}
    (hid : id ≤ sim.g_systemCount) : sim.smallestTime systems ≤ (systems id).Next := by
  apply foldl_le_of_mem _ (List.mem_range.mpr (Nat.lt_succ_of_le hid))
  · intro v
    split <;> omega
  · intro v i
    split <;> omega

theorem smallestTime_le_half (systems : Nat → LogicalProcess σ ε) :
    sim.smallestTime systems ≤ timeMax / 2 := by
  apply foldl_le
  intro v i
  split <;> omega

theorem le_smallestTime {systems : Nat → LogicalProcess σ ε} {v : Nat} (hhalf : v ≤ timeMax / 2)
    (h : ∀ id ≤ sim.g_systemCount, v ≤ (systems id).Next) : v ≤ sim.smallestTime systems := by
  apply le_foldl hhalf
  intro w hw i hi
  have hnext := h i (Nat.le_of_lt_succ (List.mem_range.mp hi))
  split <;> omega

theorem low_le_low {s : System σ ε} (h : sim.Causal s) (id : Nat) : s.g_smallestTime ≤ low s id := by
  rw [low]
  split
  · exact h.smallest_le
  · exact le_rfl

theorem smallest_le_Next {s : System σ ε} (h : sim.Causal s) :
    ∀ id ≤ sim.g_systemCount, s.g_smallestTime ≤ (s.g_systems id).Next := by
  intro id hid
  apply le_Next
  · have := h.smallest_le_half
    omega
  · intro e he
    exact (low_le_low h id).trans ((h.timely id hid).begins.events e he)

/-- The window of the next round begins where no process is ahead of it. -/
theorem Causal.nextRound {s : System σ ε} (h : sim.Causal s) (hdone : sim.stageDone s)
    (hstage : s.stage = .receiveMessages) : sim.Causal (sim.nextStage s) := by
  have hidle := h.staged.idle hdone
  have hgrow : s.g_smallestTime ≤ sim.smallestTime s.g_systems :=
    le_smallestTime h.smallest_le_half (smallest_le_Next h)
  have hstaged := h.staged.nextStage hdone
  rw [nextStage, hstage] at hstaged ⊢
  refine ⟨hstaged, ?_, ?_, ?_, ?_, ?_, ?_⟩
  · intro id hid
    have hlast := h.timely id hid
    refine (hlast.mono (hidle id hid) ?_).of_eq rfl rfl (fun hne => hne) rfl
    intro e he
    have hnext := Next_le hlast.inOrder e he
    simp only [low]
    split
    · next hzero => exact hzero ▸ hnext
    · exact (smallestTime_le s.g_systems hid).trans hnext
  · intro id hid handler hrun
    simp [enter, restart, hidle id hid] at hrun
  · intro id hone hid
    have hwindow := h.window id hone hid
    have hlook := sim.network.CalculateLookAhead_le id
    have hhalf := h.smallest_le_half
    simp only [grantedTime, enter, restart] at hwindow ⊢
    refine le_min (by omega) ?_
    apply le_Next
    · simp only [timeMax] at *
      omega
    · intro e he
      have hpublic := (h.timely 0 (Nat.zero_le _)).begins.events e he
      rw [low, if_pos rfl] at hpublic
      omega
  · intro id hone hid q m hm
    simp [enter, h.staged.empty hdone hstage hone hid q] at hm
  · exact smallestTime_le s.g_systems (Nat.zero_le _)
  · exact smallestTime_le_half s.g_systems

theorem Causal.nextStage {s : System σ ε} (h : sim.Causal s) (hdone : sim.stageDone s) :
    sim.Causal (sim.nextStage s) := by
  have hidle := h.staged.idle hdone
  have hstaged := h.staged.nextStage hdone
  have hkeep : ∀ stage, sim.Staged (enter s stage) → sim.Causal (enter s stage) := by
    intro stage hnext
    refine ⟨hnext, ?_, ?_, h.window, h.messages, h.smallest_le, h.smallest_le_half⟩
    · intro id hid
      exact (h.timely id hid).of_eq rfl rfl (fun hne => hne) rfl
    · intro id hid handler hrun
      simp [enter, restart, hidle id hid] at hrun
  cases hstage : s.stage with
  | processEvents =>
      rw [Simulation.nextStage, hstage] at hstaged ⊢
      exact hkeep .processPublic hstaged
  | processPublic =>
      rw [Simulation.nextStage, hstage] at hstaged ⊢
      exact hkeep .receiveMessages hstaged
  | receiveMessages => exact h.nextRound hdone hstage

theorem Causal.step (hlinks : sim.OverLinks) (hcut : sim.network.CutsPointToPoint)
    {s t : System σ ε} (h : sim.Causal s) {a : Move χ} (hstep : sim.step s a = some t) :
    sim.Causal t := by
  cases a with
  | work id seen =>
      obtain ⟨-, hpart, ⟨hstage, lp, hlp, rfl⟩ | ⟨hstage, result, hadv, rfl⟩⟩ :=
        work_eq_some.mp hstep
      · exact h.drain hpart hstage hlp
      · exact h.moved hlinks hcut hpart hstage hadv
  | barrier =>
      obtain ⟨-, hdone, rfl⟩ := barrier_eq_some.mp hstep
      exact h.nextStage hdone

/-- Where the partition cuts only point-to-point links, no process ever executes or inserts an
event whose timestamp is below its `m_currentTs`. -/
theorem run_causal (hlinks : sim.OverLinks) (hcut : sim.network.CutsPointToPoint)
    (s t : System σ ε) (as : List (Move χ)) (hs : sim.Initial s)
    (h : Run sim.step anyEvent s as t) :
    ∀ id ≤ sim.g_systemCount, ∀ a ∈ (t.g_systems id).log, a.now ≤ a.event.key.m_ts := by
  have hcausal : sim.Causal t :=
    h.invariant (fun _ _ _ hinv _ hstep => Causal.step hlinks hcut hinv hstep) hs.causal
  intro id hid
  exact (hcausal.timely id hid).log

theorem twoNodes_overLinks (ch : Channel) (h : ∀ node ∈ ch.nodes, node < 2)
    (hdelay : ch.delay = 1) (hzero : 0 ∈ ch.nodes) (hone : 1 ∈ ch.nodes) :
    (twoNodes ch h sendOnce).OverLinks := by
  intro seen id ev state
  simp only [twoNodes]
  split
  · next hsend =>
      refine ⟨?_, trivial⟩
      intro _ _
      refine ⟨ch, List.mem_singleton_self ch, hdelay.le, hone, 0, hzero, ?_⟩
      exact hsend.1.symm
  · trivial

/-- A process runs ahead of a message when the link that the message comes over does not count in
its lookahead. -/
theorem not_run_causal :
    ¬ ∀ (sim : Simulation Unit Nat Unit), sim.OverLinks →
      ∀ (s t : System Unit Nat) (as : List (Move Unit)), sim.Initial s →
        Run sim.step anyEvent s as t →
        ∀ id ≤ sim.g_systemCount, ∀ a ∈ (t.g_systems id).log, a.now ≤ a.event.key.m_ts := by
  intro hall
  obtain ⟨t, hrun, a, ha, hlt⟩ := exists_run overSharedLink.step anyEvent
    (fun t => ∃ a ∈ (t.g_systems 2).log, ¬ a.now ≤ a.event.key.m_ts)
    (System.new overSharedLink.network fiveAndHundred ())
    (roundOf (turns 1 1) ++ roundOf (turns 4 3)) (by decide +kernel)
  refine hlt (hall overSharedLink ?_ _ t _ ?_ hrun 2 le_rfl a ha)
  · exact twoNodes_overLinks _ _ rfl (by decide) (by decide)
  · exact initial_new fiveAndHundred_inOrder ()

theorem fiveAndHundred_causal :
    ∃ t, Run overCable.step anyEvent (System.new overCable.network fiveAndHundred ())
        (roundOf (turns 1 1) ++ roundOf (turns 4 1) ++ roundOf (turns 1 3)) t ∧
      (t.g_systems 2).executed = [(6, 1, 1)] ∧
      ∀ a ∈ (t.g_systems 2).log, a.now ≤ a.event.key.m_ts := by
  obtain ⟨t, hrun, hlog⟩ := exists_run overCable.step anyEvent
    (fun t => (t.g_systems 2).executed = [(6, 1, 1)])
    (System.new overCable.network fiveAndHundred ())
    (roundOf (turns 1 1) ++ roundOf (turns 4 1) ++ roundOf (turns 1 3)) (by decide +kernel)
  refine ⟨t, hrun, hlog, ?_⟩
  refine run_causal ?_ ?_ _ t _ (initial_new fiveAndHundred_inOrder ()) hrun 2 le_rfl
  · exact twoNodes_overLinks _ _ rfl (by decide) (by decide)
  · intro delay devices hch
    cases List.mem_singleton.mp hch

end Simulation

end CollectiveSim.Mtp
