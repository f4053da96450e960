import CollectiveSim.Mtp.Simulation

/-!
# What a stage leaves behind

Handlers are under way only in processes that are executing, and behind the last stage the
mailboxes are empty. A process only ever adds events at its own clock or later.
-/

namespace CollectiveSim.Mtp

open Framework

variable {σ ε χ : Type}

namespace LogicalProcess

/-- The process works on events of time `v` and later. -/
structure From (v : Nat) (lp : LogicalProcess σ ε) : Prop where
  events : ∀ e ∈ lp.m_events, v ≤ e.key.m_ts
  running : lp.running ≠ none → v ≤ lp.m_currentTs

theorem From.insert {v : Nat} {lp : LogicalProcess σ ε} (h : lp.From v) (ev : Event ε)
    (hev : v ≤ ev.key.m_ts) : (lp.insert ev).From v where
  events := by
    intro e he
    cases mem_insertEvent he with
    | inl heq => exact heq ▸ hev
    | inr hmem => exact h.events e hmem
  running := h.running

theorem remove_m_currentTs (id : EventKey) (lp : LogicalProcess σ ε) :
    (lp.Remove id).m_currentTs = lp.m_currentTs := by
  rw [Remove]
  split <;> rfl

theorem remove_finished (id : EventKey) (lp : LogicalProcess σ ε) :
    (lp.Remove id).finished = lp.finished := by
  rw [Remove]
  split <;> rfl

theorem remove_log (id : EventKey) (lp : LogicalProcess σ ε) :
    (lp.Remove id).log = lp.log := by
  rw [Remove]
  split <;> rfl

theorem remove_sublist (id : EventKey) (lp : LogicalProcess σ ε) :
    (lp.Remove id).m_events.Sublist lp.m_events := by
  rw [Remove]
  split
  · exact List.Sublist.refl _
  · exact List.filter_sublist

end LogicalProcess

namespace Simulation

variable {sim : Simulation σ ε χ}

theorem call_m_currentTs (id : Nat) (lp : LogicalProcess σ ε) (handler : Handler σ ε) :
    (sim.call id lp handler).1.m_currentTs = lp.m_currentTs := by
  cases handler with
  | done state => rfl
  | schedule delay event next => rfl
  | scheduleWithContext context delay event next =>
      rw [call]
      split <;> rfl
  | remove key next => exact lp.remove_m_currentTs key

theorem call_finished (id : Nat) (lp : LogicalProcess σ ε) (handler : Handler σ ε) :
    (sim.call id lp handler).1.finished = lp.finished := by
  cases handler with
  | done state => rfl
  | schedule delay event next => rfl
  | scheduleWithContext context delay event next =>
      rw [call]
      split <;> rfl
  | remove key next => exact lp.remove_finished key

theorem call_from {v id : Nat} {lp : LogicalProcess σ ε} (handler : Handler σ ε)
    (h : lp.From v) (hrunning : lp.running ≠ none) : (sim.call id lp handler).1.From v := by
  have hnow : v ≤ lp.m_currentTs := h.running hrunning
  cases handler with
  | done state => exact ⟨h.events, fun _ => hnow⟩
  | schedule delay event next =>
      have hins := h.insert (lp.localEvent lp.m_currentContext delay event)
        (hnow.trans (Nat.le_add_right _ _))
      exact ⟨hins.events, fun _ => hnow⟩
  | scheduleWithContext context delay event next =>
      rw [call]
      split
      · have hins := h.insert (lp.localEvent context delay event)
          (hnow.trans (Nat.le_add_right _ _))
        exact ⟨hins.events, fun _ => hnow⟩
      · exact ⟨h.events, fun _ => hnow⟩
  | remove key next =>
      refine ⟨fun e he => h.events e ((lp.remove_sublist key).subset he), fun _ => ?_⟩
      exact (lp.remove_m_currentTs key).symm ▸ hnow

theorem advance_from {v id granted : Nat} {seen : χ} {lp : LogicalProcess σ ε}
    {result : LogicalProcess σ ε × Option (Nat × Message ε)}
    (h : sim.advance id granted seen lp = some result) (hfrom : lp.From v) :
    result.1.From v := by
  obtain ⟨-, ⟨handler, hrun, rfl⟩ | ⟨-, -, ev, rest, hev, rfl⟩ | ⟨-, -, rfl⟩⟩ :=
    advance_eq_some.mp h
  · exact call_from handler hfrom (by simp [hrun])
  · have hmem : ∀ e ∈ ev :: rest, v ≤ e.key.m_ts := hev ▸ hfrom.events
    exact ⟨fun e he => hmem e (List.mem_cons_of_mem ev he), fun _ => hmem ev List.mem_cons_self⟩
  · exact ⟨hfrom.events, hfrom.running⟩

/-- A process that executes stays within its window. -/
theorem advance_window {id granted : Nat} {seen : χ} {lp : LogicalProcess σ ε}
    {result : LogicalProcess σ ε × Option (Nat × Message ε)}
    (h : sim.advance id granted seen lp = some result)
    (hwin : lp.m_currentTs ≤ granted) : result.1.m_currentTs ≤ granted := by
  obtain ⟨-, ⟨handler, -, rfl⟩ | ⟨-, hnext, ev, rest, hev, rfl⟩ | ⟨-, -, rfl⟩⟩ :=
    advance_eq_some.mp h
  · exact (call_m_currentTs id lp handler).symm ▸ hwin
  · simpa [LogicalProcess.Next, LogicalProcess.invoke, hev] using hnext
  · exact hwin

theorem advance_running {id granted : Nat} {seen : χ} {lp : LogicalProcess σ ε}
    {result : LogicalProcess σ ε × Option (Nat × Message ε)}
    (h : sim.advance id granted seen lp = some result) (hrun : result.1.running ≠ none) :
    result.1.finished = false := by
  obtain ⟨hfin, ⟨handler, -, rfl⟩ | ⟨-, -, ev, rest, -, rfl⟩ | ⟨hnone, -, rfl⟩⟩ :=
    advance_eq_some.mp h
  · exact (call_finished id lp handler).trans hfin
  · exact hfin
  · exact absurd hnone hrun

theorem mem_post {mailbox : Nat → Nat → List (Message ε)} {id r q : Nat} {m : Message ε}
    {sent : Option (Nat × Message ε)} (h : m ∈ post mailbox id sent r q) :
    m ∈ mailbox r q ∨ q = id ∧ sent = some (r, m) := by
  cases sent with
  | none => exact .inl h
  | some sent =>
      simp only [post] at h
      split at h
      · next heq =>
          cases List.mem_append.mp h with
          | inl hold => exact .inl hold
          | inr hnew =>
              rw [List.mem_singleton] at hnew
              exact .inr ⟨heq.2, by rw [hnew, heq.1]⟩
      · exact .inl h

theorem post_of_ne {mailbox : Nat → Nat → List (Message ε)} {id q : Nat} (h : q ≠ id)
    (sent : Option (Nat × Message ε)) (r : Nat) : post mailbox id sent r q = mailbox r q := by
  cases sent <;> simp [post, h]

theorem mem_drained {s : System σ ε} {id r q : Nat} {lp : LogicalProcess σ ε} {m : Message ε}
    (h : m ∈ (sim.drained s id lp).m_mailbox r q) : m ∈ s.m_mailbox r q := by
  simp only [drained] at h
  split at h
  · cases h
  · exact h

@[simp] theorem moved_self (s : System σ ε) (id : Nat)
    (result : LogicalProcess σ ε × Option (Nat × Message ε)) :
    (moved s id result).g_systems id = result.1 := Function.update_self ..

theorem moved_of_ne (s : System σ ε) {i id : Nat} (h : i ≠ id)
    (result : LogicalProcess σ ε × Option (Nat × Message ε)) :
    (moved s id result).g_systems i = s.g_systems i := Function.update_of_ne h ..

@[simp] theorem drained_self (s : System σ ε) (id : Nat) (lp : LogicalProcess σ ε) :
    (sim.drained s id lp).g_systems id = lp := Function.update_self ..

theorem drained_of_ne (s : System σ ε) {i id : Nat} (h : i ≠ id) (lp : LogicalProcess σ ε) :
    (sim.drained s id lp).g_systems i = s.g_systems i := Function.update_of_ne h ..

theorem takesPart_receive {s : System σ ε} {id : Nat} (hstage : s.stage = .receiveMessages) :
    sim.takesPart s id ↔ 1 ≤ id ∧ id ≤ sim.g_systemCount := by
  rw [takesPart, if_neg (by simp [hstage])]

variable (sim) in
/-- Where a round stands. -/
structure Staged (s : System σ ε) : Prop where
  /-- A handler is under way only where its process is executing. -/
  running : ∀ id ≤ sim.g_systemCount, (s.g_systems id).running ≠ none →
    s.stage ≠ .receiveMessages ∧ sim.takesPart s id ∧ (s.g_systems id).finished = false
  senders : ∀ r q, sim.g_systemCount < q → s.m_mailbox r q = []
  drained : s.stage = .receiveMessages → ∀ id, 1 ≤ id → id ≤ sim.g_systemCount →
    (∀ q < (s.g_systems id).cursor, s.m_mailbox id q = []) ∧
    ((s.g_systems id).finished = true → sim.g_systemCount < (s.g_systems id).cursor)

namespace Staged

variable {s : System σ ε} (h : sim.Staged s)
include h

theorem idle (hdone : sim.stageDone s) :
    ∀ id ≤ sim.g_systemCount, (s.g_systems id).running = none := by
  intro id hid
  by_contra hrun
  obtain ⟨-, hpart, hfin⟩ := h.running id hid hrun
  rw [hdone id (Nat.lt_succ_of_le hid) hpart] at hfin
  cases hfin

theorem idle_of_receive (hstage : s.stage = .receiveMessages) :
    ∀ id ≤ sim.g_systemCount, (s.g_systems id).running = none := by
  intro id hid
  by_contra hrun
  exact (h.running id hid hrun).1 hstage

/-- Behind the last stage every mailbox is empty but that of the public process. -/
theorem empty (hdone : sim.stageDone s) (hstage : s.stage = .receiveMessages) {id : Nat}
    (hone : 1 ≤ id) (hid : id ≤ sim.g_systemCount) (q : Nat) : s.m_mailbox id q = [] := by
  obtain ⟨hbelow, hcursor⟩ := h.drained hstage id hone hid
  have hpart : sim.takesPart s id := (takesPart_receive hstage).mpr ⟨hone, hid⟩
  have hlast := hcursor (hdone id (Nat.lt_succ_of_le hid) hpart)
  by_cases hq : q ≤ sim.g_systemCount
  · exact hbelow q (by omega)
  · exact h.senders id q (by omega)

theorem moved {id granted : Nat} {seen : χ}
    {result : LogicalProcess σ ε × Option (Nat × Message ε)} (hpart : sim.takesPart s id)
    (hstage : s.stage ≠ .receiveMessages)
    (hadv : sim.advance id granted seen (s.g_systems id) = some result) :
    sim.Staged (moved s id result) where
  running := by
    intro i hi hrun
    by_cases heq : i = id
    · subst heq
      rw [moved_self] at hrun ⊢
      exact ⟨hstage, hpart, advance_running hadv hrun⟩
    · rw [moved_of_ne s heq] at hrun ⊢
      exact h.running i hi hrun
  senders := by
    intro r q hq
    have hid := takesPart_le hpart
    exact (post_of_ne (by omega) result.2 r).trans (h.senders r q hq)
  drained := fun hreceive => absurd hreceive hstage

theorem drain {id : Nat} {lp : LogicalProcess σ ε} (hpart : sim.takesPart s id)
    (hstage : s.stage = .receiveMessages)
    (hlp : sim.collect (s.m_mailbox id) (s.g_systems id) = some lp) :
    sim.Staged (sim.drained s id lp) where
  running := by
    intro i hi hrun
    have hidle := h.idle_of_receive hstage i hi
    by_cases heq : i = id
    · subst heq
      rw [drained_self] at hrun
      obtain ⟨-, ⟨-, rfl⟩ | ⟨-, rfl⟩⟩ := collect_eq_some.mp hlp <;> simp [hidle] at hrun
    · rw [drained_of_ne s heq] at hrun
      exact absurd hidle hrun
  senders := by
    intro r q hq
    simp only [Simulation.drained]
    split
    · rfl
    · exact h.senders r q hq
  drained := by
    intro _ i hone hi
    obtain ⟨hempty, hdone⟩ := h.drained hstage i hone hi
    by_cases heq : i = id
    · subst heq
      rw [drained_self]
      simp only [Simulation.drained, true_and]
      obtain ⟨-, ⟨hcursor, rfl⟩ | ⟨hcursor, rfl⟩⟩ := collect_eq_some.mp hlp
      · constructor
        · intro q hq
          split
          · rfl
          · exact hempty q (by simp only at hq; omega)
        · simp only [LogicalProcess.receive_finished]
          intro hfin
          exact (hdone hfin).trans (Nat.lt_succ_self _)
      · refine ⟨?_, fun _ => hcursor⟩
        intro q hq
        split
        · rfl
        · exact hempty q hq
    · rw [drained_of_ne s heq]
      simp only [Simulation.drained, heq, false_and, if_false]
      exact ⟨hempty, hdone⟩

theorem nextStage (hdone : sim.stageDone s) : sim.Staged (sim.nextStage s) := by
  have hidle := h.idle hdone
  rw [Simulation.nextStage]
  split <;>
    refine ⟨?_, h.senders, ?_⟩ <;>
    first
      | (intro id hid hrun; simp [enter, restart, hidle id hid] at hrun)
      | simp [enter, restart]

theorem step {t : System σ ε} {a : Move χ} (hstep : sim.step s a = some t) : sim.Staged t := by
  cases a with
  | work id seen =>
      obtain ⟨-, hpart, ⟨hstage, lp, hlp, rfl⟩ | ⟨hstage, result, hadv, rfl⟩⟩ :=
        work_eq_some.mp hstep
      · exact h.drain hpart hstage hlp
      · exact h.moved hpart hstage hadv
  | barrier =>
      obtain ⟨-, hdone, rfl⟩ := barrier_eq_some.mp hstep
      exact h.nextStage hdone

end Staged

theorem Initial.staged {s : System σ ε} (h : sim.Initial s) : sim.Staged s where
  running := by simp [h.running]
  senders := h.senders
  drained := by simp [h.stage]

end Simulation

end CollectiveSim.Mtp
