import CollectiveSim.Mtp.Simulation

/-!
# The order in which processes are picked does not matter

A step of one process reads its own record and, when it drains, its own mailbox; it writes these and
the queues that it alone fills. So the steps of different processes commute within a stage.
-/

namespace CollectiveSim.Mtp

open Framework

variable {σ ε χ : Type}

namespace LogicalProcess

theorem log_insert (ev : Event ε) (lp : LogicalProcess σ ε) : lp.log <+: (lp.insert ev).log :=
  ⟨_, (insert_log ev lp).symm⟩

theorem log_receive (order : MessageSort ε) (queue : List (Message ε))
    (lp : LogicalProcess σ ε) : lp.log <+: (lp.receive order queue).log := by
  rw [receive]
  generalize (order.sort queue).reverse = messages
  induction messages generalizing lp with
  | nil => exact List.prefix_rfl
  | cons m ms ih => exact (lp.log_insert m.ev).trans (ih (lp.insert m.ev))

end LogicalProcess

namespace Simulation

variable (sim : Simulation σ ε χ)

/-- Event handlers touch only the state of their own logical process. -/
def HandlersLocal : Prop :=
  ∀ seen seen' id ev state, sim.handler seen id ev state = sim.handler seen' id ev state

variable {sim}

theorem advance_local (hlocal : sim.HandlersLocal) (id grantedTime : Nat) (seen seen' : χ)
    (lp : LogicalProcess σ ε) :
    sim.advance id grantedTime seen lp = sim.advance id grantedTime seen' lp := by
  unfold advance
  simp only [hlocal seen seen']

theorem work_local (hlocal : sim.HandlersLocal) (s : System σ ε) (id : Nat) (seen seen' : χ) :
    sim.work s id seen = sim.work s id seen' := by
  rw [work, work, advance_local hlocal id _ seen seen']

/-- A process fills only its own queue in the mailbox of another one. -/
theorem post_comm (mailbox : Nat → Nat → List (Message ε)) {i j : Nat} (hij : i ≠ j)
    (a b : Option (Nat × Message ε)) :
    post (post mailbox i a) j b = post (post mailbox j b) i a := by
  funext r q
  cases a with
  | none => rfl
  | some a =>
      cases b with
      | none => rfl
      | some b =>
          by_cases hq : q = i
          · simp [post, hq, hij]
          · simp [post, hq]

theorem touch_comm (touched : Nat → Finset Nat) (i j : Nat) (a b : Option (Nat × Message ε)) :
    touch (touch touched i a) j b = touch (touch touched j b) i a := by
  funext r
  cases a with
  | none => rfl
  | some a =>
      cases b with
      | none => rfl
      | some b =>
          simp only [touch]
          split_ifs
          · exact Finset.insert_comm j i _
          all_goals rfl

theorem races_moved (s : System σ ε) {i j : Nat} (hij : i ≠ j)
    (a : LogicalProcess σ ε × Option (Nat × Message ε)) (remote : Nat) :
    (moved s i a).Races j remote ↔ s.Races j remote ∨
      ((∃ m, a.2 = some (remote, m)) ∧ (j ∉ s.queues remote ∨ i ∉ s.queues remote)) := by
  obtain ⟨lp, sent⟩ := a
  cases sent with
  | none => simp [System.Races, moved, touch]
  | some sent =>
      obtain ⟨r, m⟩ := sent
      by_cases hr : remote = r
      · subst hr
        simp only [System.Races, moved, touch, if_true, Finset.mem_insert]
        grind
      · simp [System.Races, moved, touch, hr, Ne.symm hr]

theorem moved_comm (s : System σ ε) {i j : Nat} (hij : i ≠ j)
    (a b : LogicalProcess σ ε × Option (Nat × Message ε)) :
    moved (moved s i a) j b = moved (moved s j b) i a := by
  have hraced : (moved (moved s i a) j b).raced = (moved (moved s j b) i a).raced := by
    rw [Bool.eq_iff_iff, raced_moved, raced_moved, raced_moved, raced_moved]
    simp only [races_moved s hij, races_moved s hij.symm]
    grind
  simp only [moved] at hraced ⊢
  simp only [Function.update_comm hij, post_comm s.m_mailbox hij, touch_comm s.touched i j, hraced]

theorem drained_comm (s : System σ ε) {i j : Nat} (hij : i ≠ j) (a b : LogicalProcess σ ε) :
    sim.drained (sim.drained s i a) j b = sim.drained (sim.drained s j b) i a := by
  simp only [drained, Function.update_of_ne hij, Function.update_of_ne hij.symm,
    Function.update_comm hij]
  congr 1
  funext r q
  by_cases hr : r = i
  · simp [hr, hij]
  · simp [hr]

/-- Different processes draw their steps from different parts of the system. -/
theorem work_comm {s t u : System σ ε} {i j : Nat} {seen seen' : χ} (hij : i ≠ j)
    (ht : sim.work s i seen = some t) (hu : sim.work s j seen' = some u) :
    ∃ v, sim.work t j seen' = some v ∧ sim.work u i seen = some v := by
  obtain ⟨hfin, hi, hcasei⟩ := work_eq_some.mp ht
  obtain ⟨-, hj, hcasej⟩ := work_eq_some.mp hu
  cases hcasei with
  | inl hdrain =>
      obtain ⟨hstage, lp, hlp, rfl⟩ := hdrain
      obtain ⟨-, lp', hlp', rfl⟩ := hcasej.resolve_right fun h => h.1 hstage
      refine ⟨sim.drained (sim.drained s i lp) j lp', ?_, ?_⟩
      · refine work_eq_some.mpr ⟨hfin, hj, .inl ⟨hstage, lp', ?_, rfl⟩⟩
        simpa [drained, hij.symm] using hlp'
      · refine work_eq_some.mpr ⟨hfin, hi, .inl ⟨hstage, lp, ?_, drained_comm s hij.symm lp' lp⟩⟩
        simpa [drained, hij] using hlp
  | inr hmove =>
      obtain ⟨hstage, result, hresult, rfl⟩ := hmove
      obtain ⟨-, result', hresult', rfl⟩ := hcasej.resolve_left fun h => hstage h.1
      refine ⟨moved (moved s i result) j result', ?_, ?_⟩
      · refine work_eq_some.mpr ⟨hfin, hj, .inr ⟨hstage, result', ?_, rfl⟩⟩
        simpa [moved, grantedTime, hij.symm] using hresult'
      · refine work_eq_some.mpr
          ⟨hfin, hi, .inr ⟨hstage, result, ?_, moved_comm s hij.symm result' result⟩⟩
        simpa [moved, grantedTime, hij] using hresult

theorem work_finished {s : System σ ε} {id : Nat} (seen : χ)
    (h : (s.g_systems id).finished = true) : sim.work s id seen = none := by
  cases hwork : sim.work s id seen with
  | none => rfl
  | some t =>
      obtain ⟨-, -, ⟨-, lp, hlp, -⟩ | ⟨-, result, hresult, -⟩⟩ := work_eq_some.mp hwork
      · simp [collect, h] at hlp
      · simp [advance, h] at hresult

theorem barrier_wait {s t : System σ ε} (h : sim.barrier s = some t) (id : Nat) (seen : χ) :
    sim.work s id seen = none := by
  obtain ⟨-, hdone, -⟩ := barrier_eq_some.mp h
  by_cases hpart : sim.takesPart s id
  · exact work_finished seen (hdone id (Nat.lt_succ_of_le (takesPart_le hpart)) hpart)
  · rw [work, if_pos (.inr hpart)]

theorem interleaved (hlocal : sim.HandlersLocal) : Interleaved sim.step Move.worker where
  same := by
    intro s a b t u hworker ht hu
    cases a with
    | work i seen =>
        cases b with
        | work j seen' =>
            cases hworker
            simp only [step, work_local hlocal s i seen seen'] at ht hu
            exact Option.some.inj (ht.symm.trans hu)
        | barrier => cases hworker
    | barrier =>
        cases b with
        | work j seen' => cases hworker
        | barrier => exact Option.some.inj (ht.symm.trans hu)
  apart := by
    intro s a b t u hworker ht hu
    cases a with
    | work i seen =>
        cases b with
        | work j seen' => exact work_comm (fun h => hworker (congrArg some h)) ht hu
        | barrier => simp [step, barrier_wait hu] at ht
    | barrier =>
        cases b with
        | work j seen' => simp [step, barrier_wait ht] at hu
        | barrier => exact absurd rfl hworker
  wait := by
    intro s a b t i ha ht hb
    cases a with
    | work j seen => cases ha
    | barrier =>
        cases b with
        | work j seen => exact barrier_wait ht j seen
        | barrier => cases hb

theorem log_call (id : Nat) (lp : LogicalProcess σ ε) (handler : Handler σ ε) :
    lp.log <+: (sim.call id lp handler).1.log := by
  cases handler with
  | done state => exact List.prefix_rfl
  | schedule delay event next => exact lp.log_insert _
  | scheduleWithContext context delay event next =>
      rw [call]
      split
      · exact lp.log_insert _
      · exact List.prefix_rfl
  | remove key next =>
      rw [call, LogicalProcess.Remove]
      split <;> exact List.prefix_rfl

theorem log_advance {id grantedTime : Nat} {seen : χ} {lp : LogicalProcess σ ε}
    {result : LogicalProcess σ ε × Option (Nat × Message ε)}
    (h : sim.advance id grantedTime seen lp = some result) : lp.log <+: result.1.log := by
  obtain ⟨-, ⟨handler, -, rfl⟩ | ⟨-, -, ev, rest, -, rfl⟩ | ⟨-, -, rfl⟩⟩ := advance_eq_some.mp h
  · exact log_call id lp handler
  · exact List.prefix_append _ _
  · exact List.prefix_rfl

theorem log_collect {mailbox : Nat → List (Message ε)} {lp lp' : LogicalProcess σ ε}
    (h : sim.collect mailbox lp = some lp') : lp.log <+: lp'.log := by
  obtain ⟨-, ⟨-, rfl⟩ | ⟨-, rfl⟩⟩ := collect_eq_some.mp h
  · exact lp.log_receive sim.order _
  · exact List.prefix_rfl

theorem log_barrier {s t : System σ ε} (h : sim.barrier s = some t) (id : Nat) :
    (t.g_systems id).log = (s.g_systems id).log := by
  obtain ⟨-, -, rfl⟩ := barrier_eq_some.mp h
  rw [nextStage]
  split <;> rfl

theorem log_step (s : System σ ε) (a : Move χ) (t : System σ ε) (h : sim.step s a = some t)
    (id : Nat) : (s.g_systems id).log <+: (t.g_systems id).log := by
  cases a with
  | barrier => exact (log_barrier h id).symm ▸ List.prefix_rfl
  | work j seen =>
      obtain ⟨-, -, ⟨-, lp, hlp, rfl⟩ | ⟨-, result, hresult, rfl⟩⟩ := work_eq_some.mp h
      · by_cases hid : id = j
        · subst hid
          simpa [drained] using log_collect hlp
        · simp [drained, hid]
      · by_cases hid : id = j
        · subst hid
          simpa [moved] using log_advance hresult
        · simp [moved, hid]

theorem executed_of_prefix {lp lp' : LogicalProcess σ ε} (h : lp.log <+: lp'.log) :
    lp.executed <+: lp'.executed := (h.filterMap Action.executed?).map _

/-- Two runs that pick and interleave the processes of every stage in any two ways execute, in every
logical process, one and the same sequence of timestamps, contexts and events, if and only if none of
their steps races for a mailbox. Whatever one of them has executed so far the other one has executed,
or will begin with, in this order; and where both have ended as many stages, or have ended altogether,
nothing is missing on either side. -/
theorem run_independent (hlocal : sim.HandlersLocal) (s t u : System σ ε)
    (as bs : List (Move χ)) (hs : s.raced = false) (ht : Run sim.step anyEvent s as t)
    (hu : Run sim.step anyEvent s bs u) (id : Nat) :
    (∃ e e', t.executed id = some e ∧ u.executed id = some e' ∧ (e <+: e' ∨ e' <+: e) ∧
      (barriers Move.worker as = barriers Move.worker bs →
        Quiet sim.step Move.worker t → Quiet sim.step Move.worker u → e = e') ∧
      ((∀ a, sim.step t a = none) → (∀ a, sim.step u a = none) → e = e')) ↔
    Run sim.step sim.NoRace s as t ∧ Run sim.step sim.NoRace s bs u := by
  have hinter := interleaved hlocal
  have hdefined {t : System σ ε} {as : List (Move χ)} (ht : Run sim.step anyEvent s as t) :
      (∃ e, t.executed id = some e) ↔ Run sim.step sim.NoRace s as t := by
    rw [System.executed]
    constructor
    · rintro ⟨e, he⟩
      split at he
      · cases he
      · next hraced => exact ((raced_run ht).mp (by simpa using hraced)).2
    · intro hrun
      rw [(raced_run ht).mpr ⟨hs, hrun⟩]
      exact ⟨_, rfl⟩
  constructor
  · rintro ⟨e, e', he, he', -⟩
    exact ⟨(hdefined ht).mp ⟨e, he⟩, (hdefined hu).mp ⟨e', he'⟩⟩
  · rintro ⟨htrace, hurace⟩
    have hte : t.executed id = some (t.g_systems id).executed := by
      rw [System.executed, (raced_run ht).mpr ⟨hs, htrace⟩]
      rfl
    have hue : u.executed id = some (u.g_systems id).executed := by
      rw [System.executed, (raced_run hu).mpr ⟨hs, hurace⟩]
      rfl
    refine ⟨_, _, hte, hue, ?_, ?_, ?_⟩
    · apply hinter.prefix_or_prefix (fun s => (s.g_systems id).executed) _ ht hu
      intro x a y hstep
      exact executed_of_prefix (log_step x a y hstep id)
    · intro hbar htq huq
      rw [hinter.run_unique ht hu hbar htq huq]
    · intro htend huend
      rw [hinter.final_unique ht hu htend huend]

/-- In the first of the two runs the first process moves before the second one, in the other run
behind it. -/
theorem overCable_independent :
    ∃ t u, Run overCable.step overCable.NoRace (System.new overCable.network fiveAndHundred ())
        (roundOf (turns 1 1) ++ roundOf (turns 4 1)) t ∧
      Run overCable.step overCable.NoRace (System.new overCable.network fiveAndHundred ())
        (roundOf (turns 1 1).reverse ++ roundOf (turns 4 1).reverse) u ∧
      t.executed 1 = some [(5, 0, 0)] ∧
      ∀ id, ∃ e e', t.executed id = some e ∧ u.executed id = some e' ∧ (e <+: e' ∨ e' <+: e) := by
  obtain ⟨t, ht, hlog⟩ := exists_run overCable.step overCable.NoRace
    (fun t => t.executed 1 = some [(5, 0, 0)]) (System.new overCable.network fiveAndHundred ())
    (roundOf (turns 1 1) ++ roundOf (turns 4 1)) (by decide +kernel)
  obtain ⟨u, hu, -⟩ := exists_run overCable.step overCable.NoRace (fun _ => True)
    (System.new overCable.network fiveAndHundred ())
    (roundOf (turns 1 1).reverse ++ roundOf (turns 4 1).reverse) (by decide +kernel)
  have hlocal : overCable.HandlersLocal := fun _ _ _ _ _ => rfl
  refine ⟨t, u, ht, hu, hlog, fun id => ?_⟩
  obtain ⟨e, e', he, he', hprefix, -⟩ :=
    (run_independent hlocal _ t u _ _ rfl ht.any hu.any id).mpr ⟨ht, hu⟩
  exact ⟨e, e', he, he', hprefix⟩

theorem threeNodes_lt : ∀ ch ∈ [Channel.shared 1 [0, 1, 2]], ∀ node ∈ ch.nodes, node < 3 := by
  decide

/-- Three processes with a node each on a shared link. Two of them send to the third. -/
def twoSenders : Simulation Unit Nat Unit where
  network := ⟨3, fun node => node + 1, [.shared 1 [0, 1, 2]], threeNodes_lt⟩
  g_systemCount := 3
  handler := fun _ _ ev _ => if ev.impl = 0 then .scheduleWithContext 2 1 1 (.done ()) else .done ()
  order := insertionSort Nat

/-- Both senders have an event at time 5. -/
def fiveAndFive : Nat → List (Event Nat)
  | 1 => [⟨⟨5, 4, 0⟩, 0, none⟩]
  | 2 => [⟨⟨5, 4, 1⟩, 0, none⟩]
  | _ => []

/-- Two processes insert their queues into the mailbox of the third one in the same stage. -/
theorem not_run_independent :
    ¬ ∀ (sim : Simulation Unit Nat Unit), sim.HandlersLocal →
      ∀ (s t u : System Unit Nat) (as bs : List (Move Unit)), sim.Initial s →
        Run sim.step anyEvent s as t → Run sim.step anyEvent s bs u → ∀ id,
          ∃ e e', t.executed id = some e ∧ u.executed id = some e' ∧ (e <+: e' ∨ e' <+: e) := by
  intro hall
  have hinOrder : ∀ id, InOrder (fiveAndFive id) := by
    intro id
    unfold fiveAndFive InOrder
    split <;> simp
  obtain ⟨t, ht, hraced⟩ := exists_run twoSenders.step anyEvent (fun t => t.executed 1 = none)
    (System.new twoSenders.network fiveAndFive ())
    (turns 1 1 ++ [.work 3 (), .barrier, .work 0 (), .barrier] ++ turns 5 5 ++
      List.replicate 5 (.work 3 ()) ++ [.barrier] ++ turns 2 2) (by decide +kernel)
  obtain ⟨e, e', he, -⟩ := hall twoSenders (fun _ _ _ _ _ => rfl) _ t t _ _
    (initial_new hinOrder ()) ht ht 1
  rw [hraced] at he
  cases he

end Simulation

end CollectiveSim.Mtp
