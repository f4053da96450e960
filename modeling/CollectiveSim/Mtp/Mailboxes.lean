import CollectiveSim.Mtp.Causality

/-!
# Messages over links do not race

`CalculateLookAhead` gives the mailbox of a process a queue for each neighbour over a point-to-point
channel. As long as messages come over such channels only, no queue is inserted while the worker
threads run, and the public process sends when nobody else does.
-/

namespace CollectiveSim.Mtp

open Framework

variable {σ ε χ : Type}

namespace Network

variable {net : Network}

theorem mem_mailboxQueues_of_joins (hcut : net.CutsPointToPoint) {m_systemId context delay : Nat}
    (h : net.Joins m_systemId context delay) (hremote : net.systemId context ≠ m_systemId)
    (hzero : net.systemId context ≠ 0) :
    m_systemId ∈ net.mailboxQueues (net.systemId context) := by
  obtain ⟨hlt, d, hd, hp, hsystem, -⟩ := device_of_joins hcut h hremote
  rw [mailboxQueues, if_neg hzero, List.mem_toFinset]
  refine List.mem_flatMap.mpr ⟨context, List.mem_range.mpr hlt, ?_⟩
  rw [if_neg (not_not.mpr rfl)]
  refine List.mem_map.mpr ⟨d, List.mem_filter.mpr ⟨hd, ?_⟩, hsystem⟩
  simpa [hp, hsystem] using hremote.symm

end Network

namespace Simulation

variable (sim : Simulation σ ε χ)

/-- All nodes are in processes other than the public one. -/
def NodesPlaced : Prop :=
  ∀ node < sim.network.nodeCount,
    1 ≤ sim.network.systemId node ∧ sim.network.systemId node ≤ sim.g_systemCount

/-- The worker threads only use queues that are there, and beside them nobody sends. -/
structure Keyed (s : System σ ε) : Prop where
  queues : ∀ r ≤ sim.g_systemCount, sim.network.mailboxQueues r ⊆ s.queues r
  threads : s.stage = .processEvents → ∀ r, s.touched r ⊆ s.queues r
  alone : s.stage = .processPublic → ∀ r, s.touched r ⊆ {0}
  defined : s.raced = false

variable {sim}

theorem Initial.keyed {s : System σ ε} (h : sim.Initial s) : sim.Keyed s where
  queues := h.queues
  threads := fun _ r => by simp [h.touched r]
  alone := fun _ r => by simp [h.touched r]
  defined := h.raced

theorem mem_touch {touched : Nat → Finset Nat} {id r j : Nat} {sent : Option (Nat × Message ε)}
    (h : j ∈ touch touched id sent r) :
    j ∈ touched r ∨ j = id ∧ ∃ m, sent = some (r, m) := by
  cases sent with
  | none => exact .inl h
  | some sent =>
      simp only [touch] at h
      split at h
      · next hr =>
          refine (Finset.mem_insert.mp h).symm.imp_right fun hj => ⟨hj, sent.2, ?_⟩
          rw [hr]
      · exact .inl h

/-- A worker thread finds the queue for its message. -/
theorem Keyed.sender_mem (hcut : sim.network.CutsPointToPoint) (hplaced : sim.NodesPlaced)
    {s : System σ ε} (h : sim.Keyed s) (hcausal : sim.Causal s) {id granted remote : Nat}
    (hid : id ≤ sim.g_systemCount) (hzero : id ≠ 0) {seen : χ}
    {result : LogicalProcess σ ε × Option (Nat × Message ε)} {m : Message ε}
    (hadv : sim.advance id granted seen (s.g_systems id) = some result)
    (hm : result.2 = some (remote, m)) : id ∈ s.queues remote := by
  obtain ⟨-, ⟨handler, hrun, rfl⟩ | ⟨-, -, ev, rest, -, rfl⟩ | ⟨-, -, rfl⟩⟩ :=
    advance_eq_some.mp hadv
  · obtain ⟨context, delay, rfl, hremote, hlink, -⟩ :=
      call_message (hcausal.sends id hid handler hrun) hm
    have hlt : context < sim.network.nodeCount :=
      (Network.device_of_joins hcut (hlink hzero) hremote).1
    obtain ⟨hone, hcount⟩ := hplaced context hlt
    refine h.queues _ hcount ?_
    exact Network.mem_mailboxQueues_of_joins hcut (hlink hzero) hremote
      (Nat.one_le_iff_ne_zero.mp hone)
  · cases hm
  · cases hm

theorem Keyed.moved (hcut : sim.network.CutsPointToPoint) (hplaced : sim.NodesPlaced)
    {s : System σ ε} (h : sim.Keyed s) (hcausal : sim.Causal s) {id : Nat} {seen : χ}
    {result : LogicalProcess σ ε × Option (Nat × Message ε)} (hpart : sim.takesPart s id)
    (hstage : s.stage ≠ .receiveMessages)
    (hadv : sim.advance id (sim.grantedTime s id) seen (s.g_systems id) = some result) :
    sim.Keyed (moved s id result) := by
  have hsender : s.stage = .processEvents → ∀ {remote m}, result.2 = some (remote, m) →
      id ∈ s.queues remote := by
    intro hevents remote m hm
    rw [takesPart, if_neg (by simp [hevents])] at hpart
    exact h.sender_mem hcut hplaced hcausal hpart.2 (Nat.one_le_iff_ne_zero.mp hpart.1) hadv hm
  refine ⟨h.queues, ?_, ?_, ?_⟩
  · intro hevents r j hj
    obtain hold | ⟨rfl, m, hm⟩ := mem_touch hj
    · exact h.threads hevents r hold
    · exact hsender hevents hm
  · intro (hpublic : s.stage = .processPublic) r j hj
    obtain hold | ⟨rfl, -⟩ := mem_touch hj
    · exact h.alone hpublic r hold
    · rw [takesPart, if_pos hpublic] at hpart
      exact Finset.mem_singleton.mpr hpart
  · rw [← Bool.not_eq_true, raced_moved, h.defined]
    rintro (hraced | ⟨remote, m, hm, j, hj, hne, hkey⟩)
    · cases hraced
    · cases hwhere : s.stage with
      | processEvents =>
          have hmem := h.threads hwhere remote hj
          exact hkey.elim (fun hno => hno (hsender hwhere hm)) fun hno => hno hmem
      | processPublic =>
          rw [takesPart, if_pos hwhere] at hpart
          exact hne ((Finset.mem_singleton.mp (h.alone hwhere remote hj)).trans hpart.symm)
      | receiveMessages => exact hstage hwhere

theorem Keyed.enter {s : System σ ε} (h : sim.Keyed s) (stage : Stage) :
    sim.Keyed (enter s stage) where
  queues := fun r hr => (h.queues r hr).trans Finset.subset_union_left
  threads := fun _ _ => Finset.empty_subset _
  alone := fun _ _ => Finset.empty_subset _
  defined := h.defined

theorem Keyed.step (hcut : sim.network.CutsPointToPoint) (hplaced : sim.NodesPlaced)
    {s t : System σ ε} (h : sim.Keyed s) (hcausal : sim.Causal s) {a : Move χ}
    (hstep : sim.step s a = some t) : sim.Keyed t := by
  cases a with
  | work id seen =>
      obtain ⟨-, hpart, ⟨hstage, lp, hlp, rfl⟩ | ⟨hstage, result, hadv, rfl⟩⟩ :=
        work_eq_some.mp hstep
      · exact ⟨h.queues, h.threads, h.alone, h.defined⟩
      · exact h.moved hcut hplaced hcausal hpart hstage hadv
  | barrier =>
      obtain ⟨-, hdone, rfl⟩ := barrier_eq_some.mp hstep
      rw [nextStage]
      split
      · exact h.enter _
      · exact h.enter _
      · have hnext := h.enter .processEvents
        exact ⟨hnext.queues, hnext.threads, hnext.alone, hnext.defined⟩

/-- A simulation whose messages go over point-to-point links is free of data races. -/
theorem run_defined (hlinks : sim.OverLinks) (hcut : sim.network.CutsPointToPoint)
    (hplaced : sim.NodesPlaced) {s t : System σ ε} {as : List (Move χ)} (hs : sim.Initial s)
    (h : Run sim.step anyEvent s as t) : t.raced = false := by
  have hkeep : ∀ u a v, sim.Causal u ∧ sim.Keyed u → anyEvent u a → sim.step u a = some v →
      sim.Causal v ∧ sim.Keyed v := by
    rintro u a v ⟨hcausal, hkeyed⟩ - hstep
    exact ⟨hcausal.step hlinks hcut hstep, hkeyed.step hcut hplaced hcausal hstep⟩
  exact (h.invariant hkeep ⟨hs.causal, hs.keyed⟩).2.defined

end Simulation

end CollectiveSim.Mtp
