import Mathlib
import CollectiveSim.Msccl.Dependency

/-!
# Runs end

Every step of the event machine uses up some of a fixed amount of work, so each run can only go on for
so long, and what it leaves undone when it stops is not because an event was still to come.
-/

namespace CollectiveSim.Msccl

open Framework

namespace Interpreter

variable {algo : MscclAlgorithm}

/-- No thread block is told twice to try again. -/
def Unrepeated (s : Interpreter) : Prop := ∀ z, (s.tbs z).tryReschedule.Nodup

theorem Unrepeated.updateTb {s : Interpreter} (h : s.Unrepeated) {z : Int} {f : TBState → TBState}
    (hf : (f (s.tbs z)).tryReschedule.Nodup) : (s.updateTb z f).Unrepeated := by
  intro z'
  by_cases hz : z' = z
  · rw [hz, updateTb_self]
    exact hf
  · rw [updateTb_of_ne _ _ hz]
    exact h z'

theorem Unrepeated.step {s s' : Interpreter} (h : s.Unrepeated) {a : Action}
    (hstep : Step algo s a s') : s'.Unrepeated := by
  cases hstep with
  | idle hmem hidle => exact h
  | block hmem hbusy htran hdep => exact Unrepeated.updateTb h ((h _).insert)
  | dispatch hmem hbusy htran hdep => exact Unrepeated.updateTb h (h _)
  | start hmem htran htype => exact h
  | ignore hmem htran htype => exact h
  | complete hmem => exact Unrepeated.updateTb h List.nodup_nil
  | finish hmem => exact h

theorem length_tryReschedule_le {s : Interpreter} (hrange : InRange algo s) (h : s.Unrepeated)
    (z : Int) : (s.tbs z).tryReschedule.length ≤ algo.nBlocks := by
  have hsub : (s.tbs z).tryReschedule ⊆ List.range algo.nBlocks := by
    intro b hb
    exact List.mem_range.mpr (hrange.waiting z b hb)
  have hle := (List.subperm_of_subset (h z) hsub).length_le
  rwa [List.length_range] at hle

/-- The work that an event may still cause, without that of transfers not yet scheduled. -/
def weight (algo : MscclAlgorithm) : Event → Nat
  | .tryScheduleNextStep _ => 1
  | .stepCompletion _ _ => algo.nBlocks + 2
  | .runStep _ _ => algo.nBlocks + 4

/-- The transfers of a thread block that are not scheduled yet. -/
def unscheduled (algo : MscclAlgorithm) (s : Interpreter) (b : Nat) : Nat :=
  (algo.mscclTBs b).nsteps - ((s.tbs b).localStep + if (s.tbs b).busy then 1 else 0)

def work (algo : MscclAlgorithm) (s : Interpreter) : Nat :=
  (s.pending.map (weight algo)).sum + (algo.nBlocks + 3) * s.running.length +
    (algo.nBlocks + 4) * ∑ b ∈ Finset.range algo.nBlocks, unscheduled algo s b

theorem sum_erase (algo : MscclAlgorithm) {s : Interpreter} {e : Event} (h : e ∈ s.pending) :
    weight algo e + ((s.pending.erase e).map (weight algo)).sum =
      (s.pending.map (weight algo)).sum :=
  List.sum_map_erase _ h

theorem sum_weight_try (bids : List Nat) :
    ((bids.map Event.tryScheduleNextStep).map (weight algo)).sum = bids.length := by
  induction bids with
  | nil => rfl
  | cons bid bids ih =>
      rw [List.map_cons, List.map_cons, List.sum_cons, ih, List.length_cons, weight, Nat.add_comm]

theorem unscheduled_congr {s s' : Interpreter} {b : Nat} (hbusy : (s'.tbs b).busy = (s.tbs b).busy)
    (hlocal : (s'.tbs b).localStep = (s.tbs b).localStep) :
    unscheduled algo s' b = unscheduled algo s b := by
  rw [unscheduled, unscheduled, hbusy, hlocal]

theorem work_lt_of_same {s s' : Interpreter}
    (h : ∀ b < algo.nBlocks, unscheduled algo s' b = unscheduled algo s b)
    (hlt : (s'.pending.map (weight algo)).sum + (algo.nBlocks + 3) * s'.running.length <
      (s.pending.map (weight algo)).sum + (algo.nBlocks + 3) * s.running.length) :
    work algo s' < work algo s := by
  have hsum : ∑ b ∈ Finset.range algo.nBlocks, unscheduled algo s' b =
      ∑ b ∈ Finset.range algo.nBlocks, unscheduled algo s b := by
    apply Finset.sum_congr rfl
    intro b hb
    exact h b (Finset.mem_range.mp hb)
  rw [work, work, hsum]
  exact Nat.add_lt_add_right hlt _

theorem work_dispatch {s : Interpreter} {bid : Nat} {tran : MscclTransfer}
    (hmem : .tryScheduleNextStep bid ∈ s.pending) (hbid : bid < algo.nBlocks)
    (hbusy : (s.tbs bid).busy = false)
    (hlt : (s.tbs bid).localStep < (algo.mscclTBs bid).nsteps) :
    work algo (((s.take (.tryScheduleNextStep bid)).updateTb bid
      (.dispatch tran.numDependences)).schedule [.runStep bid (s.tbs bid).localStep]) <
      work algo s := by
  have hsum : ∑ b ∈ Finset.range algo.nBlocks, unscheduled algo
      (((s.take (.tryScheduleNextStep bid)).updateTb bid (.dispatch tran.numDependences)).schedule
        [.runStep bid (s.tbs bid).localStep]) b <
      ∑ b ∈ Finset.range algo.nBlocks, unscheduled algo s b := by
    apply Finset.sum_lt_sum
    · intro b _
      by_cases hb : b = bid
      · rw [hb, unscheduled, unscheduled, schedule_tbs, updateTb_self, hbusy,
          TBState.dispatch_busy, TBState.dispatch_localStep, take_tbs]
        exact Nat.sub_le_sub_left (by simp) _
      · apply Nat.le_of_eq
        apply unscheduled_congr
        · rw [schedule_tbs, updateTb_of_ne _ _ (Nat.cast_injective.ne hb), take_tbs]
        · rw [schedule_tbs, updateTb_of_ne _ _ (Nat.cast_injective.ne hb), take_tbs]
    · refine ⟨bid, Finset.mem_range.mpr hbid, ?_⟩
      rw [unscheduled, unscheduled, schedule_tbs, updateTb_self, hbusy, TBState.dispatch_busy,
        TBState.dispatch_localStep, take_tbs, if_pos rfl, if_neg Bool.false_ne_true]
      omega
  have herase := sum_erase algo hmem
  have hmul := Nat.mul_le_mul_left (algo.nBlocks + 4) hsum
  rw [Nat.mul_succ] at hmul
  rw [work, work, schedule_pending, List.map_append, List.sum_append, updateTb_pending, take_pending,
    schedule_running, updateTb_running, take_running, ← herase, List.map_singleton,
    List.sum_singleton]
  rw [weight, weight]
  omega

/-- Every step uses up work. -/
theorem Step.work_lt {s s' : Interpreter} {a : Action} (hstep : Step algo s a s')
    (hacc : Accounted algo s) (hrange : InRange algo s) (hunr : s.Unrepeated) :
    work algo s' < work algo s := by
  cases hstep with
  | @idle bid hmem hidle =>
      have herase := sum_erase algo hmem
      refine work_lt_of_same (fun b _ => rfl) ?_
      rw [take_pending, take_running, ← herase, weight]
      omega
  | @block bid tran dep hmem hbusy htran hdep =>
      have herase := sum_erase algo hmem
      have hsame : ∀ b < algo.nBlocks, unscheduled algo
          ((s.take (.tryScheduleNextStep bid)).updateTb dep.1 (.insertTry bid)) b =
          unscheduled algo s b := by
        intro b _
        apply unscheduled_congr
        · exact updateTb_proj _ _ (.insertTry bid) TBState.busy (fun _ => rfl) b
        · exact updateTb_proj _ _ (.insertTry bid) TBState.localStep (fun _ => rfl) b
      apply work_lt_of_same hsame
      rw [updateTb_pending, updateTb_running, take_pending, take_running, ← herase, weight]
      omega
  | dispatch hmem hbusy htran hdep =>
      exact work_dispatch hmem (hrange.pending _ hmem) hbusy (List.getElem?_eq_some_iff.mp htran).1
  | @start bid sid tran hmem htran htype =>
      have herase := sum_erase algo hmem
      refine work_lt_of_same (fun b _ => rfl) ?_
      rw [← herase, weight, List.length_append, List.length_singleton, Nat.mul_succ, take_pending]
      omega
  | @ignore bid sid tran hmem htran htype =>
      have herase := sum_erase algo hmem
      refine work_lt_of_same (fun b _ => rfl) ?_
      rw [take_pending, take_running, ← herase, weight]
      omega
  | @complete bid sid hmem =>
      obtain ⟨hbusy, -⟩ := hacc.of_stepCompletion hmem
      have herase := sum_erase algo hmem
      have hlen := length_tryReschedule_le hrange hunr bid
      have hsame : ∀ b < algo.nBlocks, unscheduled algo
          (stepCompletion bid (s.take (.stepCompletion bid sid))) b = unscheduled algo s b := by
        intro b _
        by_cases hb : b = bid
        · rw [hb, unscheduled, unscheduled, stepCompletion, schedule_tbs, updateTb_self, take_tbs,
            TBState.complete_localStep, TBState.complete_busy, hbusy, if_pos rfl,
            if_neg Bool.false_ne_true, Nat.add_zero]
        · apply unscheduled_congr
          · rw [stepCompletion, schedule_tbs, updateTb_of_ne _ _ (Nat.cast_injective.ne hb), take_tbs]
          · rw [stepCompletion, schedule_tbs, updateTb_of_ne _ _ (Nat.cast_injective.ne hb), take_tbs]
      apply work_lt_of_same hsame
      rw [stepCompletion, schedule_pending, List.map_append, List.sum_append, updateTb_pending,
        schedule_running, updateTb_running, take_pending, take_running, sum_weight_try,
        List.length_cons, take_tbs, ← herase, weight]
      omega
  | @finish bid sid hmem =>
      have hlen := List.length_erase_of_mem hmem
      have hpos := List.length_pos_of_mem hmem
      have hmul : (algo.nBlocks + 3) * s.running.length =
          (algo.nBlocks + 3) * (s.running.erase (bid, sid)).length + (algo.nBlocks + 3) := by
        rw [← Nat.mul_succ, hlen]
        congr 1
        omega
      refine work_lt_of_same (fun b _ => rfl) ?_
      rw [schedule_pending, List.map_append, List.sum_append, schedule_running, List.map_singleton,
        List.sum_singleton, weight, hmul]
      show (s.pending.map (weight algo)).sum + (algo.nBlocks + 2) +
        (algo.nBlocks + 3) * (s.running.erase (bid, sid)).length < _
      omega

/-- Every transfer is of a type that `RunStep` implements. -/
def AllImplemented (algo : MscclAlgorithm) : Prop :=
  ∀ b < algo.nBlocks, ∀ tran ∈ (algo.mscclTBs b).transfers, Implemented tran.type

/-- Nothing is left to happen. -/
def Complete (s : Interpreter) : Prop := s.pending = [] ∧ s.running = []

instance : DecidablePred Complete := fun s =>
  inferInstanceAs (Decidable (s.pending = [] ∧ s.running = []))

theorem runStep_of_implemented {s : Interpreter} {bid sid : Nat} {tran : MscclTransfer}
    (htran : (algo.mscclTBs bid).transfers[sid]? = some tran) (himp : Implemented tran.type) :
    runStep algo bid sid s = some { s with running := s.running ++ [(bid, sid)] } := by
  simp only [runStep, htran]
  cases htype : tran.type
  all_goals rw [htype] at himp
  all_goals exact False.elim himp

theorem exists_step (himp : AllImplemented algo) {s : Interpreter} (hacc : Accounted algo s)
    (hrange : InRange algo s) (h : ¬ Complete s) : ∃ a s', step algo s a = some s' := by
  cases hpending : s.pending with
  | cons e es =>
      have hmem : e ∈ s.pending := by
        rw [hpending]
        exact List.mem_cons_self
      cases e with
      | tryScheduleNextStep bid =>
          exact ⟨.fire (.tryScheduleNextStep bid), _, by rw [step, if_pos hmem]⟩
      | stepCompletion bid sid =>
          exact ⟨.fire (.stepCompletion bid sid), _, by rw [step, if_pos hmem]⟩
      | runStep bid sid =>
          obtain ⟨hbusy, rfl⟩ := hacc.of_runStep hmem
          have hlt := hacc.busy_lt bid hbusy
          have himp := himp bid (hrange.pending _ hmem) _ (List.getElem_mem hlt)
          refine ⟨.fire (.runStep bid (s.tbs bid).localStep),
            { s.take (.runStep bid (s.tbs bid).localStep) with
              running := s.running ++ [(bid, (s.tbs bid).localStep)] }, ?_⟩
          rw [step, if_pos hmem]
          exact runStep_of_implemented (List.getElem?_eq_getElem hlt) himp
  | nil =>
      cases hrunning : s.running with
      | cons p ps =>
          refine ⟨.finish p.1 p.2, _, by
            rw [step, if_pos (by rw [hrunning]; exact List.mem_cons_self)]⟩
      | nil => exact absurd ⟨hpending, hrunning⟩ h

/-- From every state of a run, the run can be brought to its end. -/
theorem exists_complete (himp : AllImplemented algo) {s : Interpreter} (hacc : Accounted algo s)
    (hrange : InRange algo s) (hunr : s.Unrepeated) :
    ∃ bs t, Run (step algo) anyEvent s bs t ∧ Complete t := by
  induction hwork : work algo s using Nat.strong_induction_on generalizing s with
  | _ n ih =>
      by_cases hdone : Complete s
      · exact ⟨[], s, .nil s, hdone⟩
      · obtain ⟨a, s', hstep⟩ := exists_step himp hacc hrange hdone
        have hcase := step_cases algo hstep
        have hlt := hcase.work_lt hacc hrange hunr
        obtain ⟨bs, t, hrun, ht⟩ := ih (work algo s') (by omega) (hacc.step hcase)
          (hrange.step hcase) (hunr.step hcase) rfl
        exact ⟨a :: bs, t, .cons trivial hstep hrun, ht⟩

/-- A run is no longer than the work there is. -/
theorem run_length_le {s t : Interpreter} {as : List Action} (hacc : Accounted algo s)
    (hrange : InRange algo s) (hunr : s.Unrepeated) (hrun : Run (step algo) anyEvent s as t) :
    as.length ≤ work algo s := by
  induction hrun with
  | nil s => exact Nat.zero_le _
  | cons _ hstep _ ih =>
      have hcase := step_cases algo hstep
      have hlt := hcase.work_lt hacc hrange hunr
      have hle := ih (hacc.step hcase) (hrange.step hcase) (hunr.step hcase)
      rw [List.length_cons]
      omega

end Interpreter

end CollectiveSim.Msccl
