import Mathlib
import CollectiveSim.Msccl.Dependency

/-!
# How far a thread block is

A transfer is scheduled, dispatched by `RunStep`, finished and reported, in this order. For each thread
block at most the current transfer is between the first and the last of these.
-/

namespace CollectiveSim.Msccl

open Framework

namespace Interpreter

variable {algo : MscclAlgorithm}

/-- The number of finished transfers, the last of which may not be reported yet. -/
def nextFinish (s : Interpreter) (b : Nat) : Nat :=
  if .stepCompletion b (s.tbs b).localStep ∈ s.pending then (s.tbs b).localStep + 1
  else (s.tbs b).localStep

theorem nextFinish_congr {s s' : Interpreter} {b : Nat}
    (hlocal : (s'.tbs b).localStep = (s.tbs b).localStep)
    (hmem : ∀ i, .stepCompletion b i ∈ s'.pending ↔ .stepCompletion b i ∈ s.pending) :
    s'.nextFinish b = s.nextFinish b := by
  simp only [nextFinish, hlocal, hmem]

theorem localStep_le_nextFinish (s : Interpreter) (b : Nat) :
    (s.tbs b).localStep ≤ s.nextFinish b := by
  rw [nextFinish]
  split
  · exact Nat.le_succ _
  · exact Nat.le_refl _

theorem Accounted.nextFinish_le_nextDispatch {s : Interpreter} (h : Accounted algo s) (b : Nat) :
    s.nextFinish b ≤ s.nextDispatch b := by
  rw [nextFinish]
  by_cases hmem : .stepCompletion b (s.tbs b).localStep ∈ s.pending
  · obtain ⟨hbusy, -⟩ := h.of_stepCompletion hmem
    have hone := h.inflight_le b (s.tbs b).localStep
    have hpos := List.count_pos_iff.mpr hmem
    have hnot : .runStep b (s.tbs b).localStep ∉ s.pending := by
      intro hrun
      have hpos' := List.count_pos_iff.mpr hrun
      rw [inflight] at hone
      omega
    rw [if_pos hmem, nextDispatch_of_not_mem hbusy hnot]
  · rw [if_neg hmem, nextDispatch]
    split
    · exact Nat.le_succ _
    · exact Nat.le_refl _

namespace Accounted

variable {s : Interpreter} {b i : Nat}

theorem next_of_runStep (h : Accounted algo s) (hmem : .runStep b i ∈ s.pending) :
    s.nextDispatch b = i ∧ s.nextFinish b = i := by
  obtain ⟨hbusy, rfl⟩ := h.of_runStep hmem
  refine ⟨nextDispatch_of_mem hmem, Nat.le_antisymm ?_ (localStep_le_nextFinish s b)⟩
  have hle := h.nextFinish_le_nextDispatch b
  rwa [nextDispatch_of_mem hmem] at hle

theorem next_of_running (h : Accounted algo s) (hmem : (b, i) ∈ s.running) :
    s.nextDispatch b = i + 1 ∧ s.nextFinish b = i := by
  obtain ⟨hbusy, rfl⟩ := h.of_running hmem
  have hone := h.inflight_le b (s.tbs b).localStep
  have hpos := List.count_pos_iff.mpr hmem
  rw [inflight] at hone
  constructor
  · apply nextDispatch_of_not_mem hbusy
    intro hrun
    have hpos' := List.count_pos_iff.mpr hrun
    omega
  · rw [nextFinish, if_neg]
    intro hdone
    have hpos' := List.count_pos_iff.mpr hdone
    omega

end Accounted

/-! ### What the steps do to the progress -/

/-- An event of a thread block other than `RunStep` moves no transfer on. -/
structure Control (s s' : Interpreter) : Prop where
  running : s'.running = s.running
  nextDispatch : ∀ b, s'.nextDispatch b = s.nextDispatch b
  nextFinish : ∀ b, s'.nextFinish b = s.nextFinish b

theorem Step.nextFinish_fire {s s' : Interpreter} {e : Event} (h : Step algo s (.fire e) s')
    (hacc : Accounted algo s) (b : Nat) : s'.nextFinish b = s.nextFinish b := by
  have htry (bid i : Nat) : Event.stepCompletion b i ∈ s.pending.erase (.tryScheduleNextStep bid) ↔
      Event.stepCompletion b i ∈ s.pending := List.mem_erase_of_ne (by simp)
  have hrun (bid sid i : Nat) : Event.stepCompletion b i ∈ s.pending.erase (.runStep bid sid) ↔
      Event.stepCompletion b i ∈ s.pending := List.mem_erase_of_ne (by simp)
  cases h with
  | @idle bid hmem hidle => exact nextFinish_congr rfl (htry bid)
  | @block bid tran dep hmem hbusy htran hdep =>
      apply nextFinish_congr _ (htry bid)
      exact updateTb_proj _ _ (.insertTry bid) TBState.localStep (fun _ => rfl) b
  | @dispatch bid tran hmem hbusy htran hdep =>
      apply nextFinish_congr
      · exact updateTb_proj _ _ (.dispatch tran.numDependences) TBState.localStep (fun _ => rfl) b
      · intro i
        rw [schedule_pending, updateTb_pending, List.mem_append, take_pending, htry bid]
        simp
  | @start bid sid tran hmem htran htype => exact nextFinish_congr rfl (hrun bid sid)
  | @ignore bid sid tran hmem htran htype => exact nextFinish_congr rfl (hrun bid sid)
  | @complete bid sid hmem =>
      have hpending (i : Nat) :
          .stepCompletion b i ∈ (stepCompletion bid (s.take (.stepCompletion bid sid))).pending ↔
            .stepCompletion b i ∈ s.pending.erase (.stepCompletion bid sid) := by
        rw [stepCompletion, schedule_pending, updateTb_pending, List.mem_append, take_pending]
        simp
      by_cases hb : b = bid
      · subst hb
        obtain ⟨hbusy, rfl⟩ := hacc.of_stepCompletion hmem
        have hlocal : ((stepCompletion b (s.take (.stepCompletion b (s.tbs b).localStep))).tbs
            b).localStep = (s.tbs b).localStep + 1 := by
          rw [stepCompletion, schedule_tbs, updateTb_self]
          rfl
        have hgone : .stepCompletion b ((s.tbs b).localStep + 1) ∉ s.pending := by
          intro hagain
          have hcur := (hacc.of_stepCompletion hagain).2
          omega
        rw [nextFinish, nextFinish, if_pos hmem, hlocal, if_neg]
        rw [hpending]
        exact fun h => hgone (List.mem_of_mem_erase h)
      · apply nextFinish_congr
        · rw [stepCompletion, schedule_tbs, updateTb_of_ne _ _ (Nat.cast_injective.ne hb), take_tbs]
        · intro i
          rw [hpending, List.mem_erase_of_ne (by simp [hb])]

theorem Step.control {s s' : Interpreter} {e : Event} (h : Step algo s (.fire e) s')
    (hacc : Accounted algo s) (hrun : ∀ bid sid, e ≠ .runStep bid sid) : Control s s' := by
  refine ⟨?_, fun b => ?_, h.nextFinish_fire hacc⟩
  · cases h with
    | idle hmem hidle => rfl
    | block hmem hbusy htran hdep => rfl
    | dispatch hmem hbusy htran hdep => rfl
    | start hmem htran htype => exact absurd rfl (hrun _ _)
    | ignore hmem htran htype => exact absurd rfl (hrun _ _)
    | complete hmem => rfl
  · rcases h.dispatches_cases hacc b with ⟨-, hsame⟩ | ⟨hnote, -⟩
    · exact hsame
    · cases e with
      | runStep bid sid => exact absurd rfl (hrun bid sid)
      | tryScheduleNextStep bid => cases hnote
      | stepCompletion bid sid => cases hnote

theorem Step.finished {s s' : Interpreter} {bid sid : Nat} (h : Step algo s (.finish bid sid) s')
    (hacc : Accounted algo s) (b : Nat) :
    s'.nextDispatch b = s.nextDispatch b ∧
      s'.nextFinish b = if b = bid then sid + 1 else s.nextFinish b := by
  cases h with
  | finish hmem =>
      constructor
      · refine nextDispatch_congr rfl rfl fun i => ?_
        rw [schedule_pending, List.mem_append]
        simp
      · obtain ⟨hbusy, hsid⟩ := hacc.of_running hmem
        by_cases hb : b = bid
        · subst hb
          rw [if_pos rfl, nextFinish, schedule_tbs, if_pos, hsid]
          rw [schedule_pending, ← hsid]
          exact List.mem_append_right _ List.mem_cons_self
        · rw [if_neg hb]
          refine nextFinish_congr rfl fun i => ?_
          rw [schedule_pending, List.mem_append]
          simp [hb]

theorem mem_running_start {s s' : Interpreter} {bid sid : Nat} {tran : MscclTransfer}
    (h : Step algo s (.fire (.runStep bid sid)) s')
    (htran : (algo.mscclTBs bid).transfers[sid]? = some tran) (htype : tran.type ≠ .resAdd) :
    s'.running = s.running ++ [(bid, sid)] := by
  cases h with
  | start hmem htran' htype' => rfl
  | ignore hmem htran' htype' =>
      obtain rfl := Option.some_inj.mp (htran.symm.trans htran')
      exact absurd htype' htype

end Interpreter

end CollectiveSim.Msccl
