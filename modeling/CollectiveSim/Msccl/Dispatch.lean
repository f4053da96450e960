import Mathlib
import CollectiveSim.Msccl.Interpreter

/-!
# Transfers in flight

A busy thread block has at most its current transfer in flight: scheduled, running or about to be
reported. From this, what a run dispatches and completes for a thread block is `0, 1, 2, …`.
-/

namespace CollectiveSim.Msccl

open Framework

namespace Interpreter

variable {algo : MscclAlgorithm}

/-- How often transfer `sid` of `bid` is scheduled, running or about to be reported. -/
def inflight (s : Interpreter) (bid sid : Nat) : Nat :=
  s.pending.count (.runStep bid sid) + s.running.count (bid, sid) +
    s.pending.count (.stepCompletion bid sid)

section

variable (s : Interpreter) (bid sid b i : Nat)

theorem inflight_updateTb (z : Int) (f : TBState → TBState) :
    (s.updateTb z f).inflight b i = s.inflight b i := rfl

theorem inflight_schedule (es : List Event) : (s.schedule es).inflight b i =
    s.inflight b i + es.count (.runStep b i) + es.count (.stepCompletion b i) := by
  rw [inflight, inflight, schedule_pending, schedule_running, List.count_append, List.count_append]
  omega

theorem inflight_take_try :
    (s.take (.tryScheduleNextStep bid)).inflight b i = s.inflight b i := by
  rw [inflight, inflight, take_pending, take_running, List.count_erase_of_ne (by simp),
    List.count_erase_of_ne (by simp)]

theorem inflight_take {e : Event} (he : e = .runStep bid sid ∨ e = .stepCompletion bid sid)
    (h : e ∈ s.pending) :
    (s.take e).inflight b i + (if b = bid ∧ i = sid then 1 else 0) = s.inflight b i := by
  have hpos := List.count_pos_iff.mpr h
  rw [inflight, inflight, take_pending, take_running, List.count_erase, List.count_erase]
  by_cases heq : b = bid ∧ i = sid
  · obtain ⟨rfl, rfl⟩ := heq
    obtain rfl | rfl := he <;> simp <;> omega
  · obtain ⟨hrun, hdone⟩ : e ≠ .runStep b i ∧ e ≠ .stepCompletion b i := by
      obtain rfl | rfl := he <;> simp <;> tauto
    rw [if_neg heq, beq_false_of_ne hrun, beq_false_of_ne hdone]
    simp

theorem count_try (es : List Nat) :
    (es.map Event.tryScheduleNextStep).count (.runStep b i) = 0 ∧
    (es.map Event.tryScheduleNextStep).count (.stepCompletion b i) = 0 := by
  constructor
  · apply List.count_eq_zero.mpr
    simp
  · apply List.count_eq_zero.mpr
    simp

theorem inflight_start (h : .runStep bid sid ∈ s.pending) :
    inflight { s.take (.runStep bid sid) with running := s.running ++ [(bid, sid)] } b i =
      s.inflight b i := by
  have htake := s.inflight_take bid sid b i (.inl rfl) h
  have hrun : inflight { s.take (.runStep bid sid) with running := s.running ++ [(bid, sid)] } b i =
      (s.take (.runStep bid sid)).inflight b i + [(bid, sid)].count (b, i) := by
    rw [inflight, inflight, List.count_append]
    simp only [take_pending, take_running]
    omega
  rw [hrun, ← htake, List.count_singleton]
  by_cases heq : b = bid ∧ i = sid
  · obtain ⟨rfl, rfl⟩ := heq
    simp
  · have hne : ¬ ((bid, sid) == (b, i)) = true := by
      rw [beq_iff_eq, Prod.mk.injEq]
      rintro ⟨rfl, rfl⟩
      exact heq ⟨rfl, rfl⟩
    rw [if_neg hne, if_neg heq]

theorem inflight_finish (h : (bid, sid) ∈ s.running) :
    ({ s with running := s.running.erase (bid, sid) }.schedule [.stepCompletion bid sid]).inflight
      b i = s.inflight b i := by
  have hpos := List.count_pos_iff.mpr h
  rw [inflight_schedule, inflight, inflight, List.count_erase, List.count_singleton,
    List.count_singleton]
  by_cases heq : b = bid ∧ i = sid
  · obtain ⟨rfl, rfl⟩ := heq
    simp
    omega
  · have hne : ¬ ((bid, sid) == (b, i)) = true := by
      rw [beq_iff_eq, Prod.mk.injEq]
      rintro ⟨rfl, rfl⟩
      exact heq ⟨rfl, rfl⟩
    have hne' : ¬ (Event.stepCompletion bid sid == .stepCompletion b i) = true := by
      rw [beq_iff_eq, Event.stepCompletion.injEq]
      rintro ⟨rfl, rfl⟩
      exact heq ⟨rfl, rfl⟩
    rw [if_neg hne, if_neg hne']
    simp

end

/-- At most the current transfer of a busy thread block is in flight, once. -/
structure Accounted (algo : MscclAlgorithm) (s : Interpreter) : Prop where
  inflight_le : ∀ b i : Nat, s.inflight b i ≤ 1
  current : ∀ b i : Nat, 0 < s.inflight b i → (s.tbs b).busy = true ∧ i = (s.tbs b).localStep
  localStep_le : ∀ b : Nat, (s.tbs b).localStep ≤ (algo.mscclTBs b).nsteps
  busy_lt : ∀ b : Nat, (s.tbs b).busy = true → (s.tbs b).localStep < (algo.mscclTBs b).nsteps

namespace Accounted

variable {s s' : Interpreter}

theorem initial (h : interpretAlgo algo = some s) : Accounted algo s := by
  obtain ⟨-, rfl⟩ := (interpretAlgo_eq_some algo).mp h
  have hzero (b i : Nat) : inflight
      ⟨fun _ => .new, (List.range algo.nBlocks).map .tryScheduleNextStep, []⟩ b i = 0 := by
    have hcount := count_try b i (List.range algo.nBlocks)
    rw [inflight]
    simp only [hcount.1, hcount.2, List.count_nil]
  refine ⟨fun b i => (hzero b i).trans_le (Nat.zero_le 1), fun b i hpos => ?_,
    fun b => Nat.zero_le _, fun b hb => by cases hb⟩
  rw [hzero] at hpos
  cases hpos

theorem of_runStep {b i : Nat} (h : Accounted algo s) (hmem : .runStep b i ∈ s.pending) :
    (s.tbs b).busy = true ∧ i = (s.tbs b).localStep := by
  have hpos := List.count_pos_iff.mpr hmem
  exact h.current b i (by rw [inflight]; omega)

theorem of_running {b i : Nat} (h : Accounted algo s) (hmem : (b, i) ∈ s.running) :
    (s.tbs b).busy = true ∧ i = (s.tbs b).localStep := by
  have hpos := List.count_pos_iff.mpr hmem
  exact h.current b i (by rw [inflight]; omega)

theorem of_stepCompletion {b i : Nat} (h : Accounted algo s)
    (hmem : .stepCompletion b i ∈ s.pending) :
    (s.tbs b).busy = true ∧ i = (s.tbs b).localStep := by
  have hpos := List.count_pos_iff.mpr hmem
  exact h.current b i (by rw [inflight]; omega)

theorem of_same (h : Accounted algo s) (hle : ∀ b i, s'.inflight b i ≤ s.inflight b i)
    (hbusy : ∀ b : Nat, (s'.tbs b).busy = (s.tbs b).busy)
    (hlocal : ∀ b : Nat, (s'.tbs b).localStep = (s.tbs b).localStep) : Accounted algo s' where
  inflight_le b i := Nat.le_trans (hle b i) (h.inflight_le b i)
  current b i hpos := by
    rw [hbusy, hlocal]
    exact h.current b i (Nat.lt_of_lt_of_le hpos (hle b i))
  localStep_le b := by
    rw [hlocal]
    exact h.localStep_le b
  busy_lt b hb := by
    rw [hbusy] at hb
    rw [hlocal]
    exact h.busy_lt b hb

theorem dispatch {bid : Nat} {tran : MscclTransfer} (h : Accounted algo s)
    (hbusy : (s.tbs bid).busy = false)
    (htran : (algo.mscclTBs bid).transfers[(s.tbs bid).localStep]? = some tran) :
    Accounted algo (((s.take (.tryScheduleNextStep bid)).updateTb bid
      (.dispatch tran.numDependences)).schedule [.runStep bid (s.tbs bid).localStep]) := by
  have hlt : (s.tbs bid).localStep < (algo.mscclTBs bid).nsteps :=
    (List.getElem?_eq_some_iff.mp htran).1
  have hzero (i : Nat) : s.inflight bid i = 0 := by
    by_contra hne
    have hcur := h.current bid i (Nat.pos_of_ne_zero hne)
    rw [hbusy] at hcur
    exact absurd hcur.1 Bool.false_ne_true
  have hself : ((s.take (.tryScheduleNextStep bid)).updateTb bid (.dispatch tran.numDependences)).tbs
      bid = (s.tbs bid).dispatch tran.numDependences := updateTb_self ..
  have hother {b : Nat} (hb : b ≠ bid) : ((s.take (.tryScheduleNextStep bid)).updateTb bid
      (.dispatch tran.numDependences)).tbs b = s.tbs b :=
    updateTb_of_ne _ _ (Nat.cast_injective.ne hb)
  have hinflight (b i : Nat) : (((s.take (.tryScheduleNextStep bid)).updateTb bid
      (.dispatch tran.numDependences)).schedule [.runStep bid (s.tbs bid).localStep]).inflight b i =
      s.inflight b i + [Event.runStep bid (s.tbs bid).localStep].count (.runStep b i) := by
    rw [inflight_schedule, inflight_updateTb, inflight_take_try, List.count_singleton,
      List.count_singleton]
    simp
  refine ⟨fun b i => ?_, fun b i hpos => ?_, fun b => ?_, fun b hb => ?_⟩
  · rw [hinflight, List.count_singleton]
    by_cases hb : b = bid
    · rw [hb, hzero i]
      split <;> decide
    · have hne : ¬ (Event.runStep bid (s.tbs bid).localStep == .runStep b i) = true := by
        simp [Ne.symm hb]
      rw [if_neg hne]
      exact h.inflight_le b i
  · rw [hinflight, List.count_singleton] at hpos
    rw [schedule_tbs]
    by_cases hb : b = bid
    · rw [hb, hzero i] at hpos
      rw [hb, hself]
      refine ⟨rfl, ?_⟩
      by_contra hi
      have hne : ¬ (Event.runStep bid (s.tbs bid).localStep == .runStep bid i) = true := by
        simpa using Ne.symm hi
      rw [if_neg hne] at hpos
      cases hpos
    · have hne : ¬ (Event.runStep bid (s.tbs bid).localStep == .runStep b i) = true := by
        simp [Ne.symm hb]
      rw [if_neg hne] at hpos
      rw [hother hb]
      exact h.current b i hpos
  · rw [schedule_tbs]
    by_cases hb : b = bid
    · rw [hb, hself]
      exact h.localStep_le bid
    · rw [hother hb]
      exact h.localStep_le b
  · rw [schedule_tbs] at hb ⊢
    by_cases hbb : b = bid
    · rw [hbb, hself]
      exact hlt
    · rw [hother hbb] at hb ⊢
      exact h.busy_lt b hb

theorem complete {bid sid : Nat} (h : Accounted algo s)
    (hmem : .stepCompletion bid sid ∈ s.pending) :
    Accounted algo (stepCompletion bid (s.take (.stepCompletion bid sid))) := by
  obtain ⟨hbusy, hsid⟩ := h.of_stepCompletion hmem
  have hlt := h.busy_lt bid hbusy
  have hself : (stepCompletion bid (s.take (.stepCompletion bid sid))).tbs bid =
      (s.tbs bid).complete := updateTb_self ..
  have hother {b : Nat} (hb : b ≠ bid) :
      (stepCompletion bid (s.take (.stepCompletion bid sid))).tbs b = s.tbs b :=
    updateTb_of_ne _ _ (Nat.cast_injective.ne hb)
  have hinflight (b i : Nat) :
      (stepCompletion bid (s.take (.stepCompletion bid sid))).inflight b i +
        (if b = bid ∧ i = sid then 1 else 0) = s.inflight b i := by
    have hcount := count_try b i (bid :: (s.tbs bid).tryReschedule)
    rw [stepCompletion, inflight_schedule, inflight_updateTb, take_tbs, hcount.1, hcount.2]
    exact inflight_take _ _ _ b i (.inr rfl) hmem
  refine ⟨fun b i => ?_, fun b i hpos => ?_, fun b => ?_, fun b hb => ?_⟩
  · exact Nat.le_trans (Nat.le_add_right _ _) ((hinflight b i).trans_le (h.inflight_le b i))
  · have hle := h.inflight_le b i
    have heq := hinflight b i
    obtain ⟨hb, hi⟩ := h.current b i (by omega)
    by_cases hbb : b = bid
    · -- the only one in flight is the one reported
      rw [hbb] at hi heq hpos hle
      rw [if_pos ⟨rfl, hi.trans hsid.symm⟩] at heq
      omega
    · rw [hother hbb]
      exact ⟨hb, hi⟩
  · by_cases hb : b = bid
    · rw [hb, hself]
      exact hlt
    · rw [hother hb]
      exact h.localStep_le b
  · by_cases hbb : b = bid
    · rw [hbb, hself] at hb
      cases hb
    · rw [hother hbb] at hb ⊢
      exact h.busy_lt b hb

theorem step (h : Accounted algo s) {a : Action} (hstep : Step algo s a s') :
    Accounted algo s' := by
  cases hstep with
  | idle hmem hidle =>
      exact h.of_same (fun b i => (inflight_take_try ..).le) (fun b => rfl) fun b => rfl
  | @block bid tran dep hmem hbusy htran hdep =>
      apply h.of_same
      · intro b i
        rw [inflight_updateTb, inflight_take_try]
      · intro b
        exact updateTb_proj _ _ (.insertTry bid) TBState.busy (fun _ => rfl) b
      · intro b
        exact updateTb_proj _ _ (.insertTry bid) TBState.localStep (fun _ => rfl) b
  | dispatch hmem hbusy htran hdep => exact h.dispatch hbusy htran
  | start hmem htran htype =>
      exact h.of_same (fun b i => (inflight_start _ _ _ b i hmem).le) (fun b => rfl) fun b => rfl
  | ignore hmem htran htype =>
      apply h.of_same
      · intro b i
        have htake := inflight_take _ _ _ b i (.inl rfl) hmem
        omega
      · exact fun b => rfl
      · exact fun b => rfl
  | complete hmem => exact h.complete hmem
  | finish hmem =>
      exact h.of_same (fun b i => (inflight_finish _ _ _ b i hmem).le) (fun b => rfl) fun b => rfl

theorem run (h : Accounted algo s) {as : List Action}
    (hrun : Run (Interpreter.step algo) anyEvent s as s') : Accounted algo s' :=
  hrun.invariant (fun _ _ _ hs _ hstep => hs.step (Interpreter.step_cases algo hstep)) h

end Accounted

/-! ### What a run dispatches and completes -/

/-- The transfer that `RunStep` is called for next. -/
def nextDispatch (s : Interpreter) (bid : Nat) : Nat :=
  (s.tbs bid).localStep +
    if (s.tbs bid).busy = true ∧ .runStep bid (s.tbs bid).localStep ∉ s.pending then 1 else 0

theorem Step.localStep_eq {s s' : Interpreter} {a : Action} (h : Step algo s a s') (b : Nat)
    (hnot : a.completes b = none) : (s'.tbs b).localStep = (s.tbs b).localStep := by
  cases h with
  | idle hmem hidle => rfl
  | @block bid tran dep hmem hbusy htran hdep =>
      exact updateTb_proj _ _ (.insertTry bid) TBState.localStep (fun _ => rfl) b
  | @dispatch bid tran hmem hbusy htran hdep =>
      exact updateTb_proj _ _ (.dispatch tran.numDependences) TBState.localStep (fun _ => rfl) b
  | start hmem htran htype => rfl
  | ignore hmem htran htype => rfl
  | @complete bid sid hmem =>
      by_cases hb : bid = b
      · rw [Action.completes, if_pos hb] at hnot
        cases hnot
      · have hne : (b : Int) ≠ bid := Nat.cast_injective.ne (Ne.symm hb)
        rw [stepCompletion, schedule_tbs, updateTb_of_ne _ _ hne]
        rfl
  | finish hmem => rfl

theorem Step.completes_cases {s s' : Interpreter} {a : Action} (h : Step algo s a s')
    (hacc : Accounted algo s) (b : Nat) :
    (a.completes b = none ∧ (s'.tbs b).localStep = (s.tbs b).localStep) ∨
    (a.completes b = some (s.tbs b).localStep ∧
      (s'.tbs b).localStep = (s.tbs b).localStep + 1) := by
  cases hnote : a.completes b with
  | none => exact Or.inl ⟨rfl, h.localStep_eq b hnote⟩
  | some sid =>
      right
      cases h with
      | @complete bid i hmem =>
          rw [Action.completes] at hnote
          by_cases hb : bid = b
          · rw [if_pos hb, Option.some_inj] at hnote
            obtain ⟨-, hsid⟩ := hacc.of_stepCompletion hmem
            rw [hb] at hsid
            refine ⟨by rw [← hnote, hsid], ?_⟩
            rw [stepCompletion, schedule_tbs, hb, updateTb_self]
            rfl
          · rw [if_neg hb] at hnote
            cases hnote
      | _ => cases hnote

/-- The transfers of a thread block are reported complete in order, each once. -/
theorem completed_eq {s s' : Interpreter} {as : List Action} (h : Accounted algo s)
    (hrun : Run (step algo) anyEvent s as s') (b : Nat) :
    (s.tbs b).localStep ≤ (s'.tbs b).localStep ∧
    as.filterMap (Action.completes b) = List.range' (s.tbs b).localStep
      ((s'.tbs b).localStep - (s.tbs b).localStep) :=
  hrun.filterMap_eq_range' (Accounted algo) (Action.completes b) (fun s => (s.tbs b).localStep)
    (fun _ _ _ hs _ hstep =>
      ⟨hs.step (step_cases algo hstep), (step_cases algo hstep).completes_cases hs b⟩) h

theorem nextDispatch_congr {s s' : Interpreter} {b : Nat} (htb : (s'.tbs b).busy = (s.tbs b).busy)
    (hlocal : (s'.tbs b).localStep = (s.tbs b).localStep)
    (hmem : ∀ i, .runStep b i ∈ s'.pending ↔ .runStep b i ∈ s.pending) :
    s'.nextDispatch b = s.nextDispatch b := by
  simp only [nextDispatch, htb, hlocal, hmem]

theorem nextDispatch_of_mem {s : Interpreter} {b : Nat}
    (hmem : .runStep b (s.tbs b).localStep ∈ s.pending) :
    s.nextDispatch b = (s.tbs b).localStep := by
  rw [nextDispatch, if_neg fun h => h.2 hmem]
  rfl

theorem nextDispatch_of_not_mem {s : Interpreter} {b : Nat} (hbusy : (s.tbs b).busy = true)
    (hmem : .runStep b (s.tbs b).localStep ∉ s.pending) :
    s.nextDispatch b = (s.tbs b).localStep + 1 := by
  rw [nextDispatch, if_pos ⟨hbusy, hmem⟩]

theorem nextDispatch_of_idle {s : Interpreter} {b : Nat} (hbusy : (s.tbs b).busy = false) :
    s.nextDispatch b = (s.tbs b).localStep := by
  rw [nextDispatch, hbusy, if_neg fun h => absurd h.1 Bool.false_ne_true]
  rfl

theorem nextDispatch_take {s : Interpreter} (hacc : Accounted algo s) {bid sid : Nat}
    (hmem : .runStep bid sid ∈ s.pending) (b : Nat) :
    ((Action.fire (.runStep bid sid)).dispatches b = none ∧
      (s.take (.runStep bid sid)).nextDispatch b = s.nextDispatch b) ∨
    ((Action.fire (.runStep bid sid)).dispatches b = some (s.nextDispatch b) ∧
      (s.take (.runStep bid sid)).nextDispatch b = s.nextDispatch b + 1) := by
  rw [Action.dispatches]
  by_cases hb : bid = b
  · subst hb
    right
    obtain ⟨hbusy, hsid⟩ := hacc.of_runStep hmem
    have hone := hacc.inflight_le bid sid
    have htake := inflight_take s bid sid bid sid (.inl rfl) hmem
    rw [if_pos ⟨rfl, rfl⟩] at htake
    have hgone : .runStep bid ((s.take (.runStep bid sid)).tbs bid).localStep ∉
        (s.take (.runStep bid sid)).pending := by
      rw [take_tbs, ← hsid]
      intro hagain
      have hpos := List.count_pos_iff.mpr hagain
      rw [inflight] at htake
      omega
    have hbusy' : ((s.take (.runStep bid sid)).tbs bid).busy = true := hbusy
    rw [if_pos rfl, nextDispatch_of_mem (hsid ▸ hmem), ← hsid, nextDispatch_of_not_mem hbusy' hgone,
      take_tbs, ← hsid]
    exact ⟨rfl, rfl⟩
  · left
    rw [if_neg hb]
    refine ⟨rfl, nextDispatch_congr rfl rfl fun i => ?_⟩
    have hne : Event.runStep b i ≠ .runStep bid sid := by
      simp [Ne.symm hb]
    rw [take_pending, List.mem_erase_of_ne hne]

theorem Step.dispatches_cases {s s' : Interpreter} {a : Action} (h : Step algo s a s')
    (hacc : Accounted algo s) (b : Nat) :
    (a.dispatches b = none ∧ s'.nextDispatch b = s.nextDispatch b) ∨
    (a.dispatches b = some (s.nextDispatch b) ∧ s'.nextDispatch b = s.nextDispatch b + 1) := by
  have htry (bid i : Nat) : Event.runStep b i ∈ s.pending.erase (.tryScheduleNextStep bid) ↔
      Event.runStep b i ∈ s.pending := List.mem_erase_of_ne (by simp)
  cases h with
  | @idle bid hmem hidle => exact Or.inl ⟨rfl, nextDispatch_congr rfl rfl (htry bid)⟩
  | @block bid tran dep hmem hbusy htran hdep =>
      refine Or.inl ⟨rfl, nextDispatch_congr ?_ ?_ (htry bid)⟩
      · exact updateTb_proj _ _ (.insertTry bid) TBState.busy (fun _ => rfl) b
      · exact updateTb_proj _ _ (.insertTry bid) TBState.localStep (fun _ => rfl) b
  | @dispatch bid tran hmem hbusy htran hdep =>
      refine Or.inl ⟨rfl, ?_⟩
      by_cases hb : b = bid
      · subst hb
        rw [nextDispatch_of_idle hbusy, nextDispatch_of_mem, schedule_tbs, updateTb_self]
        · rfl
        · simp
      · have hne : (b : Int) ≠ bid := Nat.cast_injective.ne hb
        apply nextDispatch_congr
        · rw [schedule_tbs, updateTb_of_ne _ _ hne, take_tbs]
        · rw [schedule_tbs, updateTb_of_ne _ _ hne, take_tbs]
        · intro i
          rw [schedule_pending, updateTb_pending, List.mem_append, take_pending, htry bid]
          simp [hb]
  | start hmem htran htype => exact nextDispatch_take hacc hmem b
  | ignore hmem htran htype => exact nextDispatch_take hacc hmem b
  | @complete bid sid hmem =>
      refine Or.inl ⟨rfl, ?_⟩
      by_cases hb : b = bid
      · subst hb
        obtain ⟨hbusy, hsid⟩ := hacc.of_stepCompletion hmem
        have hone := hacc.inflight_le b sid
        have hpos := List.count_pos_iff.mpr hmem
        have hnot : .runStep b (s.tbs b).localStep ∉ s.pending := by
          intro hrun
          have hpos' := List.count_pos_iff.mpr hrun
          rw [inflight, hsid] at hone
          rw [hsid] at hpos
          omega
        rw [nextDispatch_of_not_mem hbusy hnot, nextDispatch_of_idle]
        · rw [stepCompletion, schedule_tbs, updateTb_self]
          rfl
        · rw [stepCompletion, schedule_tbs, updateTb_self]
          rfl
      · have hne : (b : Int) ≠ bid := Nat.cast_injective.ne hb
        apply nextDispatch_congr
        · rw [stepCompletion, schedule_tbs, updateTb_of_ne _ _ hne, take_tbs]
        · rw [stepCompletion, schedule_tbs, updateTb_of_ne _ _ hne, take_tbs]
        · intro i
          rw [stepCompletion, schedule_pending, updateTb_pending, List.mem_append, take_pending,
            List.mem_erase_of_ne (by simp)]
          simp
  | @finish bid sid hmem =>
      refine Or.inl ⟨rfl, nextDispatch_congr rfl rfl fun i => ?_⟩
      rw [schedule_pending, List.mem_append]
      simp

/-- `RunStep` is called for the transfers of a thread block in order, once each. -/
theorem dispatched_eq {s s' : Interpreter} {as : List Action} (h : Accounted algo s)
    (hrun : Run (step algo) anyEvent s as s') (b : Nat) :
    s.nextDispatch b ≤ s'.nextDispatch b ∧
    as.filterMap (Action.dispatches b) = List.range' (s.nextDispatch b)
      (s'.nextDispatch b - s.nextDispatch b) :=
  hrun.filterMap_eq_range' (Accounted algo) (Action.dispatches b) (fun s => s.nextDispatch b)
    (fun _ _ _ hs _ hstep =>
      ⟨hs.step (step_cases algo hstep), (step_cases algo hstep).dispatches_cases hs b⟩) h

end Interpreter

end CollectiveSim.Msccl
