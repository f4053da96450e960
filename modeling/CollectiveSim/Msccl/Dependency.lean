import Mathlib
import CollectiveSim.Msccl.Dispatch
import CollectiveSim.Msccl.Document

/-!
# Dependences are respected

The flag of a thread block is the number of the last XML step folded into what it has completed, so a
dependence on a step is met only when the transfer that covers the step is complete.
-/

namespace CollectiveSim.Msccl

open Framework

namespace MscclThreadBlock

/-- The number of XML steps that the transfers before `t` cover. -/
def start (tb : MscclThreadBlock) (t : Nat) : Nat :=
  ((tb.transfers.take t).map fun tran => max 1 tran.numDependences).sum

variable (tb : MscclThreadBlock)

@[simp] theorem start_zero : tb.start 0 = 0 := rfl

theorem start_succ {t : Nat} {tran : MscclTransfer} (h : tb.transfers[t]? = some tran) :
    tb.start (t + 1) = tb.start t + max 1 tran.numDependences := by
  rw [start, start, List.take_add_one, h]
  simp

theorem start_mono {t u : Nat} (h : t ≤ u) : tb.start t ≤ tb.start u := by
  have hsplit := List.take_append_drop t (tb.transfers.take u)
  rw [List.take_take, Nat.min_eq_left h] at hsplit
  rw [start, start, ← hsplit, List.map_append, List.sum_append]
  exact Nat.le_add_right _ _

theorem start_le (t : Nat) : tb.start t ≤ tb.start tb.nsteps := by
  by_cases h : t ≤ tb.nsteps
  · exact tb.start_mono h
  · have hall : tb.transfers.take t = tb.transfers.take tb.nsteps := by
      rw [List.take_of_length_le (Nat.le_of_lt (Nat.lt_of_not_le h)),
        List.take_of_length_le (Nat.le_refl tb.nsteps)]
    rw [start, start, hall]

end MscclThreadBlock

def Event.bid : Event → Nat
  | .tryScheduleNextStep bid => bid
  | .runStep bid _ => bid
  | .stepCompletion bid _ => bid

namespace Interpreter

variable {algo : MscclAlgorithm}

/-- Events and wait lists name thread blocks of the algorithm. -/
structure InRange (algo : MscclAlgorithm) (s : Interpreter) : Prop where
  pending : ∀ e ∈ s.pending, e.bid < algo.nBlocks
  running : ∀ p ∈ s.running, p.1 < algo.nBlocks
  waiting : ∀ z, ∀ b ∈ (s.tbs z).tryReschedule, b < algo.nBlocks

namespace InRange

variable {s s' : Interpreter}

theorem initial (h : interpretAlgo algo = some s) : InRange algo s := by
  obtain ⟨-, rfl⟩ := (interpretAlgo_eq_some algo).mp h
  refine ⟨fun e he => ?_, fun p hp => ?_, fun z b hb => ?_⟩
  · obtain ⟨b, hb, rfl⟩ := List.mem_map.mp he
    exact List.mem_range.mp hb
  · cases hp
  · cases hb

theorem take (h : InRange algo s) (e : Event) : InRange algo (s.take e) where
  pending e' he := h.pending e' (List.mem_of_mem_erase he)
  running := h.running
  waiting := h.waiting

theorem schedule (h : InRange algo s) {es : List Event} (hes : ∀ e ∈ es, e.bid < algo.nBlocks) :
    InRange algo (s.schedule es) where
  pending e he := by
    rcases List.mem_append.mp he with he | he
    · exact h.pending e he
    · exact hes e he
  running := h.running
  waiting := h.waiting

theorem updateTb (h : InRange algo s) {z : Int} {f : TBState → TBState}
    (hf : ∀ b ∈ (f (s.tbs z)).tryReschedule, b < algo.nBlocks) : InRange algo (s.updateTb z f) where
  pending := h.pending
  running := h.running
  waiting z' b hb := by
    by_cases hz : z' = z
    · rw [hz, updateTb_self] at hb
      exact hf b hb
    · rw [updateTb_of_ne _ _ hz] at hb
      exact h.waiting z' b hb

theorem step (h : InRange algo s) {a : Action} (hstep : Step algo s a s') : InRange algo s' := by
  cases hstep with
  | idle hmem hidle => exact h.take _
  | @block bid tran dep hmem hbusy htran hdep =>
      apply (h.take _).updateTb
      intro b hb
      rcases (TBState.mem_insertTry _ _).mp hb with rfl | hb
      · exact h.pending _ hmem
      · exact h.waiting _ b hb
  | @dispatch bid tran hmem hbusy htran hdep =>
      have hbid := h.pending _ hmem
      apply ((h.take _).updateTb _).schedule
      · intro e he
        rw [List.mem_singleton.mp he]
        exact hbid
      · exact h.waiting bid
  | @start bid sid tran hmem htran htype =>
      refine ⟨(h.take _).pending, fun p hp => ?_, h.waiting⟩
      rcases List.mem_append.mp hp with hp | hp
      · exact h.running p hp
      · rw [List.mem_singleton.mp hp]
        exact h.pending _ hmem
  | ignore hmem htran htype => exact h.take _
  | @complete bid sid hmem =>
      have hbid := h.pending _ hmem
      apply ((h.take _).updateTb _).schedule
      · intro e he
        obtain ⟨b, hb, rfl⟩ := List.mem_map.mp he
        rcases List.mem_cons.mp hb with rfl | hb
        · exact hbid
        · exact h.waiting _ b hb
      · intro b hb
        cases hb
  | @finish bid sid hmem =>
      refine ⟨fun e he => ?_, fun p hp => h.running p (List.mem_of_mem_erase hp), h.waiting⟩
      rcases List.mem_append.mp he with he | he
      · exact h.pending e he
      · rw [List.mem_singleton.mp he]
        exact h.running _ hmem

theorem run (h : InRange algo s) {as : List Action}
    (hrun : Run (Interpreter.step algo) anyEvent s as s') : InRange algo s' :=
  hrun.invariant (fun _ _ _ hs _ hstep => hs.step (Interpreter.step_cases algo hstep)) h

end InRange

/-! ### Flags and step counters -/

/-- All dependences of the transfer are met. -/
def Ready (s : Interpreter) (deps : List (Int × Int)) : Prop :=
  ∀ dep ∈ deps, computeFlag 0 0 dep.2 ≤ (s.tbs dep.1).flag

theorem ready_of_not_blocking {s : Interpreter} {deps : List (Int × Int)}
    (h : s.blocking deps = none) : s.Ready deps := by
  intro dep hdep
  have hnot := List.find?_eq_none.mp h dep hdep
  rw [decide_eq_true_iff] at hnot
  exact Int.not_lt.mp hnot

/-- The transfer has been scheduled. -/
def Started (s : Interpreter) (b i : Nat) : Prop :=
  i < (s.tbs b).localStep ∨ i = (s.tbs b).localStep ∧ (s.tbs b).busy = true

/-- No step number comes near the width of a flag. -/
def Bounded (algo : MscclAlgorithm) : Prop :=
  ∀ b < algo.nBlocks, (algo.mscclTBs b).start (algo.mscclTBs b).nsteps < 2 ^ 63

/-- The published flag is the number of the last step covered so far, and the step counter is that of
the transfer in flight or of the next step. -/
structure Flagged (algo : MscclAlgorithm) (s : Interpreter) : Prop where
  flag : ∀ b : Nat, b < algo.nBlocks →
    (s.tbs b).flag = (algo.mscclTBs b).start (s.tbs b).localStep - 1
  globalStep : ∀ b : Nat, b < algo.nBlocks → (s.tbs b).globalStep =
    if (s.tbs b).busy then ((algo.mscclTBs b).start ((s.tbs b).localStep + 1) : Int) - 1
    else (algo.mscclTBs b).start (s.tbs b).localStep
  unknown : ∀ z : Int, (∀ b : Nat, b < algo.nBlocks → z ≠ b) → (s.tbs z).flag = -1
  ready : ∀ (b i : Nat) (tran : MscclTransfer), s.Started b i →
    (algo.mscclTBs b).transfers[i]? = some tran → s.Ready ((algo.mscclTBs b).dependences tran)

namespace Flagged

variable {s s' : Interpreter}

theorem initial (h : interpretAlgo algo = some s) : Flagged algo s := by
  obtain ⟨-, rfl⟩ := (interpretAlgo_eq_some algo).mp h
  refine ⟨fun b _ => rfl, fun b _ => rfl, fun z _ => rfl, fun b i tran hstarted _ => ?_⟩
  rcases hstarted with hlt | ⟨-, hbusy⟩
  · cases hlt
  · cases hbusy

theorem of_same (h : Flagged algo s) (hflag : ∀ z, (s'.tbs z).flag = (s.tbs z).flag)
    (hglobal : ∀ b : Nat, (s'.tbs b).globalStep = (s.tbs b).globalStep)
    (hlocal : ∀ b : Nat, (s'.tbs b).localStep = (s.tbs b).localStep)
    (hbusy : ∀ b : Nat, (s'.tbs b).busy = (s.tbs b).busy) : Flagged algo s' where
  flag b hb := by rw [hflag, hlocal, h.flag b hb]
  globalStep b hb := by rw [hglobal, hlocal, hbusy, h.globalStep b hb]
  unknown z hz := by rw [hflag, h.unknown z hz]
  ready b i tran hstarted htran dep hdep := by
    rw [Started, hlocal, hbusy] at hstarted
    rw [hflag]
    exact h.ready b i tran hstarted htran dep hdep

theorem dispatch (h : Flagged algo s) {bid : Nat} {tran : MscclTransfer}
    (hbusy : (s.tbs bid).busy = false)
    (htran : (algo.mscclTBs bid).transfers[(s.tbs bid).localStep]? = some tran)
    (hdep : s.blocking ((algo.mscclTBs bid).dependences tran) = none) :
    Flagged algo (((s.take (.tryScheduleNextStep bid)).updateTb bid
      (.dispatch tran.numDependences)).schedule [.runStep bid (s.tbs bid).localStep]) := by
  have hflag (z : Int) : (((s.take (.tryScheduleNextStep bid)).updateTb bid
      (.dispatch tran.numDependences)).tbs z).flag = (s.tbs z).flag :=
    updateTb_proj _ _ (.dispatch tran.numDependences) TBState.flag (fun _ => rfl) z
  have hlocal (z : Int) : (((s.take (.tryScheduleNextStep bid)).updateTb bid
      (.dispatch tran.numDependences)).tbs z).localStep = (s.tbs z).localStep :=
    updateTb_proj _ _ (.dispatch tran.numDependences) TBState.localStep (fun _ => rfl) z
  refine ⟨fun b hb => ?_, fun b hb => ?_, fun z hz => ?_,
    fun b i tran' hstarted htran' dep hdep' => ?_⟩
  · rw [schedule_tbs, hflag, hlocal, h.flag b hb]
  · rw [schedule_tbs, hlocal]
    by_cases hbb : b = bid
    · rw [hbb] at hb ⊢
      have hglobal := h.globalStep bid hb
      rw [hbusy, if_neg Bool.false_ne_true] at hglobal
      rw [updateTb_self, TBState.dispatch_busy, if_pos rfl, MscclThreadBlock.start_succ _ htran,
        take_tbs, TBState.dispatch, hglobal]
      split
      · push_cast
        omega
      · push_cast
        omega
    · rw [updateTb_of_ne _ _ (Nat.cast_injective.ne hbb), take_tbs]
      exact h.globalStep b hb
  · rw [schedule_tbs, hflag, h.unknown z hz]
  · rw [Started, schedule_tbs, hlocal] at hstarted
    rw [schedule_tbs, hflag]
    rcases hstarted with hlt | ⟨rfl, hbusy'⟩
    · exact h.ready b i tran' (Or.inl hlt) htran' dep hdep'
    · by_cases hbb : b = bid
      · subst hbb
        obtain rfl := Option.some_inj.mp (htran.symm.trans htran')
        exact ready_of_not_blocking hdep dep hdep'
      · rw [updateTb_of_ne _ _ (Nat.cast_injective.ne hbb)] at hbusy'
        exact h.ready b _ tran' (Or.inr ⟨rfl, hbusy'⟩) htran' dep hdep'

theorem complete (hbound : Bounded algo) (hacc : Accounted algo s) (hrange : InRange algo s)
    (h : Flagged algo s) {bid sid : Nat} (hmem : .stepCompletion bid sid ∈ s.pending) :
    Flagged algo (stepCompletion bid (s.take (.stepCompletion bid sid))) := by
  obtain ⟨hbusy, -⟩ := hacc.of_stepCompletion hmem
  have hbid : bid < algo.nBlocks := hrange.pending _ hmem
  have hstart := (algo.mscclTBs bid).start_le ((s.tbs bid).localStep + 1)
  have hmono := (algo.mscclTBs bid).start_mono (Nat.le_add_right (s.tbs bid).localStep 1)
  have hlt := hbound bid hbid
  have hglobal := h.globalStep bid hbid
  rw [hbusy, if_pos rfl] at hglobal
  have hself : (stepCompletion bid (s.take (.stepCompletion bid sid))).tbs bid =
      (s.tbs bid).complete := updateTb_self ..
  have hother {z : Int} (hz : z ≠ bid) :
      (stepCompletion bid (s.take (.stepCompletion bid sid))).tbs z = s.tbs z :=
    updateTb_of_ne _ _ hz
  have hflag : (s.tbs bid).complete.flag =
      (algo.mscclTBs bid).start ((s.tbs bid).localStep + 1) - 1 := by
    rw [TBState.complete_flag, hglobal, computeFlag_zero (by omega) (by omega)]
  have hgrow (z : Int) : (s.tbs z).flag ≤
      ((stepCompletion bid (s.take (.stepCompletion bid sid))).tbs z).flag := by
    by_cases hz : z = bid
    · rw [hz, hself, hflag, h.flag bid hbid]
      omega
    · rw [hother hz]
  refine ⟨fun b hb => ?_, fun b hb => ?_, fun z hz => ?_,
    fun b i tran hstarted htran dep hdep => ?_⟩
  · by_cases hbb : b = bid
    · rw [hbb, hself, hflag]
      rfl
    · rw [hother (Nat.cast_injective.ne hbb), h.flag b hb]
  · by_cases hbb : b = bid
    · rw [hbb, hself, TBState.complete_busy, if_neg Bool.false_ne_true]
      rw [TBState.complete, hglobal]
      simp
    · rw [hother (Nat.cast_injective.ne hbb)]
      exact h.globalStep b hb
  · rw [hother (hz bid hbid), h.unknown z hz]
  · have hold : s.Started b i := by
      rw [Started] at hstarted
      by_cases hbb : b = bid
      · rw [hbb, hself, TBState.complete_localStep, TBState.complete_busy] at hstarted
        rw [hbb]
        rcases hstarted with hlt | ⟨-, hfalse⟩
        · rcases Nat.lt_or_eq_of_le (Nat.le_of_lt_succ hlt) with hlt | heq
          · exact Or.inl hlt
          · exact Or.inr ⟨heq, hbusy⟩
        · cases hfalse
      · rwa [hother (Nat.cast_injective.ne hbb)] at hstarted
    exact Int.le_trans (h.ready b i tran hold htran dep hdep) (hgrow dep.1)

theorem step (hbound : Bounded algo) (hacc : Accounted algo s) (hrange : InRange algo s)
    (h : Flagged algo s) {a : Action} (hstep : Step algo s a s') : Flagged algo s' := by
  cases hstep with
  | idle hmem hidle => exact h.of_same (fun _ => rfl) (fun _ => rfl) (fun _ => rfl) fun _ => rfl
  | @block bid tran dep hmem hbusy htran hdep =>
      apply h.of_same
      · exact updateTb_proj _ _ (.insertTry bid) TBState.flag fun _ => rfl
      · intro b
        exact updateTb_proj _ _ (.insertTry bid) TBState.globalStep (fun _ => rfl) b
      · intro b
        exact updateTb_proj _ _ (.insertTry bid) TBState.localStep (fun _ => rfl) b
      · intro b
        exact updateTb_proj _ _ (.insertTry bid) TBState.busy (fun _ => rfl) b
  | dispatch hmem hbusy htran hdep => exact h.dispatch hbusy htran hdep
  | start hmem htran htype =>
      exact h.of_same (fun _ => rfl) (fun _ => rfl) (fun _ => rfl) fun _ => rfl
  | ignore hmem htran htype =>
      exact h.of_same (fun _ => rfl) (fun _ => rfl) (fun _ => rfl) fun _ => rfl
  | complete hmem => exact h.complete hbound hacc hrange hmem
  | finish hmem => exact h.of_same (fun _ => rfl) (fun _ => rfl) (fun _ => rfl) fun _ => rfl

end Flagged

theorem mem_of_lt_localStep {s s' : Interpreter} {as : List Action} (h : Accounted algo s)
    (hrun : Run (step algo) anyEvent s as s') {b t : Nat} (hlo : (s.tbs b).localStep ≤ t)
    (hhi : t < (s'.tbs b).localStep) : .fire (.stepCompletion b t) ∈ as := by
  obtain ⟨-, hlog⟩ := completed_eq h hrun b
  have hmem : t ∈ as.filterMap (Action.completes b) := by
    rw [hlog, List.mem_range'_1]
    omega
  obtain ⟨a, ha, hnote⟩ := List.mem_filterMap.mp hmem
  match a, hnote with
  | .fire (.stepCompletion b' t'), hnote =>
      rw [Action.completes] at hnote
      by_cases hb : b' = b
      · rw [if_pos hb, Option.some_inj] at hnote
        rwa [hb, hnote] at ha
      · rw [if_neg hb] at hnote
        cases hnote

/-- The invariants of the event machine. -/
structure Reached (algo : MscclAlgorithm) (s : Interpreter) : Prop where
  accounted : Accounted algo s
  inRange : InRange algo s
  flagged : Flagged algo s

theorem reached_initial {s : Interpreter} (h : interpretAlgo algo = some s) : Reached algo s :=
  ⟨.initial h, .initial h, .initial h⟩

theorem Reached.run (hbound : Bounded algo) {s s' : Interpreter} {as : List Action}
    (h : Reached algo s) (hrun : Run (step algo) anyEvent s as s') : Reached algo s' := by
  apply hrun.invariant _ h
  intro s a t hs _ hstep
  have hstep := step_cases algo hstep
  exact ⟨hs.accounted.step hstep, hs.inRange.step hstep,
    hs.flagged.step hbound hs.accounted hs.inRange hstep⟩

end Interpreter

/-! ### From flags to transfers -/

theorem start_eq_length {ctx : TbContext} {tb : MscclThreadBlock} {segs : List (List XmlStep)}
    (h : List.Forall₂ (Folds ctx tb) segs tb.transfers) (t : Nat) :
    tb.start t = (segs.take t).flatten.length := by
  rw [MscclThreadBlock.start]
  generalize tb.transfers = trans at h
  induction h generalizing t with
  | nil => simp
  | cons hfold _ ih =>
      cases t with
      | zero => rfl
      | succ t =>
          rw [List.take_succ_cons, List.take_succ_cons, List.map_cons, List.sum_cons,
            List.flatten_cons, List.length_append, ih t, hfold.width]

theorem segments_getElem? (xs : List XmlStep) {t j : Nat}
    (h : j < ((segments xs).take t).flatten.length) :
    xs[j]? = ((segments xs).take t).flatten[j]? := by
  obtain ⟨rest, hrest⟩ := segments_flatten xs
  have hsplit : (segments xs).flatten =
      ((segments xs).take t).flatten ++ ((segments xs).drop t).flatten := by
    rw [← List.flatten_append, List.take_append_drop]
  conv_lhs => rw [hrest, hsplit]
  rw [List.append_assoc, List.getElem?_append_left h]

theorem exists_segment_of_lt {xs : List XmlStep} (hplain : PlainSteps xs) {t j : Nat}
    (h : j < ((segments xs).take t).flatten.length) :
    ∃ u seg x, u < t ∧ (segments xs)[u]? = some seg ∧ x ∈ seg ∧ x.s = j := by
  have hget : xs[j]? = some (((segments xs).take t).flatten[j]) := by
    rw [segments_getElem? xs h, List.getElem?_eq_getElem h]
  have hmem := List.getElem_mem h
  obtain ⟨seg, hseg, hx⟩ := List.mem_flatten.mp hmem
  obtain ⟨u, hu⟩ := List.mem_iff_getElem?.mp hseg
  rw [List.getElem?_take] at hu
  by_cases hut : u < t
  · rw [if_pos hut] at hu
    exact ⟨u, seg, _, hut, hu, hx, hplain.numbered j _ hget⟩
  · rw [if_neg hut] at hu
    cases hu

theorem getLast_s {xs : List XmlStep} (hplain : PlainSteps xs) {t : Nat} {seg : List XmlStep}
    {x : XmlStep} (hseg : (segments xs)[t]? = some seg) (hx : seg.getLast? = some x) :
    x.s = (((segments xs).take (t + 1)).flatten.length : Int) - 1 := by
  obtain ⟨init, rfl⟩ := List.getLast?_eq_some_iff.mp hx
  have htake : ((segments xs).take (t + 1)).flatten =
      (((segments xs).take t).flatten ++ init) ++ [x] := by
    rw [List.take_add_one, hseg, Option.toList_some, List.flatten_append, List.flatten_singleton,
      List.append_assoc]
  have hlen : ((segments xs).take (t + 1)).flatten.length =
      (((segments xs).take t).flatten ++ init).length + 1 := by
    rw [htake, List.length_append, List.length_singleton]
  have hget : xs[(((segments xs).take t).flatten ++ init).length]? = some x := by
    rw [segments_getElem? xs (t := t + 1) (by omega), htake, List.getElem?_concat_length]
  rw [hplain.numbered _ x hget, hlen]
  push_cast
  omega

variable {nRanks gpuId : Nat} {root : XmlNode} {algo : MscclAlgorithm}

/-- Every thread block of the algorithm has plain steps. -/
def PlainAlgorithm (root : XmlNode) (gpuId : Nat) (algo : MscclAlgorithm) : Prop :=
  ∀ bid < algo.nBlocks, PlainSteps (xmlSteps root gpuId bid)

theorem Accepted.bounded (h : Accepted nRanks root gpuId algo)
    (hplain : PlainAlgorithm root gpuId algo) : Interpreter.Bounded algo := by
  intro b hb
  obtain ⟨ctx, hparsed⟩ := h.parsed b hb
  obtain ⟨rest, hrest⟩ := segments_flatten (xmlSteps root gpuId b)
  have hlen := hparsed.steps_length (hplain b hb)
  have hflat : ((segments (xmlSteps root gpuId b)).take (algo.mscclTBs b).nsteps).flatten.length ≤
      (xmlSteps root gpuId b).length := by
    conv_rhs => rw [hrest]
    rw [List.length_append]
    refine Nat.le_trans ?_ (Nat.le_add_right _ _)
    exact ((List.take_sublist _ _).flatten).length_le
  rw [start_eq_length (hparsed.folds (hplain b hb))]
  have hmax : mscclMaxNumSteps < 2 ^ 63 := by decide
  omega

open Interpreter

theorem exists_of_getElem? {α β : Type*} {R : α → β → Prop} {xs : List α} {ys : List β}
    (h : List.Forall₂ R xs ys) {i : Nat} {y : β} (hy : ys[i]? = some y) :
    ∃ x, xs[i]? = some x ∧ R x y := by
  obtain ⟨hi, rfl⟩ := List.getElem?_eq_some_iff.mp hy
  have hi' : i < xs.length := h.length_eq ▸ hi
  exact ⟨xs.get ⟨i, hi'⟩, List.getElem?_eq_getElem hi', h.get hi' hi⟩

namespace Accepted

/-- A step number that a flag has reached is covered by a completed transfer. -/
theorem exists_covering (h : Accepted nRanks root gpuId algo)
    (hplain : PlainAlgorithm root gpuId algo) {s₀ s : Interpreter} {as : List Action}
    (hinit : interpretAlgo algo = some s₀) (hrun : Run (step algo) anyEvent s₀ as s)
    {bid : Nat} {j : Int} (hlo : 0 ≤ j)
    (hflag : j ≤ (s.tbs bid).flag) :
    ∃ t seg y, (segments (xmlSteps root gpuId bid))[t]? = some seg ∧ y ∈ seg ∧ y.s = j ∧
      .fire (.stepCompletion bid t) ∈ as := by
  have hstart := reached_initial hinit
  have hreached := hstart.run (h.bounded hplain) hrun
  by_cases hknown : bid < algo.nBlocks
  · obtain ⟨ctx, hparsed⟩ := h.parsed _ hknown
    have hpub := hreached.flagged.flag _ hknown
    rw [start_eq_length (hparsed.folds (hplain _ hknown))] at hpub
    obtain ⟨t, seg, y, ht, hseg, hy, hys⟩ := exists_segment_of_lt (hplain _ hknown)
      (t := (s.tbs bid).localStep) (j := j.toNat) (by omega)
    refine ⟨t, seg, y, hseg, hy, by omega, ?_⟩
    obtain ⟨-, rfl⟩ := (interpretAlgo_eq_some algo).mp hinit
    exact mem_of_lt_localStep hstart.accounted hrun (Nat.zero_le t) ht
  · have hpub := hreached.flagged.unknown bid fun b hb heq => hknown (by omega)
    omega

theorem mem_segment (h : Accepted nRanks root gpuId algo) (hplain : PlainAlgorithm root gpuId algo)
    {bid : Nat} {seg : List XmlStep} {y y' : XmlStep}
    (hseg : seg ∈ segments (xmlSteps root gpuId bid)) (hy : y ∈ seg)
    (hy' : y' ∈ xmlSteps root gpuId bid) (hs : y.s = y'.s) : y' ∈ seg := by
  have hnum := (hplain bid (h.lt_nBlocks bid y' hy')).numbered
  obtain ⟨rest, hrest⟩ := segments_flatten (xmlSteps root gpuId bid)
  have hmem : y ∈ xmlSteps root gpuId bid := by
    rw [hrest]
    exact List.mem_append_left _ (List.mem_flatten_of_mem hseg hy)
  obtain ⟨i, hi⟩ := List.mem_iff_getElem?.mp hmem
  obtain ⟨i', hi'⟩ := List.mem_iff_getElem?.mp hy'
  have hii : i = i' := by
    have hone := hnum i y hi
    have hother := hnum i' y' hi'
    omega
  rw [hii, hi', Option.some_inj] at hi
  rwa [hi]

end Accepted

/-- The flag that a scheduled transfer has waited for, its own or that of a nop folded into it. -/
theorem Accepted.flag_of_started (h : Accepted nRanks root gpuId algo)
    (hplain : PlainAlgorithm root gpuId algo) {s : Interpreter} (hreached : Reached algo s)
    {bid sid : Nat} {tran : MscclTransfer} {seg : List XmlStep} {x : XmlStep}
    (hstarted : s.Started bid sid) (htran : (algo.mscclTBs bid).transfers[sid]? = some tran)
    (hbid : bid < algo.nBlocks) (hseg : (segments (xmlSteps root gpuId bid))[sid]? = some seg)
    (hx : x ∈ seg) (hlo : 0 ≤ x.dependBid) (hhi : x.dependBid < 2 ^ 7) (hslo : 0 ≤ x.dependStep)
    (hshi : x.dependStep < 2 ^ 15) : x.dependStep ≤ (s.tbs x.dependBid).flag := by
  obtain ⟨ctx, hparsed⟩ := h.parsed bid hbid
  obtain ⟨seg', hseg', hfold⟩ := exists_of_getElem? (hparsed.folds (hplain bid hbid)) htran
  obtain rfl := Option.some_inj.mp (hseg.symm.trans hseg')
  have hdep : (x.dependBid, x.dependStep) ∈ (algo.mscclTBs bid).dependences tran := by
    rw [hfold.dependences, attached]
    refine List.mem_map.mpr ⟨x, List.mem_filter.mpr ⟨hx, decide_eq_true hlo⟩, ?_⟩
    rw [i8_of_mem (by omega) hhi, i16_of_mem (by omega) hshi]
  have hready := hreached.flagged.ready bid sid tran hstarted htran _ hdep
  rwa [computeFlag_zero (by omega) (by omega)] at hready

theorem Accepted.step_bounds (h : Accepted nRanks root gpuId algo)
    (hplain : PlainAlgorithm root gpuId algo) {bid i : Nat} {y : XmlStep}
    (hy : (xmlSteps root gpuId bid)[i]? = some y) :
    bid < algo.nBlocks ∧ y.s = i ∧ i < mscclMaxNumSteps := by
  have hbid := h.lt_nBlocks bid y (List.mem_of_getElem? hy)
  obtain ⟨ctx, hparsed⟩ := h.parsed bid hbid
  have hlen := hparsed.steps_length (hplain bid hbid)
  have hlt := (List.getElem?_eq_some_iff.mp hy).1
  exact ⟨hbid, (hplain bid hbid).numbered i y hy, Nat.lt_of_lt_of_le hlt hlen⟩

/-- The dependence keeps its value in the `int8_t` and `int16_t` entries of the parsed tables. -/
def XmlStep.DependenceFits (x : XmlStep) : Prop :=
  x.dependBid < 2 ^ 7 ∧ 0 ≤ x.dependStep ∧ x.dependStep < 2 ^ 15
deriving Decidable

/-- The step that `x` depends on is covered by a transfer reported complete. -/
def DependenceCompleted (root : XmlNode) (gpuId : Nat) (as : List Action) (x : XmlStep) : Prop :=
  ∃ t seg, (segments (xmlSteps root gpuId x.dependBid.toNat))[t]? = some seg ∧
    (∃ y ∈ seg, y.s = x.dependStep) ∧ .fire (.stepCompletion x.dependBid.toNat t) ∈ as

/-- A dependence on a step of an accepted document fits, since block ids and step numbers are small. -/
theorem Accepted.fits_of_completed (h : Accepted nRanks root gpuId algo)
    (hplain : PlainAlgorithm root gpuId algo) (hblocks : algo.nBlocks < 2 ^ 7) {as : List Action}
    {x : XmlStep} (hdone : DependenceCompleted root gpuId as x) :
    x.DependenceFits := by
  obtain ⟨t, seg, hseg, ⟨y, hy, hys⟩, -⟩ := hdone
  obtain ⟨rest, hrest⟩ := segments_flatten (xmlSteps root gpuId x.dependBid.toNat)
  have hmem : y ∈ xmlSteps root gpuId x.dependBid.toNat := by
    rw [hrest]
    exact List.mem_append_left _
      (List.mem_flatten_of_mem (List.mem_iff_getElem?.mpr ⟨t, hseg⟩) hy)
  obtain ⟨i, hi⟩ := List.mem_iff_getElem?.mp hmem
  obtain ⟨hbid, hnum, hlt⟩ := h.step_bounds hplain hi
  have hmax : mscclMaxNumSteps < 2 ^ 15 := by decide
  exact ⟨by omega, by omega, by omega⟩

/-- When `RunStep` is called for a transfer, those dependences of its own and of the nops folded into
it are complete that fit their tables, and the flag that a completed transfer publishes is that of the
last step folded into it. -/
theorem runStep_dependences_completed {algos : Nat → Option MscclAlgorithm}
    (hparse : parseAlgoXml nRanks (some (some root)) = .ok algos) (hgpu : algos gpuId = some algo)
    (hplain : PlainAlgorithm root gpuId algo) {s₀ s : Interpreter} {as : List Action}
    (hinit : interpretAlgo algo = some s₀) (hrun : Run (step algo) anyEvent s₀ as s) :
    (∀ bid sid s', step algo s (.fire (.runStep bid sid)) = some s' →
      ∃ seg, (segments (xmlSteps root gpuId bid))[sid]? = some seg ∧
        ∀ x ∈ seg, 0 ≤ x.dependBid → (DependenceCompleted root gpuId as x ↔ x.DependenceFits)) ∧
    (∀ bid sid s', step algo s (.fire (.stepCompletion bid sid)) = some s' →
      ∃ seg y, (segments (xmlSteps root gpuId bid))[sid]? = some seg ∧ seg.getLast? = some y ∧
        (s'.tbs bid).flag = computeFlag 0 0 y.s) := by
  have hacc := accepted_of_parseAlgoXml hparse hgpu
  have hstart := reached_initial hinit
  have hbound := hacc.bounded hplain
  have hreached := hstart.run hbound hrun
  constructor
  · intro bid sid s' hfire
    obtain ⟨hmem, tran, htran⟩ : .runStep bid sid ∈ s.pending ∧
        ∃ tran, (algo.mscclTBs bid).transfers[sid]? = some tran := by
      cases step_cases algo hfire with
      | start hmem htran htype => exact ⟨hmem, _, htran⟩
      | ignore hmem htran htype => exact ⟨hmem, _, htran⟩
    have hbid : bid < algo.nBlocks := hreached.inRange.pending _ hmem
    have hvalid := ((interpretAlgo_eq_some algo).mp hinit).1.2
    obtain ⟨ctx, hparsed⟩ := hacc.parsed bid hbid
    obtain ⟨seg, hseg, -⟩ := exists_of_getElem? (hparsed.folds (hplain bid hbid)) htran
    refine ⟨seg, hseg, fun x hx hlo =>
      ⟨hacc.fits_of_completed hplain (by omega), fun hfits => ?_⟩⟩
    obtain ⟨hhi, hslo, hshi⟩ := hfits
    obtain ⟨hbusy, hsid⟩ := hreached.accounted.of_runStep hmem
    have hready := hacc.flag_of_started hplain hreached (Or.inr ⟨hsid, hbusy⟩) htran hbid hseg hx
      hlo hhi hslo hshi
    have hcast : ((x.dependBid.toNat : Nat) : Int) = x.dependBid := Int.toNat_of_nonneg hlo
    rw [← hcast] at hready
    obtain ⟨t, seg', y, hseg', hy, hs, hdone⟩ := hacc.exists_covering hplain hinit hrun hslo hready
    exact ⟨t, seg', hseg', ⟨y, hy, hs⟩, hdone⟩
  · intro bid sid s' hfire
    cases step_cases algo hfire with
    | complete hmem =>
        obtain ⟨hbusy, hsid⟩ := hreached.accounted.of_stepCompletion hmem
        have hbid : bid < algo.nBlocks := hreached.inRange.pending _ hmem
        obtain ⟨ctx, hparsed⟩ := hacc.parsed bid hbid
        have hlt := hreached.accounted.busy_lt bid hbusy
        obtain ⟨seg, hseg, hfold⟩ := exists_of_getElem? (hparsed.folds (hplain bid hbid))
          (List.getElem?_eq_getElem hlt)
        obtain ⟨y, hy, -⟩ := hfold.carries
        rw [← hsid] at hseg
        refine ⟨seg, y, hseg, hy, ?_⟩
        have hglobal := hreached.flagged.globalStep bid hbid
        rw [hbusy, if_pos rfl, start_eq_length (hparsed.folds (hplain bid hbid)), ← hsid,
          ← getLast_s (hplain bid hbid) hseg hy] at hglobal
        rw [stepCompletion, schedule_tbs, updateTb_self, TBState.complete_flag, take_tbs, hglobal]

/-- A step that copies the first chunk of the input to the output. -/
def stepElement (type s depid deps : String) : XmlNode :=
  .element "step" [("s", s), ("type", type), ("srcbuf", "i"), ("srcoff", "0"), ("dstbuf", "o"),
    ("dstoff", "0"), ("cnt", "1"), ("depid", depid), ("deps", deps), ("hasdep", "0")] []

def tbElement (id : String) (steps : List XmlNode) : XmlNode :=
  .element "tb" [("id", id), ("send", "-1"), ("recv", "-1"), ("chan", "0")] steps

/-- An algorithm for one GPU. -/
def algoElement (tbs : List XmlNode) : XmlNode :=
  .element "algo" [("name", "local"), ("ngpus", "1"), ("nchannels", "1"), ("nchunksperloop", "1"),
    ("coll", "custom")]
    [.element "gpu" [("id", "0"), ("i_chunks", "1"), ("o_chunks", "1"), ("s_chunks", "0")] tbs]

/-- The second thread block waits for the first in a nop and for nothing more in its copy. -/
def nopThenCopy : XmlNode :=
  algoElement [tbElement "0" [stepElement "cpy" "0" "-1" "-1", stepElement "cpy" "1" "-1" "-1"],
    tbElement "1" [stepElement "nop" "0" "0" "1", stepElement "cpy" "1" "0" "0"]]

/-- Both copies of the first thread block, then the second one is scheduled. -/
def copiesFirst : List Action :=
  [.fire (.tryScheduleNextStep 1), .fire (.tryScheduleNextStep 0), .fire (.runStep 0 0), .finish 0 0,
   .fire (.stepCompletion 0 0), .fire (.tryScheduleNextStep 0), .fire (.runStep 0 1), .finish 0 1,
   .fire (.stepCompletion 0 1), .fire (.tryScheduleNextStep 1)]

/-- The algorithm that a document gives to a GPU. -/
def algorithmOf (nRanks : Nat) (root : XmlNode) (gpuId : Nat) : Option MscclAlgorithm :=
  match parseAlgoXml nRanks (some (some root)) with
  | .ok algos => algos gpuId
  | .error _ => none

theorem parse_of_algorithmOf (h : algorithmOf nRanks root gpuId = some algo) :
    ∃ algos, parseAlgoXml nRanks (some (some root)) = .ok algos ∧ algos gpuId = some algo := by
  rw [algorithmOf] at h
  cases hparse : parseAlgoXml nRanks (some (some root)) with
  | ok algos =>
      rw [hparse] at h
      exact ⟨algos, rfl, h⟩
  | error e =>
      rw [hparse] at h
      cases h

/-- The actions are a run of a plain document after which `RunStep` is called for the transfer. -/
def called (root : XmlNode) (as : List Action) (bid sid : Nat) : Bool :=
  (algorithmOf 1 root 0).any fun algo => decide (algo.nBlocks = 2) &&
    (interpretAlgo algo).any fun s₀ => (execGuarded (step algo) anyEvent s₀ as).any fun s =>
      decide ((step algo s (.fire (.runStep bid sid))).isSome)

theorem exists_called {root : XmlNode} {as : List Action} (bid sid : Nat)
    (h : called root as bid sid = true) (hall : ∀ bid < 2, PlainSteps (xmlSteps root 0 bid)) :
    ∃ algos algo s₀ s, parseAlgoXml 1 (some (some root)) = .ok algos ∧
      algos 0 = some algo ∧ PlainAlgorithm root 0 algo ∧ interpretAlgo algo = some s₀ ∧
      Run (step algo) anyEvent s₀ as s ∧ ∃ s', step algo s (.fire (.runStep bid sid)) = some s' := by
  obtain ⟨algo, halgo, heval⟩ := (Option.any_eq_true _ _).mp h
  obtain ⟨hblocks, heval⟩ := Bool.and_eq_true_iff.mp heval
  obtain ⟨s₀, hinit, heval⟩ := (Option.any_eq_true _ _).mp heval
  obtain ⟨s, hrun, hsome⟩ := exists_run (step algo) anyEvent
    (fun s => (step algo s (.fire (.runStep bid sid))).isSome) s₀ as heval
  obtain ⟨s', hfire⟩ := Option.isSome_iff_exists.mp hsome
  obtain ⟨algos, hparse, hgpu⟩ := parse_of_algorithmOf halgo
  refine ⟨algos, algo, s₀, s, hparse, hgpu, fun bid hbid => ?_, hinit, hrun, s', hfire⟩
  rw [of_decide_eq_true hblocks] at hbid
  exact hall bid hbid

theorem nopThenCopy_dependences_completed :
    ∃ algos algo s₀ s, parseAlgoXml 1 (some (some nopThenCopy)) = .ok algos ∧
      algos 0 = some algo ∧ PlainAlgorithm nopThenCopy 0 algo ∧ interpretAlgo algo = some s₀ ∧
      Run (step algo) anyEvent s₀ copiesFirst s ∧
      (∃ s', step algo s (.fire (.runStep 1 0)) = some s') ∧
      ∃ seg, (segments (xmlSteps nopThenCopy 0 1))[0]? = some seg ∧
        ∀ x ∈ seg, 0 ≤ x.dependBid → DependenceCompleted nopThenCopy 0 copiesFirst x := by
  obtain ⟨algos, algo, s₀, s, hparse, hgpu, hplain, hinit, hrun, s', hfire⟩ :=
    exists_called 1 0 (by decide +kernel : called nopThenCopy copiesFirst 1 0 = true)
      (by decide +kernel)
  obtain ⟨seg, hseg, hiff⟩ :=
    (runStep_dependences_completed hparse hgpu hplain hinit hrun).1 1 0 s' hfire
  have hfits : ∀ seg ∈ (segments (xmlSteps nopThenCopy 0 1))[0]?, ∀ x ∈ seg, x.DependenceFits := by
    decide +kernel
  exact ⟨algos, algo, s₀, s, hparse, hgpu, hplain, hinit, hrun, ⟨s', hfire⟩, seg, hseg,
    fun x hx hlo => (hiff x hx hlo).mpr (hfits seg hseg x hx)⟩

/-- A copy that depends on step 40000 of the first thread block, which is stored as step -25536. -/
def farDependence : XmlNode :=
  algoElement [tbElement "0" [stepElement "cpy" "0" "-1" "-1"],
    tbElement "1" [stepElement "cpy" "0" "0" "40000"]]

theorem not_dependences_completed :
    ¬ ∀ (root : XmlNode) (algos : Nat → Option MscclAlgorithm) (algo : MscclAlgorithm)
      (s₀ s : Interpreter) (as : List Action),
      parseAlgoXml 1 (some (some root)) = .ok algos → algos 0 = some algo →
      PlainAlgorithm root 0 algo → interpretAlgo algo = some s₀ →
      Run (step algo) anyEvent s₀ as s →
      ∀ bid sid s', step algo s (.fire (.runStep bid sid)) = some s' →
        ∃ seg, (segments (xmlSteps root 0 bid))[sid]? = some seg ∧
          ∀ x ∈ seg, 0 ≤ x.dependBid → DependenceCompleted root 0 as x := by
  intro hall
  obtain ⟨algos, algo, s₀, s, hparse, hgpu, hplain, hinit, hrun, s', hfire⟩ :=
    exists_called 1 0 (by decide +kernel :
      called farDependence [.fire (.tryScheduleNextStep 1)] 1 0 = true) (by decide +kernel)
  obtain ⟨seg, hseg, hdone⟩ := hall _ algos algo s₀ s _ hparse hgpu hplain hinit hrun 1 0 s' hfire
  have hfar : ∀ seg ∈ (segments (xmlSteps farDependence 0 1))[0]?, ∃ x ∈ seg, 0 ≤ x.dependBid := by
    decide +kernel
  obtain ⟨x, hx, hlo⟩ := hfar seg hseg
  obtain ⟨t, seg', hseg', hcovers, hmem⟩ := hdone x hx hlo
  cases List.mem_singleton.mp hmem

end CollectiveSim.Msccl
