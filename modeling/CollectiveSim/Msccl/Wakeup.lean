import Mathlib
import CollectiveSim.Msccl.Termination

/-!
# Wake-ups

A thread block with steps left is busy, about to try again, or known to a thread block whose flag it
waits for. So when nothing is left to happen, only dependences that nobody can meet keep transfers from
having run.
-/

namespace CollectiveSim.Msccl

open Framework

namespace Interpreter

variable {algo : MscclAlgorithm}

/-- The thread block tries again, or is to be told when a flag that it waits for changes. -/
def Woken (s : Interpreter) (bid : Nat) (deps : List (Int × Int)) : Prop :=
  .tryScheduleNextStep bid ∈ s.pending ∨
    ∃ dep ∈ deps, bid ∈ (s.tbs dep.1).tryReschedule ∧ (s.tbs dep.1).flag < computeFlag 0 0 dep.2

/-- No thread block that is neither busy nor finished has been forgotten. -/
def Attended (algo : MscclAlgorithm) (s : Interpreter) : Prop :=
  ∀ (b : Nat) (tran : MscclTransfer), b < algo.nBlocks → (s.tbs b).busy = false →
    (algo.mscclTBs b).transfers[(s.tbs b).localStep]? = some tran →
    s.Woken b ((algo.mscclTBs b).dependences tran)

theorem blocking_eq_some {s : Interpreter} {deps : List (Int × Int)} {dep : Int × Int}
    (h : s.blocking deps = some dep) :
    dep ∈ deps ∧ (s.tbs dep.1).flag < computeFlag 0 0 dep.2 := by
  have hfound := List.find?_some h
  rw [decide_eq_true_iff] at hfound
  exact ⟨List.mem_of_find?_eq_some h, hfound⟩

theorem Woken.mono {s s' : Interpreter} {b : Nat} {deps : List (Int × Int)} (h : s.Woken b deps)
    (hpending : .tryScheduleNextStep b ∈ s.pending → .tryScheduleNextStep b ∈ s'.pending)
    (hwait : ∀ z, b ∈ (s.tbs z).tryReschedule → b ∈ (s'.tbs z).tryReschedule)
    (hflag : ∀ z, (s'.tbs z).flag = (s.tbs z).flag) : s'.Woken b deps := by
  rcases h with h | ⟨dep, hdep, hmem, hlt⟩
  · exact Or.inl (hpending h)
  · right
    refine ⟨dep, hdep, hwait _ hmem, ?_⟩
    rw [hflag]
    exact hlt

namespace Attended

variable {s s' : Interpreter}

theorem initial (h : interpretAlgo algo = some s) : Attended algo s := by
  obtain ⟨-, rfl⟩ := (interpretAlgo_eq_some algo).mp h
  intro b tran hb hbusy htran
  exact Or.inl (List.mem_map.mpr ⟨b, List.mem_range.mpr hb, rfl⟩)

theorem of_same (h : Attended algo s) (htbs : s'.tbs = s.tbs)
    (hpending : ∀ b, .tryScheduleNextStep b ∈ s.pending → .tryScheduleNextStep b ∈ s'.pending) :
    Attended algo s' := by
  intro b tran hb hbusy htran
  rw [htbs] at hbusy htran
  apply (h b tran hb hbusy htran).mono (hpending b)
  · intro z hz
    rwa [htbs]
  · intro z
    rw [htbs]

theorem idle (h : Attended algo s) {bid : Nat}
    (hidle : (s.tbs bid).busy = true ∨
      (algo.mscclTBs bid).transfers[(s.tbs bid).localStep]? = none) :
    Attended algo (s.take (.tryScheduleNextStep bid)) := by
  intro b tran hb hbusy htran
  have hne : b ≠ bid := by
    rintro rfl
    rcases hidle with hidle | hidle
    · exact absurd (hbusy.symm.trans hidle) Bool.false_ne_true
    · exact absurd (htran.symm.trans hidle) (Option.some_ne_none _)
  apply (h b tran hb hbusy htran).mono
  · intro hmem
    exact (List.mem_erase_of_ne (by simp [hne])).mpr hmem
  · exact fun z hz => hz
  · exact fun z => rfl

theorem block (h : Attended algo s) {bid : Nat} {tran : MscclTransfer} {dep : Int × Int}
    (htran : (algo.mscclTBs bid).transfers[(s.tbs bid).localStep]? = some tran)
    (hdep : s.blocking ((algo.mscclTBs bid).dependences tran) = some dep) :
    Attended algo ((s.take (.tryScheduleNextStep bid)).updateTb dep.1 (.insertTry bid)) := by
  have hflag := updateTb_proj (s.take (.tryScheduleNextStep bid)) dep.1 (.insertTry bid)
    TBState.flag fun _ => rfl
  have hlocal := updateTb_proj (s.take (.tryScheduleNextStep bid)) dep.1 (.insertTry bid)
    TBState.localStep fun _ => rfl
  have hbusy := updateTb_proj (s.take (.tryScheduleNextStep bid)) dep.1 (.insertTry bid)
    TBState.busy fun _ => rfl
  intro b tran' hb hbusy' htran'
  rw [hbusy] at hbusy'
  rw [hlocal] at htran'
  by_cases hne : b = bid
  · subst hne
    obtain rfl := Option.some_inj.mp (htran.symm.trans htran')
    obtain ⟨hmem, hlt⟩ := blocking_eq_some hdep
    right
    refine ⟨dep, hmem, ?_, ?_⟩
    · rw [updateTb_self]
      exact (TBState.mem_insertTry _ _).mpr (Or.inl rfl)
    · rw [hflag]
      exact hlt
  · apply (h b tran' hb hbusy' htran').mono
    · intro hmem
      exact (List.mem_erase_of_ne (by simp [hne])).mpr hmem
    · intro z hz
      by_cases hzd : z = dep.1
      · rw [hzd, updateTb_self]
        rw [hzd] at hz
        exact (TBState.mem_insertTry _ _).mpr (Or.inr hz)
      · rwa [updateTb_of_ne _ _ hzd]
    · exact hflag

theorem dispatch (h : Attended algo s) {bid : Nat} {tran : MscclTransfer} :
    Attended algo (((s.take (.tryScheduleNextStep bid)).updateTb bid
      (.dispatch tran.numDependences)).schedule [.runStep bid (s.tbs bid).localStep]) := by
  intro b tran' hb hbusy' htran'
  rw [schedule_tbs] at hbusy' htran'
  by_cases hne : b = bid
  · rw [hne, updateTb_self] at hbusy'
    cases hbusy'
  · rw [updateTb_of_ne _ _ (Nat.cast_injective.ne hne)] at hbusy' htran'
    apply (h b tran' hb hbusy' htran').mono
    · intro hmem
      exact List.mem_append_left _ ((List.mem_erase_of_ne (by simp [hne])).mpr hmem)
    · intro z hz
      have hsame := updateTb_proj (s.take (.tryScheduleNextStep bid)) bid
        (.dispatch tran.numDependences) TBState.tryReschedule (fun _ => rfl) z
      rw [schedule_tbs, hsame]
      exact hz
    · exact updateTb_proj (s.take (.tryScheduleNextStep bid)) bid (.dispatch tran.numDependences)
        TBState.flag fun _ => rfl

theorem complete (h : Attended algo s) {bid sid : Nat} :
    Attended algo (stepCompletion bid (s.take (.stepCompletion bid sid))) := by
  have hother {z : Int} (hz : z ≠ bid) :
      (stepCompletion bid (s.take (.stepCompletion bid sid))).tbs z = s.tbs z :=
    updateTb_of_ne _ _ hz
  have hagain {b : Nat} (hb : b = bid ∨ b ∈ (s.tbs bid).tryReschedule) :
      .tryScheduleNextStep b ∈
        (stepCompletion bid (s.take (.stepCompletion bid sid))).pending :=
    List.mem_append_right _ (List.mem_map.mpr ⟨b, List.mem_cons.mpr hb, rfl⟩)
  intro b tran hb hbusy htran
  by_cases hne : b = bid
  · exact Or.inl (hagain (Or.inl hne))
  · rw [hother (Nat.cast_injective.ne hne)] at hbusy htran
    rcases h b tran hb hbusy htran with hmem | ⟨dep, hdep, hmem, hlt⟩
    · exact Or.inl (List.mem_append_left _ ((List.mem_erase_of_ne (by simp)).mpr hmem))
    · by_cases hz : dep.1 = bid
      · rw [hz] at hmem
        exact Or.inl (hagain (Or.inr hmem))
      · right
        refine ⟨dep, hdep, ?_, ?_⟩
        · rwa [hother hz]
        · rwa [hother hz]

theorem step (h : Attended algo s) {a : Action} (hstep : Step algo s a s') : Attended algo s' := by
  cases hstep with
  | idle hmem hidle => exact h.idle hidle
  | block hmem hbusy htran hdep => exact h.block htran hdep
  | dispatch hmem hbusy htran hdep => exact h.dispatch
  | complete hmem => exact h.complete
  | start hmem htran htype =>
      exact h.of_same rfl fun b hb => (List.mem_erase_of_ne (by simp)).mpr hb
  | ignore hmem htran htype =>
      exact h.of_same rfl fun b hb => (List.mem_erase_of_ne (by simp)).mpr hb
  | finish hmem => exact h.of_same rfl fun b hb => List.mem_append_left _ hb

theorem run (h : Attended algo s) {as : List Action}
    (hrun : Run (Interpreter.step algo) anyEvent s as s') : Attended algo s' :=
  hrun.invariant (fun _ _ _ hs _ hstep => hs.step (Interpreter.step_cases algo hstep)) h

end Attended

/-! ### Complete runs -/

/-- A busy thread block has a transfer in flight. -/
def Engaged (s : Interpreter) : Prop :=
  ∀ b : Nat, (s.tbs b).busy = true → 0 < s.inflight b (s.tbs b).localStep

namespace Engaged

variable {s s' : Interpreter}

theorem initial (h : interpretAlgo algo = some s) : Engaged s := by
  obtain ⟨-, rfl⟩ := (interpretAlgo_eq_some algo).mp h
  intro b hbusy
  cases hbusy

theorem of_same (h : Engaged s) (hle : ∀ b i, s.inflight b i ≤ s'.inflight b i)
    (hbusy : ∀ b : Nat, (s'.tbs b).busy = (s.tbs b).busy)
    (hlocal : ∀ b : Nat, (s'.tbs b).localStep = (s.tbs b).localStep) : Engaged s' := by
  intro b hb
  rw [hbusy] at hb
  rw [hlocal]
  exact Nat.lt_of_lt_of_le (h b hb) (hle b _)

theorem dispatch (h : Engaged s) {bid : Nat} {tran : MscclTransfer} :
    Engaged (((s.take (.tryScheduleNextStep bid)).updateTb bid
      (.dispatch tran.numDependences)).schedule [.runStep bid (s.tbs bid).localStep]) := by
  intro b hb
  rw [schedule_tbs] at hb ⊢
  rw [inflight_schedule, inflight_updateTb, inflight_take_try]
  by_cases hne : b = bid
  · rw [hne, updateTb_self, TBState.dispatch_localStep, take_tbs, List.count_singleton_self]
    omega
  · rw [updateTb_of_ne _ _ (Nat.cast_injective.ne hne)] at hb ⊢
    have hpos := h b hb
    rw [take_tbs]
    omega

theorem complete (h : Engaged s) {bid sid : Nat} (hmem : .stepCompletion bid sid ∈ s.pending) :
    Engaged (stepCompletion bid (s.take (.stepCompletion bid sid))) := by
  intro b hb
  rw [stepCompletion, schedule_tbs] at hb ⊢
  by_cases hne : b = bid
  · rw [hne, updateTb_self] at hb
    cases hb
  · rw [updateTb_of_ne _ _ (Nat.cast_injective.ne hne)] at hb ⊢
    have htake := s.inflight_take bid sid b (s.tbs b).localStep (.inr rfl) hmem
    rw [if_neg fun heq => hne heq.1, Nat.add_zero] at htake
    rw [inflight_schedule, inflight_updateTb, take_tbs, htake]
    exact Nat.lt_of_lt_of_le (h b hb) (by omega)

theorem step (himp : AllImplemented algo) (hrange : InRange algo s) (h : Engaged s) {a : Action}
    (hstep : Step algo s a s') : Engaged s' := by
  cases hstep with
  | @idle bid hmem hidle =>
      exact h.of_same (fun b i => (s.inflight_take_try bid b i).ge) (fun _ => rfl) fun _ => rfl
  | @block bid tran dep hmem hbusy htran hdep =>
      apply h.of_same
      · intro b i
        rw [inflight_updateTb, inflight_take_try]
      · intro b
        exact updateTb_proj _ _ (.insertTry bid) TBState.busy (fun _ => rfl) b
      · intro b
        exact updateTb_proj _ _ (.insertTry bid) TBState.localStep (fun _ => rfl) b
  | dispatch hmem hbusy htran hdep => exact h.dispatch
  | @start bid sid tran hmem htran htype =>
      exact h.of_same (fun b i => (s.inflight_start bid sid b i hmem).ge) (fun _ => rfl) fun _ => rfl
  | @ignore bid sid tran hmem htran htype =>
      have himp := himp bid (hrange.pending _ hmem) tran (List.mem_of_getElem? htran)
      rw [htype] at himp
      cases himp
  | complete hmem => exact h.complete hmem
  | @finish bid sid hmem =>
      exact h.of_same (fun b i => (s.inflight_finish bid sid b i hmem).ge) (fun _ => rfl) fun _ => rfl

end Engaged

/-- The dependences can be met one transfer after the other: in some order that follows each thread
block, a dependence is on a step that an earlier transfer covers. -/
def Schedulable (algo : MscclAlgorithm) : Prop :=
  ∃ rank : Nat → Nat → Nat, (∀ b i, rank b i < rank b (i + 1)) ∧
    ∀ (b i : Nat) (tran : MscclTransfer), b < algo.nBlocks →
      (algo.mscclTBs b).transfers[i]? = some tran →
      ∀ dep ∈ (algo.mscclTBs b).dependences tran, ∃ d t : Nat, d < algo.nBlocks ∧ dep.1 = d ∧
        t < (algo.mscclTBs d).nsteps ∧ -2 ^ 63 ≤ dep.2 ∧ dep.2 < (algo.mscclTBs d).start (t + 1) ∧
        rank d t < rank b i

/-- A rank to be checked by evaluation. -/
def Ranked (algo : MscclAlgorithm) (rank : Nat → Nat → Nat) : Prop :=
  ∀ b < algo.nBlocks, ∀ i < (algo.mscclTBs b).nsteps,
    ∀ dep ∈ (algo.mscclTBs b).dependences ((algo.mscclTBs b).transfers[i]?.getD .zero),
      ∃ d < algo.nBlocks, ∃ t < (algo.mscclTBs d).nsteps, dep.1 = d ∧ -2 ^ 63 ≤ dep.2 ∧
        dep.2 < (algo.mscclTBs d).start (t + 1) ∧ rank d t < rank b i

instance (algo : MscclAlgorithm) (rank : Nat → Nat → Nat) : Decidable (Ranked algo rank) :=
  inferInstanceAs (Decidable (∀ b < algo.nBlocks, ∀ i < (algo.mscclTBs b).nsteps,
    ∀ dep ∈ (algo.mscclTBs b).dependences ((algo.mscclTBs b).transfers[i]?.getD .zero),
      ∃ d < algo.nBlocks, ∃ t < (algo.mscclTBs d).nsteps, dep.1 = d ∧ -2 ^ 63 ≤ dep.2 ∧
        dep.2 < (algo.mscclTBs d).start (t + 1) ∧ rank d t < rank b i))

theorem Ranked.schedulable {rank : Nat → Nat → Nat} (h : Ranked algo rank)
    (hmono : ∀ b i, rank b i < rank b (i + 1)) : Schedulable algo := by
  refine ⟨rank, hmono, fun b i tran hb htran dep hdep => ?_⟩
  have hi : i < (algo.mscclTBs b).nsteps := (List.getElem?_eq_some_iff.mp htran).1
  have hdep' : dep ∈ (algo.mscclTBs b).dependences
      ((algo.mscclTBs b).transfers[i]?.getD .zero) := by
    rwa [htran]
  obtain ⟨d, hd, t, ht, hdd, hlo, hcov, hlower⟩ := h b hb i hi dep hdep'
  exact ⟨d, t, hd, hdd, ht, hlo, hcov, hlower⟩

/-- In a state where nothing is left to happen, dependences that can be met have been met. -/
theorem finished_of_complete (hbound : Bounded algo) {s : Interpreter} (hreached : Reached algo s)
    (hatt : Attended algo s) (heng : Engaged s) (hsched : Schedulable algo) (hdone : Complete s)
    {b : Nat} (hb : b < algo.nBlocks) : (s.tbs b).localStep = (algo.mscclTBs b).nsteps := by
  obtain ⟨rank, hmono, hmet⟩ := hsched
  have hidle (b : Nat) : (s.tbs b).busy = false := by
    apply Bool.eq_false_iff.mpr
    intro hbusy
    have hpos := heng b hbusy
    rw [inflight, hdone.1, hdone.2] at hpos
    exact absurd hpos (by simp)
  -- by induction on the rank of the transfer that an unfinished thread block waits to run
  have hall (n : Nat) : ∀ b < algo.nBlocks, rank b (s.tbs b).localStep = n →
      ¬ (s.tbs b).localStep < (algo.mscclTBs b).nsteps := by
    induction n using Nat.strong_induction_on with
    | _ n ih =>
        intro b hb hrank hlt
        have htran := List.getElem?_eq_getElem hlt
        rcases hatt b _ hb (hidle b) htran with hmem | ⟨dep, hdep, -, hflag⟩
        · rw [hdone.1] at hmem
          cases hmem
        · obtain ⟨d, t, hd, hdd, ht, hlo, hcov, hlower⟩ := hmet b _ _ hb htran dep hdep
          have hpub := hreached.flagged.flag d hd
          have hle := (algo.mscclTBs d).start_le (t + 1)
          have hcap := hbound d hd
          rw [computeFlag_zero hlo (by omega), hdd, hpub] at hflag
          have hbehind : (s.tbs d).localStep ≤ t := by
            by_contra hpast
            have hstart : (algo.mscclTBs d).start (t + 1) ≤
                (algo.mscclTBs d).start (s.tbs d).localStep :=
              (algo.mscclTBs d).start_mono (Nat.lt_of_not_le hpast)
            omega
          have hrank' : rank d (s.tbs d).localStep ≤ rank d t :=
            monotone_nat_of_le_succ (fun i => Nat.le_of_lt (hmono d i)) hbehind
          exact ih _ (by omega) d hd rfl (Nat.lt_of_le_of_lt hbehind ht)
  exact Nat.le_antisymm (hreached.accounted.localStep_le b) (Nat.le_of_not_lt (hall _ b hb rfl))

/-- No wake-up is lost and no transfer dispatched twice or out of order. Every run can only go on for so
long, and when nothing is left to happen and the dependences can be met, every transfer has been
dispatched. -/
theorem run_attended {s₀ s : Interpreter} {as : List Action} (hinit : interpretAlgo algo = some s₀)
    (hrun : Run (step algo) anyEvent s₀ as s) :
    Attended algo s ∧
    (∀ b, ∃ k ≤ (algo.mscclTBs b).nsteps, as.filterMap (Action.dispatches b) = List.range k) ∧
    as.length ≤ work algo s₀ ∧
    (AllImplemented algo → ∃ bs t, Run (step algo) anyEvent s bs t ∧ Complete t) ∧
    (Bounded algo → AllImplemented algo → Schedulable algo → Complete s → ∀ b < algo.nBlocks,
      as.filterMap (Action.dispatches b) = List.range (algo.mscclTBs b).nsteps) := by
  have hatt := (Attended.initial hinit).run hrun
  have hstart := reached_initial hinit
  have hlog (b : Nat) : as.filterMap (Action.dispatches b) = List.range (s.nextDispatch b) := by
    obtain ⟨-, hlog⟩ := dispatched_eq hstart.accounted hrun b
    have hzero : s₀.nextDispatch b = 0 := by
      obtain ⟨-, rfl⟩ := (interpretAlgo_eq_some algo).mp hinit
      exact nextDispatch_of_idle rfl
    rw [hlog, hzero, Nat.sub_zero, List.range_eq_range']
  have hacc : Accounted algo s :=
    hrun.invariant (fun _ _ _ hs _ hstep => hs.step (step_cases algo hstep)) hstart.accounted
  have hunr : s₀.Unrepeated := by
    obtain ⟨-, rfl⟩ := (interpretAlgo_eq_some algo).mp hinit
    exact fun z => List.nodup_nil
  refine ⟨hatt, fun b => ?_, run_length_le hstart.accounted hstart.inRange hunr hrun, fun himp => ?_,
    fun hbound himp hsched hdone b hb => ?_⟩
  · refine ⟨s.nextDispatch b, ?_, hlog b⟩
    rw [nextDispatch]
    by_cases hnext : (s.tbs b).busy = true ∧ .runStep b (s.tbs b).localStep ∉ s.pending
    · rw [if_pos hnext]
      exact hacc.busy_lt b hnext.1
    · rw [if_neg hnext]
      exact hacc.localStep_le b
  · have hunr' : s.Unrepeated :=
      hrun.invariant (fun _ _ _ hs _ hstep => hs.step (step_cases algo hstep)) hunr
    exact exists_complete himp hacc (hstart.inRange.run hrun) hunr'
  · have hkeep : ∀ s a s', InRange algo s ∧ Engaged s → anyEvent s a → step algo s a = some s' →
        InRange algo s' ∧ Engaged s' := by
      intro s a s' hs _ hstep
      have hstep := step_cases algo hstep
      exact ⟨hs.1.step hstep, hs.2.step himp hs.1 hstep⟩
    have heng := (hrun.invariant hkeep ⟨hstart.inRange, .initial hinit⟩).2
    have hfin := finished_of_complete hbound (hstart.run hbound hrun) hatt heng hsched hdone hb
    have hidle : (s.tbs b).busy = false := by
      apply Bool.eq_false_iff.mpr
      intro hbusy
      have hlt := hacc.busy_lt b hbusy
      omega
    rw [hlog, nextDispatch_of_idle hidle, hfin]

/-- The rest of the run after `copiesFirst`. -/
def copiesRest : List Action :=
  [.fire (.runStep 1 0), .finish 1 0, .fire (.tryScheduleNextStep 0), .fire (.stepCompletion 1 0),
   .fire (.tryScheduleNextStep 1)]

theorem nopThenCopy_attended :
    ∃ algos algo s₀ s, parseAlgoXml 1 (some (some nopThenCopy)) = .ok algos ∧
      algos 0 = some algo ∧ algo.nBlocks = 2 ∧ interpretAlgo algo = some s₀ ∧
      Run (step algo) anyEvent s₀ (copiesFirst ++ copiesRest) s ∧
      Bounded algo ∧ AllImplemented algo ∧ Schedulable algo ∧ Complete s ∧ Attended algo s ∧
      ∀ b < algo.nBlocks, (copiesFirst ++ copiesRest).filterMap (Action.dispatches b) =
        List.range (algo.mscclTBs b).nsteps := by
  have heval : ((algorithmOf 1 nopThenCopy 0).any fun algo =>
      decide (algo.nBlocks = 2 ∧
        (∀ b < algo.nBlocks, (algo.mscclTBs b).start (algo.mscclTBs b).nsteps < 2 ^ 63) ∧
        (∀ b < algo.nBlocks, ∀ tran ∈ (algo.mscclTBs b).transfers, Implemented tran.type) ∧
        Ranked algo fun b i => 2 * b + i) &&
      (interpretAlgo algo).any fun s₀ =>
        (execGuarded (step algo) anyEvent s₀ (copiesFirst ++ copiesRest)).any fun s =>
          decide (Complete s)) = true := by
    decide +kernel
  obtain ⟨algo, halgo, heval⟩ := (Option.any_eq_true _ _).mp heval
  obtain ⟨hchecks, heval⟩ := Bool.and_eq_true_iff.mp heval
  obtain ⟨hblocks, hbound, himp, hrank⟩ := of_decide_eq_true hchecks
  obtain ⟨s₀, hinit, heval⟩ := (Option.any_eq_true _ _).mp heval
  obtain ⟨s, hrun, hdone⟩ := exists_run (step algo) anyEvent Complete s₀ _ heval
  obtain ⟨algos, hparse, hgpu⟩ := parse_of_algorithmOf halgo
  have hsched : Schedulable algo := hrank.schedulable fun b i => Nat.lt_succ_self (2 * b + i)
  obtain ⟨hatt, -, -, -, hall⟩ := run_attended hinit hrun
  exact ⟨algos, algo, s₀, s, hparse, hgpu, hblocks, hinit, hrun, hbound, himp, hsched, hdone, hatt,
    hall hbound himp hsched hdone⟩

/-- Two thread blocks that wait for each other. -/
def crossWait : XmlNode :=
  algoElement [tbElement "0" [stepElement "cpy" "0" "1" "0"],
    tbElement "1" [stepElement "cpy" "0" "0" "0"]]

/-- Not every transfer of an accepted algorithm is dispatched. -/
theorem crossWait_not_dispatched :
    ∃ algos algo s₀ s, parseAlgoXml 1 (some (some crossWait)) = .ok algos ∧
      algos 0 = some algo ∧ algo.nBlocks = 2 ∧
      (∀ b < algo.nBlocks, ∀ tran ∈ (algo.mscclTBs b).transfers,
        ∀ dep ∈ (algo.mscclTBs b).dependences tran, 0 ≤ dep.1 ∧ dep.1 < algo.nBlocks) ∧
      interpretAlgo algo = some s₀ ∧
      Run (step algo) anyEvent s₀
        [.fire (.tryScheduleNextStep 0), .fire (.tryScheduleNextStep 1)] s ∧
      Complete s ∧ (algo.mscclTBs 0).nsteps = 1 ∧
      [Action.fire (.tryScheduleNextStep 0), .fire (.tryScheduleNextStep 1)].filterMap
        (Action.dispatches 0) ≠ List.range (algo.mscclTBs 0).nsteps := by
  have heval : ((algorithmOf 1 crossWait 0).any fun algo =>
      decide (algo.nBlocks = 2 ∧ (algo.mscclTBs 0).nsteps = 1 ∧
        ∀ b < algo.nBlocks, ∀ tran ∈ (algo.mscclTBs b).transfers,
          ∀ dep ∈ (algo.mscclTBs b).dependences tran, 0 ≤ dep.1 ∧ dep.1 < algo.nBlocks) &&
      (interpretAlgo algo).any fun s₀ => (execGuarded (step algo) anyEvent s₀
        [.fire (.tryScheduleNextStep 0), .fire (.tryScheduleNextStep 1)]).any fun s =>
          decide (Complete s)) = true := by
    decide +kernel
  obtain ⟨algo, halgo, heval⟩ := (Option.any_eq_true _ _).mp heval
  obtain ⟨hchecks, heval⟩ := Bool.and_eq_true_iff.mp heval
  obtain ⟨hblocks, hsteps, hdeps⟩ := of_decide_eq_true hchecks
  obtain ⟨s₀, hinit, heval⟩ := (Option.any_eq_true _ _).mp heval
  obtain ⟨s, hrun, hdone⟩ := exists_run (step algo) anyEvent Complete s₀ _ heval
  obtain ⟨algos, hparse, hgpu⟩ := parse_of_algorithmOf halgo
  refine ⟨algos, algo, s₀, s, hparse, hgpu, hblocks, hdeps, hinit, hrun, hdone, hsteps, ?_⟩
  rw [hsteps]
  decide

end Interpreter

end CollectiveSim.Msccl
