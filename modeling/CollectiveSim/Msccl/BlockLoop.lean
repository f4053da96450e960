import CollectiveSim.Msccl.Dependency

/-!
# The thread blocks of `InterpretAlgo`

The loop over the thread blocks counts in 8 bits up to the block count of the algorithm. Later every
lookup in `m_TBStates` creates the state of a thread block that it does not find there.
-/

namespace CollectiveSim.Msccl

open Framework

/-- The numbers below the block count, in order. -/
def blockIds (nBlocks : Nat) : List Int := (List.range nBlocks).map Nat.cast

theorem mem_blockIds {nBlocks : Nat} {z : Int} : z ∈ blockIds nBlocks ↔ 0 ≤ z ∧ z < nBlocks := by
  rw [blockIds, List.mem_map]
  constructor
  · rintro ⟨b, hb, rfl⟩
    have hlt := List.mem_range.mp hb
    omega
  · intro h
    exact ⟨z.toNat, List.mem_range.mpr (by omega), Int.toNat_of_nonneg h.1⟩

theorem blockIds_succ (n : Nat) : blockIds (n + 1) = blockIds n ++ [(n : Int)] := by
  rw [blockIds, List.range_succ, List.map_append]
  rfl

/-- The loop of `InterpretAlgo`: its counter, the keys of `m_TBStates`, and the thread blocks that are
scheduled to try their first step. -/
structure BlockLoop where
  bid : Int
  tbStates : List Int
  scheduled : List Int

namespace BlockLoop

def initial : BlockLoop where
  bid := 0
  tbStates := []
  scheduled := []

/-- One pass of the loop; `emplace` leaves a state that exists alone. -/
def pass (s : BlockLoop) : BlockLoop where
  bid := i8 (s.bid + 1)
  tbStates := if s.bid ∈ s.tbStates then s.tbStates else s.tbStates ++ [s.bid]
  scheduled := s.scheduled ++ [s.bid]

/-- The loop, with at most so many tests of its condition. -/
def run (nBlocks : Nat) : Nat → BlockLoop → Option BlockLoop
  | 0, _ => none
  | fuel + 1, s => if s.bid < nBlocks then run nBlocks fuel s.pass else some s

/-- After `n` passes. -/
def after (n : Nat) : BlockLoop where
  bid := n
  tbStates := blockIds n
  scheduled := blockIds n

theorem pass_after {n : Nat} (h : n < 127) : (after n).pass = after (n + 1) := by
  have hnew : ¬ (n : Int) ∈ blockIds n := by
    rw [mem_blockIds]
    omega
  rw [pass, after, after, blockIds_succ]
  simp only [if_neg hnew, Nat.cast_add, Nat.cast_one]
  rw [i8_of_mem (by omega) (by omega)]

theorem run_after {nBlocks : Nat} (h : nBlocks ≤ 127) (d : Nat) :
    ∀ n, n + d = nBlocks → run nBlocks (d + 1) (after n) = some (after nBlocks) := by
  induction d with
  | zero =>
      intro n hn
      rw [run, if_neg (by simp only [after]; omega), ← hn]
      rfl
  | succ d ih =>
      intro n hn
      rw [run, if_pos (by simp only [after]; omega), pass_after (by omega)]
      exact ih (n + 1) (by omega)

theorem run_eq_none {nBlocks : Nat} (h : 127 < nBlocks) (fuel : Nat) {s : BlockLoop}
    (hbid : s.bid ≤ 127) : run nBlocks fuel s = none := by
  induction fuel generalizing s with
  | zero => rfl
  | succ fuel ih =>
      rw [run, if_pos (by omega)]
      apply ih
      have hlt := Int.bmod_lt (x := s.bid + 1) (m := 2 ^ 8) (by decide)
      simp only [pass, i8]
      omega

theorem eq_of_run {nBlocks fuel n : Nat} {s : BlockLoop} (h : nBlocks ≤ 127) (hn : n ≤ nBlocks)
    (hrun : run nBlocks fuel (after n) = some s) : s = after nBlocks := by
  induction fuel generalizing n with
  | zero => cases hrun
  | succ fuel ih =>
      rw [run] at hrun
      by_cases hlt : n < nBlocks
      · rw [if_pos (by simp only [after]; omega), pass_after (by omega)] at hrun
        exact ih hlt hrun
      · rw [if_neg (by simp only [after]; omega), Option.some_inj] at hrun
        rw [← hrun, Nat.le_antisymm hn (Nat.le_of_not_lt hlt)]

/-- The loop ends with the states of exactly the blocks of the algorithm, each scheduled once. -/
def Covers (nBlocks : Nat) : Prop :=
  ∃ fuel s, run nBlocks fuel initial = some s ∧ s.tbStates = blockIds nBlocks ∧
    s.scheduled = blockIds nBlocks

theorem covers_iff (nBlocks : Nat) : Covers nBlocks ↔ nBlocks ≤ 127 := by
  constructor
  · rintro ⟨fuel, s, hrun, -, -⟩
    by_contra hlt
    rw [run_eq_none (Nat.lt_of_not_le hlt) fuel (by simp only [initial]; omega)] at hrun
    cases hrun
  · intro h
    exact ⟨nBlocks + 1, after nBlocks, run_after h nBlocks 0 (Nat.zero_add _), rfl, rfl⟩

end BlockLoop

namespace Interpreter

/-- The thread blocks that the loop over the dependences of a transfer looks up: it returns at the
first flag that is not reached. -/
def lookups (s : Interpreter) : List (Int × Int) → List Int
  | [] => []
  | dep :: deps =>
      if computeFlag 0 0 dep.2 > (s.tbs dep.1).flag then [dep.1] else dep.1 :: lookups s deps

variable (algo : MscclAlgorithm)

/-- The keys under which an action looks into `m_TBStates`. -/
def touches (s : Interpreter) : Action → List Int
  | .fire (.tryScheduleNextStep bid) =>
      (bid : Int) ::
        if (s.tbs bid).busy then []
        else
          match (algo.mscclTBs bid).transfers[(s.tbs bid).localStep]? with
          | none => []
          | some tran => s.lookups ((algo.mscclTBs bid).dependences tran)
  | .fire (.runStep _ _) => []
  | .fire (.stepCompletion bid _) => [(bid : Int)]
  | .finish _ _ => []

/-- A dependence on a thread block that the algorithm does not have stands behind one whose flag is
not reached. -/
def Shadowed (s : Interpreter) (deps : List (Int × Int)) : Prop :=
  ∀ (i : Nat) (dep : Int × Int), deps[i]? = some dep → ¬ dep.1 ∈ blockIds algo.nBlocks →
    ∃ (j : Nat) (dep' : Int × Int), j < i ∧ deps[j]? = some dep' ∧
      (s.tbs dep'.1).flag < computeFlag 0 0 dep'.2

/-- A thread block that tries its next transfer gets to no dependence on a thread block that the
algorithm does not have. -/
def Resolved (s : Interpreter) : Action → Prop
  | .fire (.tryScheduleNextStep bid) =>
      ∀ tran, (s.tbs bid).busy = false →
        (algo.mscclTBs bid).transfers[(s.tbs bid).localStep]? = some tran →
        s.Shadowed algo ((algo.mscclTBs bid).dependences tran)
  | _ => True

variable {algo}

theorem shadowed_cons (s : Interpreter) (dep : Int × Int) (deps : List (Int × Int)) :
    s.Shadowed algo (dep :: deps) ↔ dep.1 ∈ blockIds algo.nBlocks ∧
      (computeFlag 0 0 dep.2 ≤ (s.tbs dep.1).flag → s.Shadowed algo deps) := by
  constructor
  · intro h
    constructor
    · by_contra hnot
      obtain ⟨j, -, hj, -⟩ := h 0 dep rfl hnot
      cases hj
    · intro hmet i dep' hi hnot
      obtain ⟨j, dep'', hj, hget, hunmet⟩ := h (i + 1) dep' hi hnot
      cases j with
      | zero =>
          cases hget
          omega
      | succ j => exact ⟨j, dep'', by omega, hget, hunmet⟩
  · rintro ⟨hmem, hrest⟩ i dep' hi hnot
    cases i with
    | zero =>
        cases hi
        exact absurd hmem hnot
    | succ i =>
        by_cases hmet : computeFlag 0 0 dep.2 ≤ (s.tbs dep.1).flag
        · obtain ⟨j, dep'', hj, hget, hunmet⟩ := hrest hmet i dep' hi hnot
          exact ⟨j + 1, dep'', by omega, hget, hunmet⟩
        · exact ⟨0, dep, by omega, rfl, Int.lt_of_not_ge hmet⟩

theorem lookups_iff (s : Interpreter) (deps : List (Int × Int)) :
    (∀ z ∈ s.lookups deps, z ∈ blockIds algo.nBlocks) ↔ s.Shadowed algo deps := by
  induction deps with
  | nil => simp [lookups, Shadowed]
  | cons dep deps ih =>
      rw [lookups, shadowed_cons, ← ih]
      by_cases hmet : computeFlag 0 0 dep.2 ≤ (s.tbs dep.1).flag
      · rw [if_neg (Int.not_lt.mpr hmet), List.forall_mem_cons]
        simp only [hmet, true_implies]
      · rw [if_pos (Int.lt_of_not_ge hmet), List.forall_mem_singleton]
        simp only [hmet, false_implies, and_true]

theorem touches_iff {s s' : Interpreter} {a : Action} (hrange : InRange algo s)
    (hstep : step algo s a = some s') :
    (∀ z ∈ s.touches algo a, z ∈ blockIds algo.nBlocks) ↔ s.Resolved algo a := by
  have hown {bid : Nat} (h : bid < algo.nBlocks) : (bid : Int) ∈ blockIds algo.nBlocks :=
    mem_blockIds.mpr (by omega)
  have htry {bid : Nat} (hmem : .tryScheduleNextStep bid ∈ s.pending) :
      (∀ z ∈ s.touches algo (.fire (.tryScheduleNextStep bid)), z ∈ blockIds algo.nBlocks) ↔
        s.Resolved algo (.fire (.tryScheduleNextStep bid)) := by
    have hbid : (bid : Int) ∈ blockIds algo.nBlocks := hown (hrange.pending _ hmem)
    simp only [touches, Resolved, List.forall_mem_cons]
    by_cases hbusy : (s.tbs bid).busy = true
    · simp [hbusy, hbid]
    · cases htran : (algo.mscclTBs bid).transfers[(s.tbs bid).localStep]? with
      | none => simp [hbid]
      | some tran => simp [hbid, hbusy, lookups_iff]
  cases step_cases algo hstep with
  | idle hmem hidle => exact htry hmem
  | block hmem hbusy htran hdep => exact htry hmem
  | dispatch hmem hbusy htran hdep => exact htry hmem
  | start hmem htran htype => simp [touches, Resolved]
  | ignore hmem htran htype => simp [touches, Resolved]
  | @complete bid sid hmem =>
      have hbid : (bid : Int) ∈ blockIds algo.nBlocks := hown (hrange.pending _ hmem)
      simp only [touches, Resolved, List.forall_mem_singleton, hbid]
  | finish hmem => simp [touches, Resolved]

end Interpreter

/-- The interpreter with the keys of `m_TBStates`. -/
structure KeyedInterpreter where
  machine : Interpreter
  tbStates : List Int

namespace KeyedInterpreter

variable (algo : MscclAlgorithm)

/-- What the loop of `InterpretAlgo` leaves behind. -/
def interpretAlgo : Option KeyedInterpreter :=
  (Interpreter.interpretAlgo algo).map fun s => ⟨s, (BlockLoop.after algo.nBlocks).tbStates⟩

/-- A lookup of a thread block that is not there creates its state. -/
def step (s : KeyedInterpreter) (a : Action) : Option KeyedInterpreter :=
  (s.machine.step algo a).map fun t => ⟨t, s.tbStates ∪ s.machine.touches algo a⟩

/-- There are the states of the thread blocks of the algorithm and no others. -/
def Exact (s : KeyedInterpreter) : Prop := ∀ z, z ∈ s.tbStates ↔ z ∈ blockIds algo.nBlocks

def Resolved (s : KeyedInterpreter) (a : Action) : Prop := s.machine.Resolved algo a

variable {algo}

open BlockLoop in
/-- The interpreter starts with what the loop leaves behind. -/
theorem interpretAlgo_iff_loop {s : KeyedInterpreter} :
    interpretAlgo algo = some s ↔ algo.isValid = true ∧
      ∃ fuel l, run algo.nBlocks fuel BlockLoop.initial = some l ∧
        s = ⟨⟨fun _ => .new, l.scheduled.map fun b => .tryScheduleNextStep b.toNat, []⟩,
          l.tbStates⟩ := by
  have hscheduled : (after algo.nBlocks).scheduled.map (fun b => Event.tryScheduleNextStep b.toNat) =
      (List.range algo.nBlocks).map .tryScheduleNextStep := by
    simp [after, blockIds]
  rw [interpretAlgo, Option.map_eq_some_iff]
  constructor
  · rintro ⟨s', hs', rfl⟩
    obtain ⟨⟨hvalid, hle⟩, rfl⟩ := (Interpreter.interpretAlgo_eq_some algo).mp hs'
    refine ⟨hvalid, algo.nBlocks + 1, after algo.nBlocks, run_after hle _ 0 (Nat.zero_add _), ?_⟩
    rw [hscheduled]
  · rintro ⟨hvalid, fuel, l, hrun, rfl⟩
    have hle : algo.nBlocks ≤ 127 := by
      by_contra hlt
      rw [run_eq_none (Nat.lt_of_not_le hlt) fuel (by simp only [BlockLoop.initial]; omega)] at hrun
      cases hrun
    rw [eq_of_run hle (Nat.zero_le _) hrun, hscheduled]
    exact ⟨_, (Interpreter.interpretAlgo_eq_some algo).mpr ⟨⟨hvalid, hle⟩, rfl⟩, rfl⟩

theorem step_eq_some {s t : KeyedInterpreter} {a : Action} : step algo s a = some t ↔
    ∃ s', s.machine.step algo a = some s' ∧ t = ⟨s', s.tbStates ∪ s.machine.touches algo a⟩ := by
  rw [step, Option.map_eq_some_iff]
  exact exists_congr fun s' => and_congr_right fun _ => eq_comm

theorem exact_step_iff {s t : KeyedInterpreter} {a : Action} (hrange : s.machine.InRange algo)
    (hexact : s.Exact algo) (hstep : step algo s a = some t) : t.Exact algo ↔ s.Resolved algo a := by
  obtain ⟨s', hs', rfl⟩ := step_eq_some.mp hstep
  rw [Resolved, ← Interpreter.touches_iff hrange hs']
  constructor
  · intro h z hz
    exact (h z).mp (List.mem_union_iff.mpr (Or.inr hz))
  · intro h z
    rw [List.mem_union_iff, hexact z]
    constructor
    · rintro (hz | hz)
      · exact hz
      · exact h z hz
    · exact Or.inl

/-- The states of the thread blocks, and events for no others. -/
structure Started (algo : MscclAlgorithm) (s : KeyedInterpreter) : Prop where
  exact : s.Exact algo
  inRange : s.machine.InRange algo

theorem started_initial {s : KeyedInterpreter} (h : interpretAlgo algo = some s) :
    s.Started algo := by
  obtain ⟨s', hs', rfl⟩ := Option.map_eq_some_iff.mp h
  exact ⟨fun z => Iff.rfl, .initial hs'⟩

theorem Started.step_inRange {s t : KeyedInterpreter} {a : Action} (h : s.Started algo)
    (hstep : step algo s a = some t) : t.machine.InRange algo := by
  obtain ⟨s', hs', rfl⟩ := step_eq_some.mp hstep
  exact h.inRange.step (Interpreter.step_cases algo hs')

/-- No dependence of the algorithm names a thread block that it does not have. -/
def Named (algo : MscclAlgorithm) : Prop :=
  ∀ bid < algo.nBlocks, ∀ tran ∈ (algo.mscclTBs bid).transfers,
    ∀ dep ∈ (algo.mscclTBs bid).dependences tran, dep.1 ∈ blockIds algo.nBlocks

theorem resolved_of_named (hnamed : Named algo) {s t : KeyedInterpreter} {a : Action}
    (hrange : s.machine.InRange algo) (hstep : step algo s a = some t) : s.Resolved algo a := by
  obtain ⟨s', hs', rfl⟩ := step_eq_some.mp hstep
  have htry {bid : Nat} (hmem : .tryScheduleNextStep bid ∈ s.machine.pending) :
      s.machine.Resolved algo (.fire (.tryScheduleNextStep bid)) := by
    intro tran hbusy htran i dep hi hnot
    have hdep := hnamed bid (hrange.pending _ hmem) tran (List.mem_of_getElem? htran) dep
      (List.mem_of_getElem? hi)
    exact absurd hdep hnot
  cases Interpreter.step_cases algo hs' with
  | idle hmem hidle => exact htry hmem
  | block hmem hbusy htran hdep => exact htry hmem
  | dispatch hmem hbusy htran hdep => exact htry hmem
  | start hmem htran htype => trivial
  | ignore hmem htran htype => trivial
  | complete hmem => trivial
  | finish hmem => trivial

/-- If all dependences name thread blocks, no run creates the state of another one. -/
theorem exact_of_named (hnamed : Named algo) {s₀ s : KeyedInterpreter} {as : List Action}
    (hinit : interpretAlgo algo = some s₀) (hrun : Run (step algo) anyEvent s₀ as s) :
    s.Exact algo := by
  have hall : s.Started algo := by
    apply hrun.invariant _ (started_initial hinit)
    intro s a t hs _ hstep
    have hresolved := resolved_of_named hnamed hs.inRange hstep
    exact ⟨(exact_step_iff hs.inRange hs.exact hstep).mpr hresolved, hs.step_inRange hstep⟩
  exact hall.exact

end KeyedInterpreter

variable {nRanks gpuId : Nat} {root : XmlNode} {algo : MscclAlgorithm}

/-- As many thread blocks, without steps. -/
def emptyBlocks (nBlocks : Nat) : XmlNode :=
  algoElement ((List.range nBlocks).map fun bid => tbElement (toString bid) [])

end CollectiveSim.Msccl
