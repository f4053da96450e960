import Mathlib
import CollectiveSim.Framework.Run
import CollectiveSim.Msccl.Algorithm

/-!
# The algorithm interpreter

The events of one `CollectivesApplication`: thread blocks try to schedule their next step, `RunStep`
starts a transfer, and its completion publishes a flag. Scheduled events run in any order, and running
transfers complete in any order.
-/

namespace CollectiveSim.Msccl

open Framework

/-- `TBState`. -/
structure TBState where
  globalStep : Int
  localStep : Nat
  flag : Int
  busy : Bool
  tryReschedule : List Nat
  deriving DecidableEq

namespace TBState

/-- The state of a new thread block, also found under ids that name none. -/
def new : TBState where
  globalStep := 0
  localStep := 0
  flag := -1
  busy := false
  tryReschedule := []

/-- Remember who is to try again when the flag changes. -/
def insertTry (bid : Nat) (st : TBState) : TBState :=
  { st with tryReschedule := st.tryReschedule.insert bid }

/-- The next step is scheduled; the step counter moves past the folded dependences. -/
def dispatch (nDeps : Nat) (st : TBState) : TBState :=
  { st with
    globalStep := st.globalStep + (if nDeps > 0 then (nDeps : Int) - 1 else 0)
    busy := true }

/-- The step is done and its flag published. -/
def complete (st : TBState) : TBState where
  globalStep := st.globalStep + 1
  localStep := st.localStep + 1
  flag := computeFlag 0 0 st.globalStep
  busy := false
  tryReschedule := []

section

variable (st : TBState) (n : Nat)

@[simp] theorem insertTry_globalStep : (st.insertTry n).globalStep = st.globalStep := rfl
@[simp] theorem insertTry_localStep : (st.insertTry n).localStep = st.localStep := rfl
@[simp] theorem insertTry_flag : (st.insertTry n).flag = st.flag := rfl
@[simp] theorem insertTry_busy : (st.insertTry n).busy = st.busy := rfl
@[simp] theorem dispatch_localStep : (st.dispatch n).localStep = st.localStep := rfl
@[simp] theorem dispatch_flag : (st.dispatch n).flag = st.flag := rfl
@[simp] theorem dispatch_busy : (st.dispatch n).busy = true := rfl
@[simp] theorem dispatch_tryReschedule : (st.dispatch n).tryReschedule = st.tryReschedule := rfl
@[simp] theorem complete_localStep : st.complete.localStep = st.localStep + 1 := rfl
@[simp] theorem complete_flag : st.complete.flag = computeFlag 0 0 st.globalStep := rfl
@[simp] theorem complete_busy : st.complete.busy = false := rfl
@[simp] theorem complete_tryReschedule : st.complete.tryReschedule = [] := rfl

@[simp] theorem mem_insertTry {b : Nat} :
    b ∈ (st.insertTry n).tryReschedule ↔ b = n ∨ b ∈ st.tryReschedule :=
  List.mem_insert_iff

end

end TBState

/-- A scheduled member function. -/
inductive Event
  | tryScheduleNextStep (bid : Nat)
  | runStep (bid sid : Nat)
  | stepCompletion (bid sid : Nat)
  deriving DecidableEq

structure Interpreter where
  tbs : Int → TBState
  pending : List Event
  /-- the transfers that `RunStep` has started and that have not completed -/
  running : List (Nat × Nat)

/-- A scheduled event runs, or a transfer completes and schedules its callback. -/
inductive Action
  | fire (e : Event)
  | finish (bid sid : Nat)
  deriving DecidableEq

/-- The transfer of `bid` that the action calls `RunStep` for. -/
def Action.dispatches (bid : Nat) : Action → Option Nat
  | .fire (.runStep b sid) => if b = bid then some sid else none
  | _ => none

/-- The transfer of `bid` that the action reports complete. -/
def Action.completes (bid : Nat) : Action → Option Nat
  | .fire (.stepCompletion b sid) => if b = bid then some sid else none
  | _ => none

namespace Interpreter

/-- The first dependence of the transfer whose flag is not reached. -/
def blocking (s : Interpreter) (deps : List (Int × Int)) : Option (Int × Int) :=
  deps.find? fun dep => decide (computeFlag 0 0 dep.2 > (s.tbs dep.1).flag)

def updateTb (s : Interpreter) (bid : Int) (f : TBState → TBState) : Interpreter :=
  { s with tbs := Function.update s.tbs bid (f (s.tbs bid)) }

def schedule (s : Interpreter) (es : List Event) : Interpreter :=
  { s with pending := s.pending ++ es }

variable (algo : MscclAlgorithm)

/-- `TryScheduleNextStep`. -/
def tryScheduleNextStep (bid : Nat) (s : Interpreter) : Interpreter :=
  let tb := algo.mscclTBs bid
  let tbState := s.tbs bid
  if tbState.busy then s
  else
    match tb.transfers[tbState.localStep]? with
    | none => s
    | some tran =>
        match s.blocking (tb.dependences tran) with
        | some dep =>
            s.updateTb dep.1 (.insertTry bid)
        | none =>
            (s.updateTb bid (.dispatch tran.numDependences)).schedule
              [.runStep bid tbState.localStep]

/-- `StepCompletionCallback`. -/
def stepCompletion (bid : Nat) (s : Interpreter) : Interpreter :=
  (s.updateTb bid .complete).schedule
    ((bid :: (s.tbs bid).tryReschedule).map .tryScheduleNextStep)

/-- `RunStep`: the transfer runs; types without an implementation end the program, and `ra` is
ignored. -/
def runStep (bid sid : Nat) (s : Interpreter) : Option Interpreter :=
  match (algo.mscclTBs bid).transfers[sid]? with
  | none => none
  | some tran =>
      match tran.type with
      | .send | .recv | .recvReduceCopy | .localCopy =>
          some { s with running := s.running ++ [(bid, sid)] }
      | .resAdd => some s
      | .recvCopySend | .recvReduceSend | .recvReduceCopySend | .reduce => none

instance (s : Interpreter) (bid sid : Nat) : Decidable ((bid, sid) ∈ s.running) := inferInstance

/-- One event or completion; `none` when it is not there to happen. -/
def step (s : Interpreter) : Action → Option Interpreter
  | .fire e =>
      if e ∈ s.pending then
        let s := { s with pending := s.pending.erase e }
        match e with
        | .tryScheduleNextStep bid => some (tryScheduleNextStep algo bid s)
        | .runStep bid sid => runStep algo bid sid s
        | .stepCompletion bid _ => some (stepCompletion bid s)
      else none
  | .finish bid sid =>
      if (bid, sid) ∈ s.running then
        some ({ s with running := s.running.erase (bid, sid) }.schedule [.stepCompletion bid sid])
      else none

/-- `InterpretAlgo`: every thread block tries its first step. The 8-bit loop variable only gets past
127 blocks. -/
def interpretAlgo : Option Interpreter :=
  if algo.isValid ∧ algo.nBlocks ≤ 127 then
    some {
      tbs := fun _ => .new
      pending := (List.range algo.nBlocks).map .tryScheduleNextStep
      running := [] }
  else none

theorem interpretAlgo_eq_some {s : Interpreter} : interpretAlgo algo = some s ↔
    (algo.isValid = true ∧ algo.nBlocks ≤ 127) ∧
      s = ⟨fun _ => .new, (List.range algo.nBlocks).map .tryScheduleNextStep, []⟩ := by
  rw [interpretAlgo]
  by_cases hok : algo.isValid = true ∧ algo.nBlocks ≤ 127
  · rw [if_pos hok, Option.some_inj]
    constructor
    · intro h
      exact ⟨hok, h.symm⟩
    · intro h
      exact h.2.symm
  · rw [if_neg hok]
    constructor
    · intro h
      cases h
    · intro h
      exact absurd h.1 hok

/-- The transfer types that `RunStep` implements. -/
def Implemented : TransferType → Prop
  | .send | .recv | .recvReduceCopy | .localCopy => True
  | _ => False

instance : DecidablePred Implemented
  | .send | .recv | .recvReduceCopy | .localCopy => isTrue trivial
  | .recvCopySend | .recvReduceSend | .recvReduceCopySend | .reduce | .resAdd => isFalse id

/-- The event is taken from the schedule. -/
def take (s : Interpreter) (e : Event) : Interpreter := { s with pending := s.pending.erase e }

/-! ### Frame lemmas -/

section Frame

variable (s : Interpreter) (e : Event) (es : List Event) (bid : Int) (f : TBState → TBState)

@[simp] theorem take_tbs : (s.take e).tbs = s.tbs := rfl
@[simp] theorem take_running : (s.take e).running = s.running := rfl
@[simp] theorem take_pending : (s.take e).pending = s.pending.erase e := rfl
@[simp] theorem schedule_tbs : (s.schedule es).tbs = s.tbs := rfl
@[simp] theorem schedule_running : (s.schedule es).running = s.running := rfl
@[simp] theorem schedule_pending : (s.schedule es).pending = s.pending ++ es := rfl
@[simp] theorem updateTb_pending : (s.updateTb bid f).pending = s.pending := rfl
@[simp] theorem updateTb_running : (s.updateTb bid f).running = s.running := rfl

@[simp] theorem updateTb_self : (s.updateTb bid f).tbs bid = f (s.tbs bid) :=
  Function.update_self ..

theorem updateTb_of_ne {bid bid' : Int} (h : bid' ≠ bid) :
    (s.updateTb bid f).tbs bid' = s.tbs bid' :=
  Function.update_of_ne h ..

theorem updateTb_proj {α : Type*} (g : TBState → α) (hg : ∀ x, g (f x) = g x) (bid' : Int) :
    g ((s.updateTb bid f).tbs bid') = g (s.tbs bid') := by
  by_cases h : bid' = bid
  · rw [h, updateTb_self, hg]
  · rw [updateTb_of_ne s f h]

end Frame

/-- All that one step can do. -/
inductive Step (algo : MscclAlgorithm) (s : Interpreter) : Action → Interpreter → Prop
  | idle {bid : Nat} (hmem : .tryScheduleNextStep bid ∈ s.pending)
      (hidle : (s.tbs bid).busy = true ∨
        (algo.mscclTBs bid).transfers[(s.tbs bid).localStep]? = none) :
      Step algo s (.fire (.tryScheduleNextStep bid)) (s.take (.tryScheduleNextStep bid))
  | block {bid : Nat} {tran : MscclTransfer} {dep : Int × Int}
      (hmem : .tryScheduleNextStep bid ∈ s.pending) (hbusy : (s.tbs bid).busy = false)
      (htran : (algo.mscclTBs bid).transfers[(s.tbs bid).localStep]? = some tran)
      (hdep : s.blocking ((algo.mscclTBs bid).dependences tran) = some dep) :
      Step algo s (.fire (.tryScheduleNextStep bid))
        ((s.take (.tryScheduleNextStep bid)).updateTb dep.1 (.insertTry bid))
  | dispatch {bid : Nat} {tran : MscclTransfer}
      (hmem : .tryScheduleNextStep bid ∈ s.pending) (hbusy : (s.tbs bid).busy = false)
      (htran : (algo.mscclTBs bid).transfers[(s.tbs bid).localStep]? = some tran)
      (hdep : s.blocking ((algo.mscclTBs bid).dependences tran) = none) :
      Step algo s (.fire (.tryScheduleNextStep bid))
        (((s.take (.tryScheduleNextStep bid)).updateTb bid (.dispatch tran.numDependences)).schedule
          [.runStep bid (s.tbs bid).localStep])
  | start {bid sid : Nat} {tran : MscclTransfer} (hmem : .runStep bid sid ∈ s.pending)
      (htran : (algo.mscclTBs bid).transfers[sid]? = some tran) (htype : Implemented tran.type) :
      Step algo s (.fire (.runStep bid sid))
        { s.take (.runStep bid sid) with running := s.running ++ [(bid, sid)] }
  | ignore {bid sid : Nat} {tran : MscclTransfer} (hmem : .runStep bid sid ∈ s.pending)
      (htran : (algo.mscclTBs bid).transfers[sid]? = some tran) (htype : tran.type = .resAdd) :
      Step algo s (.fire (.runStep bid sid)) (s.take (.runStep bid sid))
  | complete {bid sid : Nat} (hmem : .stepCompletion bid sid ∈ s.pending) :
      Step algo s (.fire (.stepCompletion bid sid))
        (stepCompletion bid (s.take (.stepCompletion bid sid)))
  | finish {bid sid : Nat} (hmem : (bid, sid) ∈ s.running) :
      Step algo s (.finish bid sid)
        ({ s with running := s.running.erase (bid, sid) }.schedule [.stepCompletion bid sid])

theorem step_cases {s s' : Interpreter} {a : Action} (h : step algo s a = some s') :
    Step algo s a s' := by
  cases a with
  | finish bid sid =>
      rw [step] at h
      by_cases hmem : (bid, sid) ∈ s.running
      · rw [if_pos hmem, Option.some_inj] at h
        rw [← h]
        exact .finish hmem
      · rw [if_neg hmem] at h
        cases h
  | fire e =>
      rw [step] at h
      by_cases hmem : e ∈ s.pending
      · rw [if_pos hmem] at h
        cases e with
        | stepCompletion bid sid =>
            obtain rfl := Option.some_inj.mp h
            exact .complete hmem
        | runStep bid sid =>
            simp only [runStep] at h
            cases htran : (algo.mscclTBs bid).transfers[sid]? with
            | none =>
                rw [htran] at h
                cases h
            | some tran =>
                rw [htran] at h
                cases htype : tran.type <;> simp only [htype] at h <;> cases h
                · exact .start hmem htran (by rw [htype]; trivial)
                · exact .start hmem htran (by rw [htype]; trivial)
                · exact .start hmem htran (by rw [htype]; trivial)
                · exact .start hmem htran (by rw [htype]; trivial)
                · exact .ignore hmem htran htype
        | tryScheduleNextStep bid =>
            obtain rfl := Option.some_inj.mp h
            rw [tryScheduleNextStep]
            by_cases hbusy : (s.tbs bid).busy = true
            · rw [if_pos hbusy]
              exact .idle hmem (Or.inl hbusy)
            · rw [if_neg hbusy]
              cases htran : (algo.mscclTBs bid).transfers[(s.tbs bid).localStep]? with
              | none =>
                  exact .idle hmem (Or.inr htran)
              | some tran =>
                  cases hdep : s.blocking ((algo.mscclTBs bid).dependences tran) with
                  | none => 
                      have hb : blocking { s with pending := s.pending.erase (.tryScheduleNextStep bid) }
                        ((algo.mscclTBs bid).dependences tran) = none := hdep
                      simp only [hb]
                      exact .dispatch hmem (Bool.eq_false_iff.mpr hbusy) htran hdep
                  | some dep =>
                      have hb : blocking { s with pending := s.pending.erase (.tryScheduleNextStep bid) }
                        ((algo.mscclTBs bid).dependences tran) = some dep := hdep
                      simp only [hb]
                      exact .block hmem (Bool.eq_false_iff.mpr hbusy) htran hdep
      · rw [if_neg hmem] at h
        cases h

end Interpreter

end CollectiveSim.Msccl
