import CollectiveSim.Msccl.Precedence

/-!
# The transfers whose effect is settled

A send takes effect when it starts and any other transfer when it is finished. The transfers that have
taken effect, in the order in which they did, are the history of a run.
-/

namespace CollectiveSim.Msccl

open Framework Interpreter

/-- Whether the transfer is a send. -/
def MscclThreadBlock.isSend (tb : MscclThreadBlock) (sid : Nat) : Bool :=
  tb.transfers[sid]?.any fun tran => decide (tran.type = .send)

namespace Interpreter

variable {algo : MscclAlgorithm} {s s' : Interpreter} {b i : Nat}

/-- The number of transfers of a thread block that have taken effect. -/
def covered (algo : MscclAlgorithm) (s : Interpreter) (b : Nat) : Nat :=
  s.nextFinish b +
    if (b, s.nextFinish b) ∈ s.running ∧ (algo.mscclTBs b).isSend (s.nextFinish b) then 1 else 0

theorem covered_congr (hnext : s'.nextFinish b = s.nextFinish b)
    (hrun : ∀ i, (b, i) ∈ s'.running ↔ (b, i) ∈ s.running) :
    covered algo s' b = covered algo s b := by
  simp only [covered, hnext, hrun]

theorem covered_of_not_running (h : ∀ i, (b, i) ∉ s.running) :
    covered algo s b = s.nextFinish b := by
  simp [covered, h]

theorem Accounted.covered_of_running (h : Accounted algo s) (hmem : (b, i) ∈ s.running) :
    covered algo s b = if (algo.mscclTBs b).isSend i then i + 1 else i := by
  rw [covered, (h.next_of_running hmem).2]
  by_cases hsend : (algo.mscclTBs b).isSend i = true
  · simp [hmem, hsend]
  · simp [hsend]

theorem localStep_le_covered (algo : MscclAlgorithm) (s : Interpreter) (b : Nat) :
    (s.tbs b).localStep ≤ covered algo s b :=
  Nat.le_trans (localStep_le_nextFinish s b) (Nat.le_add_right _ _)

theorem Accounted.covered_le_scheduled (h : Accounted algo s) (b : Nat) :
    covered algo s b ≤ s.scheduled b := by
  by_cases hrun : ∃ i, (b, i) ∈ s.running
  · obtain ⟨i, hi⟩ := hrun
    obtain ⟨hbusy, rfl⟩ := h.of_running hi
    rw [h.covered_of_running hi, scheduled, if_pos hbusy]
    split <;> omega
  · rw [covered_of_not_running fun i hi => hrun ⟨i, hi⟩, scheduled, nextFinish]
    split
    · rename_i hdone
      rw [if_pos (h.of_stepCompletion hdone).1]
    · exact Nat.le_add_right _ _

theorem Accounted.idle_of_runStep (h : Accounted algo s) (hmem : .runStep b i ∈ s.pending) :
    (∀ j, (b, j) ∉ s.running) ∧ covered algo s b = i := by
  have hnone : ∀ j, (b, j) ∉ s.running := by
    intro j hj
    have hnext := (h.next_of_running hj).1
    have hcur := (h.next_of_runStep hmem).1
    have hj' := (h.of_running hj).2
    have hi' := (h.of_runStep hmem).2
    omega
  constructor
  · exact hnone
  · rw [covered_of_not_running hnone]
    exact (h.next_of_runStep hmem).2

theorem Step.covered_start {sid : Nat} (hstep : Step algo s (.fire (.runStep b sid)) s')
    (hacc : Accounted algo s) (hacc' : Accounted algo s')
    (hrunning : s'.running = s.running ++ [(b, sid)]) (b' : Nat) :
    covered algo s' b' =
      if b' = b ∧ (algo.mscclTBs b).isSend sid then sid + 1 else covered algo s b' := by
  have hmem : .runStep b sid ∈ s.pending := by
    cases hstep with
    | start hmem htran htype => exact hmem
    | ignore hmem htran htype => exact hmem
  by_cases hb : b' = b
  · subst hb
    have hrun : (b', sid) ∈ s'.running := by
      rw [hrunning]
      exact List.mem_append_right _ List.mem_cons_self
    rw [hacc'.covered_of_running hrun, (hacc.idle_of_runStep hmem).2]
    simp
  · rw [if_neg (fun h => hb h.1)]
    apply covered_congr (hstep.nextFinish_fire hacc b')
    intro i
    simp [hrunning, hb]

theorem Step.covered_finish {sid : Nat} (hstep : Step algo s (.finish b sid) s')
    (hacc : Accounted algo s) (b' : Nat) :
    covered algo s' b' = if b' = b then sid + 1 else covered algo s b' := by
  have hnext := (hstep.finished hacc b').2
  cases hstep with
  | finish hmem =>
      by_cases hb : b' = b
      · subst hb
        rw [if_pos rfl] at hnext ⊢
        rw [covered_of_not_running, hnext]
        intro j hj
        have hj' : (b', j) ∈ s.running.erase (b', sid) := hj
        have hcur := (hacc.of_running hmem).2
        have hother := (hacc.of_running (List.mem_of_mem_erase hj')).2
        have hone := hacc.inflight_le b' sid
        have hsub : j = sid := by omega
        subst hsub
        have hcount := List.count_pos_iff.mpr hj'
        rw [List.count_erase_self] at hcount
        rw [inflight] at hone
        omega
      · rw [if_neg hb] at hnext ⊢
        apply covered_congr hnext
        intro i
        exact List.mem_erase_of_ne (by simp [hb])

end Interpreter

/-! ### The history of a run -/

/-- The transfer uses this end of the connection. -/
def Op.on (algos : Nat → Option MscclAlgorithm) (side : Side) (c : ConnId) (op : Op) : Bool :=
  (op.transfer algos).any fun tran =>
    (op.slot algos side tran).any fun slot => decide (slot.conn = c)

/-- The transfers that have taken effect. -/
def Op.Covered (algos : Nat → Option MscclAlgorithm) (interp : Nat → Interpreter) (op : Op) : Prop :=
  ∃ algo tran, algos op.gpu = some algo ∧ op.transfer algos = some tran ∧
    op.sid < (interp op.gpu).covered algo op.bid

/-- The history is a list of all the transfers that have taken effect, and for each end of a connection
it has those that its thread block has come to. -/
structure Tracked (algos : Nat → Option MscclAlgorithm) (interp : Nat → Interpreter)
    (order : List Op) : Prop where
  reached : ∀ gpu algo, algos gpu = some algo → Reached algo (interp gpu)
  nodup : order.Nodup
  mem : ∀ op : Op, op ∈ order ↔ op.Covered algos interp
  count : ∀ (side : Side) (c : ConnId) (gpu bid : Nat) (algo : MscclAlgorithm),
    side.Uses algos c gpu bid algo →
      order.countP (Op.on algos side c) =
        side.index (algo.mscclTBs bid) ((interp gpu).covered algo bid)

section

variable {cfg : AppConfig} {nRanks : Nat} {root : XmlNode} {algos : Nat → Option MscclAlgorithm}
  {counts : ConnId → List Nat} {algo : MscclAlgorithm} {interp interp' : Nat → Interpreter}
  {order : List Op} {u : Op} {tran : MscclTransfer}

theorem Op.on_eq_true {side : Side} {c : ConnId} {op : Op} : op.on algos side c = true ↔
    ∃ tran, op.transfer algos = some tran ∧ ∃ slot, op.slot algos side tran = some slot ∧
      slot.conn = c := by
  simp only [Op.on, Option.any_eq_true, decide_eq_true_eq]

theorem Op.on_eq_has {side : Side} {c : ConnId} (htran : u.transfer algos = some tran)
    (htb : u.tb algos = algo.mscclTBs u.bid) (huses : side.Uses algos c u.gpu u.bid algo) :
    u.on algos side c = side.Has tran.type := by
  rw [Bool.eq_iff_iff, Op.on_eq_true]
  constructor
  · rintro ⟨tran', htran', slot, hslot, -⟩
    obtain rfl := Option.some_inj.mp (htran.symm.trans htran')
    exact (Op.slot_eq_some.mp hslot).1.1
  · intro hhas
    refine ⟨tran, htran, _, Op.slot_eq_some.mpr ⟨⟨hhas, ?_⟩, rfl⟩, ?_⟩
    · rw [htb]
      exact huses.peer
    · rw [htb]
      exact huses.conn

theorem Side.index_succ (side : Side) {tb : MscclThreadBlock} {sid : Nat}
    (htran : tb.transfers[sid]? = some tran) :
    side.index tb (sid + 1) = side.index tb sid + if side.Has tran.type then 1 else 0 := by
  rw [Side.index, Side.index, List.take_add_one, htran, Option.toList_some, List.countP_append,
    List.countP_singleton]

theorem tracked_initial (hinterp : ∀ gpu algo, algos gpu = some algo →
    interpretAlgo algo = some (interp gpu)) : Tracked algos interp [] := by
  have hzero {gpu : Nat} {algo : MscclAlgorithm} (halgo : algos gpu = some algo) (b : Nat) :
      (interp gpu).covered algo b = 0 := by
    obtain ⟨-, hinit⟩ := (interpretAlgo_eq_some algo).mp (hinterp gpu algo halgo)
    rw [covered_of_not_running (by simp [hinit]), nextFinish, hinit]
    simp [TBState.new]
  constructor
  · exact fun gpu algo halgo => reached_initial (hinterp gpu algo halgo)
  · exact List.nodup_nil
  · intro op
    constructor
    · intro hmem
      cases hmem
    · rintro ⟨algo, tran, halgo, htran, hlt⟩
      rw [hzero halgo] at hlt
      exact absurd hlt (Nat.not_lt_zero _)
  · intro side c gpu bid algo huses
    rw [hzero huses.gpu_algo]
    rfl

namespace Tracked

theorem same (h : Tracked algos interp order)
    (hreached : ∀ gpu algo, algos gpu = some algo → Reached algo (interp' gpu))
    (hcovered : ∀ gpu algo, algos gpu = some algo → ∀ b,
      (interp' gpu).covered algo b = (interp gpu).covered algo b) : Tracked algos interp' order := by
  constructor
  · exact hreached
  · exact h.nodup
  · intro op
    rw [h.mem]
    constructor
    · rintro ⟨algo, tran, halgo, htran, hlt⟩
      exact ⟨algo, tran, halgo, htran, by rwa [hcovered _ _ halgo]⟩
    · rintro ⟨algo, tran, halgo, htran, hlt⟩
      exact ⟨algo, tran, halgo, htran, by rwa [hcovered _ _ halgo] at hlt⟩
  · intro side c gpu bid algo huses
    rw [hcovered _ _ huses.gpu_algo]
    exact h.count side c gpu bid algo huses

theorem add (h : Tracked algos interp order) (hpaired : Paired algos counts)
    (halgo : algos u.gpu = some algo) (htran : u.transfer algos = some tran)
    (hreached : ∀ gpu algo, algos gpu = some algo → Reached algo (interp' gpu))
    (hnext : (interp u.gpu).covered algo u.bid = u.sid)
    (hcovered : ∀ gpu algo, algos gpu = some algo → ∀ b, (interp' gpu).covered algo b =
      if gpu = u.gpu ∧ b = u.bid then u.sid + 1 else (interp gpu).covered algo b) :
    Tracked algos interp' (order ++ [u]) := by
  obtain ⟨algo', halgo', hbid, htb, hget⟩ := Op.transfer_eq_some.mp htran
  obtain rfl := Option.some_inj.mp (halgo.symm.trans halgo')
  constructor
  · exact hreached
  · apply List.nodup_append'.mpr
    refine ⟨h.nodup, List.nodup_singleton u, ?_⟩
    intro op hop hu
    rw [List.mem_singleton.mp hu, h.mem] at hop
    obtain ⟨algo', tran', halgo', -, hlt⟩ := hop
    obtain rfl := Option.some_inj.mp (halgo.symm.trans halgo')
    omega
  · intro op
    rw [List.mem_append, List.mem_singleton, h.mem]
    constructor
    · rintro (⟨algo', tran', halgo', htran', hlt⟩ | rfl)
      · refine ⟨algo', tran', halgo', htran', ?_⟩
        rw [hcovered _ _ halgo']
        split
        · rename_i heq
          obtain ⟨hgpu, hb⟩ := heq
          rw [hgpu] at halgo' hlt
          obtain rfl := Option.some_inj.mp (halgo.symm.trans halgo')
          rw [hb, hnext] at hlt
          omega
        · exact hlt
      · exact ⟨algo, tran, halgo, htran, by rw [hcovered _ _ halgo, if_pos ⟨rfl, rfl⟩]; omega⟩
    · rintro ⟨algo', tran', halgo', htran', hlt⟩
      rw [hcovered _ _ halgo'] at hlt
      split at hlt
      · rename_i heq
        obtain ⟨hgpu, hb⟩ := heq
        rcases Nat.lt_or_eq_of_le (Nat.le_of_lt_succ hlt) with hlt | hsid
        · left
          refine ⟨algo', tran', halgo', htran', ?_⟩
          rw [hgpu] at halgo' ⊢
          obtain rfl := Option.some_inj.mp (halgo.symm.trans halgo')
          rwa [hb, hnext]
        · right
          obtain ⟨gpu, bid, sid⟩ := op
          cases hgpu
          cases hb
          cases hsid
          rfl
      · exact Or.inl ⟨algo', tran', halgo', htran', hlt⟩
  · intro side c gpu bid algo' huses
    rw [List.countP_append, List.countP_singleton, h.count side c gpu bid algo' huses,
      hcovered _ _ huses.gpu_algo]
    by_cases heq : gpu = u.gpu ∧ bid = u.bid
    · obtain ⟨rfl, rfl⟩ := heq
      obtain rfl := Option.some_inj.mp (halgo.symm.trans huses.gpu_algo)
      have hsame : u.gpu = u.gpu ∧ u.bid = u.bid := ⟨rfl, rfl⟩
      rw [if_pos hsame, hnext, Side.index_succ side hget, Op.on_eq_has htran htb huses]
    · rw [if_neg heq]
      have hoff : u.on algos side c = false := by
        rw [Bool.eq_false_iff]
        intro hon
        obtain ⟨tran', htran', slot, hslot, rfl⟩ := Op.on_eq_true.mp hon
        have huses' := u.uses halgo htran' hslot
        obtain ⟨hgpu, hb⟩ := hpaired.unique side _ _ _ _ _ _ _ huses huses'
        exact heq ⟨hgpu, hb⟩
      rw [hoff]
      rfl

theorem mem_of_before (h : Tracked algos interp order) (hprog : Program cfg nRanks root algos counts)
    (hmessage : ∀ (a b : Op) (tran tran' : MscclTransfer) (slot : Slot),
      a.transfer algos = some tran → b.transfer algos = some tran' →
      a.slot algos .sending tran = some slot → b.takes cfg algos tran' = some slot →
      b ∈ order → a ∈ order)
    {a b : Op} (ha : (a.transfer algos).isSome) (hab : Op.Before cfg root algos a b)
    (hb : b ∈ order) : a ∈ order := by
  -- a step is settled with its transfer
  let Settled (p : StepId) : Prop :=
    ∃ algo, algos p.gpu = some algo ∧ p.Within algo ((interp p.gpu).covered algo)
  have hsettled {op : Op} (htran : (op.transfer algos).isSome) :
      op ∈ order ↔ Settled (op.step algos) := by
    obtain ⟨tran, htran⟩ := Option.isSome_iff_exists.mp htran
    obtain ⟨algo, halgo, -, -, hget⟩ := Op.transfer_eq_some.mp htran
    rw [h.mem]
    constructor
    · rintro ⟨algo', tran', halgo', -, hlt⟩
      obtain rfl := Option.some_inj.mp (halgo.symm.trans halgo')
      exact ⟨algo, halgo, (Op.step_within halgo hget).mpr hlt⟩
    · rintro ⟨algo', halgo', hwithin⟩
      obtain rfl := Option.some_inj.mp (halgo.symm.trans halgo')
      exact ⟨algo, tran, halgo, htran, (Op.step_within halgo hget).mp hwithin⟩
  have hpred {p q : StepId} (hpq : StepBefore cfg root algos p q) (hq : Settled q) : Settled p := by
    cases hpq with
    | inner hlocal =>
        obtain ⟨algo, halgo, hwithin⟩ := hq
        have hgpu := hlocal.gpu_eq
        have hreached := h.reached _ _ halgo
        have hp := (hprog.accepted _ _ halgo).within_of_before (hprog.plain _ _ halgo)
          (hprog.blocks _ _ halgo) hreached
          (fun b => localStep_le_covered algo _ b)
          (fun b => hreached.accounted.covered_le_scheduled b) hlocal rfl hwithin
        exact ⟨algo, by rw [hgpu]; exact halgo, by rw [hgpu]; exact hp⟩
    | message ha hb hsend htake =>
        have hmem := (hsettled (by rw [hb]; rfl)).mpr hq
        exact (hsettled (by rw [ha]; rfl)).mp (hmessage _ _ _ _ _ ha hb hsend htake hmem)
  rw [hsettled ha]
  have hb' : Settled (b.step algos) := by
    obtain ⟨-, tran, -, htran, -⟩ := (h.mem b).mp hb
    exact (hsettled (by rw [htran]; rfl)).mp hb
  rw [Op.Before] at hab
  generalize a.step algos = p at hab ⊢
  induction hab using Relation.TransGen.head_induction_on with
  | single hpq => exact hpred hpq hb'
  | head hpq _ ih => exact hpred hpq ih

/-! #### What the steps of an interpreter add -/

variable {gpu bid sid : Nat} {i : Interpreter}

theorem reached_update (h : Tracked algos interp order) (hprog : Program cfg nRanks root algos counts)
    (halgo : algos gpu = some algo) {a : Action} (hstep : Step algo (interp gpu) a i) (gpu' : Nat)
    (algo' : MscclAlgorithm) (halgo' : algos gpu' = some algo') :
    Reached algo' (Function.update interp gpu i gpu') := by
  by_cases hgpu : gpu' = gpu
  · subst hgpu
    obtain rfl := Option.some_inj.mp (halgo.symm.trans halgo')
    have hold := h.reached _ _ halgo
    have hbound := (hprog.accepted _ _ halgo).bounded (hprog.plain _ _ halgo)
    rw [Function.update_self]
    exact ⟨hold.accounted.step hstep, hold.inRange.step hstep,
      hold.flagged.step hbound hold.accounted hold.inRange hstep⟩
  · rw [Function.update_of_ne hgpu]
    exact h.reached _ _ halgo'

theorem same_update (h : Tracked algos interp order) (hprog : Program cfg nRanks root algos counts)
    (halgo : algos gpu = some algo) {a : Action} (hstep : Step algo (interp gpu) a i)
    (hcovered : ∀ b, i.covered algo b = (interp gpu).covered algo b) :
    Tracked algos (Function.update interp gpu i) order := by
  apply h.same (h.reached_update hprog halgo hstep)
  intro gpu' algo' halgo' b
  by_cases hgpu : gpu' = gpu
  · subst hgpu
    obtain rfl := Option.some_inj.mp (halgo.symm.trans halgo')
    rw [Function.update_self, hcovered]
  · rw [Function.update_of_ne hgpu]

theorem add_update (h : Tracked algos interp order) (hprog : Program cfg nRanks root algos counts)
    (halgo : algos u.gpu = some algo) (htran : u.transfer algos = some tran) {a : Action}
    (hstep : Step algo (interp u.gpu) a i) (hnext : (interp u.gpu).covered algo u.bid = u.sid)
    (hcovered : ∀ b, i.covered algo b =
      if b = u.bid then u.sid + 1 else (interp u.gpu).covered algo b) :
    Tracked algos (Function.update interp u.gpu i) (order ++ [u]) := by
  apply h.add hprog.paired halgo htran (h.reached_update hprog halgo hstep) hnext
  intro gpu' algo' halgo' b
  by_cases hgpu : gpu' = u.gpu
  · subst hgpu
    obtain rfl := Option.some_inj.mp (halgo.symm.trans halgo')
    rw [Function.update_self, hcovered]
    simp
  · rw [Function.update_of_ne hgpu]
    simp [hgpu]

theorem control (h : Tracked algos interp order) (hprog : Program cfg nRanks root algos counts)
    (halgo : algos gpu = some algo) {e : Event} (hstep : Step algo (interp gpu) (.fire e) i)
    (hrun : ∀ bid sid, e ≠ .runStep bid sid) : Tracked algos (Function.update interp gpu i) order := by
  have hcontrol := hstep.control (h.reached _ _ halgo).accounted hrun
  apply h.same_update hprog halgo hstep
  intro b
  apply covered_congr (hcontrol.nextFinish b)
  intro j
  rw [hcontrol.running]

theorem start (h : Tracked algos interp order) (hprog : Program cfg nRanks root algos counts)
    (halgo : algos gpu = some algo) (hstep : Step algo (interp gpu) (.fire (.runStep bid sid)) i)
    (hrunning : i.running = (interp gpu).running ++ [(bid, sid)])
    (hsend : (algo.mscclTBs bid).isSend sid = false) :
    Tracked algos (Function.update interp gpu i) order := by
  have hold := h.reached _ _ halgo
  have hnew := h.reached_update hprog halgo hstep _ _ halgo
  rw [Function.update_self] at hnew
  apply h.same_update hprog halgo hstep
  intro b
  rw [hstep.covered_start hold.accounted hnew.accounted hrunning]
  simp [hsend]

/-- The start of a send settles it. -/
theorem start_send (h : Tracked algos interp order) (hprog : Program cfg nRanks root algos counts)
    (halgo : algos u.gpu = some algo) (htran : u.transfer algos = some tran)
    (hstep : Step algo (interp u.gpu) (.fire (.runStep u.bid u.sid)) i)
    (hrunning : i.running = (interp u.gpu).running ++ [(u.bid, u.sid)])
    (hsend : (algo.mscclTBs u.bid).isSend u.sid = true) :
    Tracked algos (Function.update interp u.gpu i) (order ++ [u]) := by
  have hold := h.reached _ _ halgo
  have hnew := h.reached_update hprog halgo hstep _ _ halgo
  rw [Function.update_self] at hnew
  have hmem : .runStep u.bid u.sid ∈ (interp u.gpu).pending := by
    cases hstep with
    | start hmem htran htype => exact hmem
    | ignore hmem htran htype => exact hmem
  apply h.add_update hprog halgo htran hstep (hold.accounted.idle_of_runStep hmem).2
  intro b
  rw [hstep.covered_start hold.accounted hnew.accounted hrunning]
  simp [hsend]

/-- The end of a send settles nothing more. -/
theorem finish_send (h : Tracked algos interp order) (hprog : Program cfg nRanks root algos counts)
    (halgo : algos gpu = some algo) (hstep : Step algo (interp gpu) (.finish bid sid) i)
    (hsend : (algo.mscclTBs bid).isSend sid = true) :
    Tracked algos (Function.update interp gpu i) order := by
  have hold := h.reached _ _ halgo
  have hmem : (bid, sid) ∈ (interp gpu).running := by
    cases hstep with
    | finish hmem => exact hmem
  apply h.same_update hprog halgo hstep
  intro b
  rw [hstep.covered_finish hold.accounted]
  split
  · rename_i hb
    rw [hb, hold.accounted.covered_of_running hmem, if_pos hsend]
  · rfl

theorem finish (h : Tracked algos interp order) (hprog : Program cfg nRanks root algos counts)
    (halgo : algos u.gpu = some algo) (htran : u.transfer algos = some tran)
    (hstep : Step algo (interp u.gpu) (.finish u.bid u.sid) i)
    (hsend : (algo.mscclTBs u.bid).isSend u.sid = false) :
    Tracked algos (Function.update interp u.gpu i) (order ++ [u]) := by
  have hold := h.reached _ _ halgo
  have hmem : (u.bid, u.sid) ∈ (interp u.gpu).running := by
    cases hstep with
    | finish hmem => exact hmem
  apply h.add_update hprog halgo htran hstep
  · rw [hold.accounted.covered_of_running hmem, if_neg (by rw [hsend]; decide)]
  · exact hstep.covered_finish hold.accounted

end Tracked

end

end CollectiveSim.Msccl
