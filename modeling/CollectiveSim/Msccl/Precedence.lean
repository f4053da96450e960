import Mathlib
import CollectiveSim.Msccl.Sequential
import CollectiveSim.Msccl.Progress

/-!
# Running transfers do not interfere

A transfer is only scheduled when all steps that come before its own on its GPU are complete. So of two
transfers that run at the same time none comes before the other.
-/

namespace CollectiveSim.Msccl

open Framework Interpreter

/-- The number of scheduled transfers of a thread block. -/
def Interpreter.scheduled (s : Interpreter) (b : Nat) : Nat :=
  (s.tbs b).localStep + if (s.tbs b).busy then 1 else 0

theorem Interpreter.started_of_lt_scheduled {s : Interpreter} {b i : Nat} (h : i < s.scheduled b) :
    s.Started b i := by
  rw [scheduled] at h
  by_cases hbusy : (s.tbs b).busy = true
  · rw [if_pos hbusy] at h
    rcases Nat.lt_or_eq_of_le (Nat.le_of_lt_succ h) with hlt | heq
    · exact Or.inl hlt
    · exact Or.inr ⟨heq, hbusy⟩
  · rw [if_neg hbusy] at h
    exact Or.inl h

theorem LocalBefore.gpu_eq {root : XmlNode} {p q : StepId} (h : LocalBefore root p q) :
    p.gpu = q.gpu := by
  cases h <;> rfl

/-- The step is among the first `count` transfers of its thread block. -/
def StepId.Within (algo : MscclAlgorithm) (count : Nat → Nat) (p : StepId) : Prop :=
  p.index < (algo.mscclTBs p.bid).start (count p.bid)

/-- The step is the last of those that a transfer covers. -/
def StepId.Last (algo : MscclAlgorithm) (p : StepId) : Prop :=
  ∃ t, p.index + 1 = (algo.mscclTBs p.bid).start (t + 1)

namespace Accepted

variable {nRanks gpuId : Nat} {root : XmlNode} {algo : MscclAlgorithm} {s : Interpreter}

theorem before_cases (h : Accepted nRanks root gpuId algo) (hplain : PlainAlgorithm root gpuId algo)
    (hblocks : algo.nBlocks ≤ 127) (hreached : Reached algo s) {p q : StepId}
    (hpq : LocalBefore root p q) (hgpu : q.gpu = gpuId) (hq : q.Within algo s.scheduled) :
    (p.bid = q.bid ∧ q.index = p.index + 1) ∨
      p.Within algo fun b => (s.tbs b).localStep := by
  cases hpq with
  | program hj => exact Or.inl ⟨rfl, rfl⟩
  | @dependence gpu bid i j x y hx hbid hy hs =>
      right
      simp only at hgpu
      subst hgpu
      obtain ⟨hbidlt, hxs, -⟩ := h.step_bounds hplain hx
      obtain ⟨hdeplt, hys, hilt⟩ := h.step_bounds hplain hy
      obtain ⟨ctx, hparsed⟩ := h.parsed bid hbidlt
      have hfolds := hparsed.folds (hplain bid hbidlt)
      rw [StepId.Within, start_eq_length hfolds] at hq
      obtain ⟨t, seg, x', ht, hseg, hx', hs'⟩ := exists_segment_of_lt (hplain bid hbidlt) hq
      have hmem : x ∈ seg := h.mem_segment hplain (List.mem_of_getElem? hseg) hx'
        (List.mem_of_getElem? hx) (hs'.trans hxs.symm)
      obtain ⟨tran, htran, -⟩ := exists_of_getElem? hfolds.flip hseg
      have hmax : mscclMaxNumSteps < 2 ^ 15 := by decide
      have hflag := h.flag_of_started hplain hreached (started_of_lt_scheduled ht) htran hbidlt hseg
        hmem hbid (by omega) (by omega) (by omega)
      have hcast : ((x.dependBid.toNat : Nat) : Int) = x.dependBid := Int.toNat_of_nonneg hbid
      have hpub := hreached.flagged.flag x.dependBid.toNat hdeplt
      rw [← hcast] at hflag
      rw [StepId.Within]
      simp only
      omega

theorem within_of_before (h : Accepted nRanks root gpuId algo)
    (hplain : PlainAlgorithm root gpuId algo) (hblocks : algo.nBlocks ≤ 127)
    (hreached : Reached algo s) {count : Nat → Nat} (hlo : ∀ b : Nat, (s.tbs b).localStep ≤ count b)
    (hhi : ∀ b, count b ≤ s.scheduled b) {p q : StepId} (hpq : LocalBefore root p q)
    (hgpu : q.gpu = gpuId) (hq : q.Within algo count) : p.Within algo count := by
  have hq' : q.Within algo s.scheduled :=
    Nat.lt_of_lt_of_le hq ((algo.mscclTBs q.bid).start_mono (hhi q.bid))
  rcases h.before_cases hplain hblocks hreached hpq hgpu hq' with ⟨hbid, hindex⟩ | hdone
  · rw [StepId.Within] at hq ⊢
    rw [hbid]
    omega
  · exact Nat.lt_of_lt_of_le hdone ((algo.mscclTBs p.bid).start_mono (hlo p.bid))

theorem scheduled_of_before (h : Accepted nRanks root gpuId algo)
    (hplain : PlainAlgorithm root gpuId algo) (hblocks : algo.nBlocks ≤ 127)
    (hreached : Reached algo s) {p q : StepId}
    (hpq : Relation.ReflTransGen (LocalBefore root) p q) (hgpu : q.gpu = gpuId)
    (hq : q.Within algo s.scheduled) : p.gpu = gpuId ∧ p.Within algo s.scheduled := by
  induction hpq using Relation.ReflTransGen.head_induction_on with
  | refl => exact ⟨hgpu, hq⟩
  | head hpr _ ih =>
      refine ⟨hpr.gpu_eq.trans ih.1, ?_⟩
      exact h.within_of_before hplain hblocks hreached (fun _ => Nat.le_add_right _ _)
        (fun _ => Nat.le_refl _) hpr ih.1 ih.2

theorem complete_of_before (h : Accepted nRanks root gpuId algo)
    (hplain : PlainAlgorithm root gpuId algo) (hblocks : algo.nBlocks ≤ 127)
    (hreached : Reached algo s) {p q : StepId} (hpq : Relation.TransGen (LocalBefore root) p q)
    (hgpu : q.gpu = gpuId) (hq : q.Within algo s.scheduled) (hlast : p.Last algo) :
    p.Within algo fun b => (s.tbs b).localStep := by
  obtain ⟨r, hpr, hrq⟩ := Relation.TransGen.head'_iff.mp hpq
  obtain ⟨hgpu', hr⟩ := h.scheduled_of_before hplain hblocks hreached hrq hgpu hq
  rcases h.before_cases hplain hblocks hreached hpr hgpu' hr with ⟨hbid, hindex⟩ | hdone
  · -- the next step belongs to a later transfer, which is not scheduled before this one is complete
    obtain ⟨t, ht⟩ := hlast
    rw [StepId.Within, ← hbid] at hr
    have hlt : t + 1 < s.scheduled p.bid := by
      by_contra hle
      have hmono := (algo.mscclTBs p.bid).start_mono (Nat.not_lt.mp hle)
      omega
    have hle : t + 1 ≤ (s.tbs p.bid).localStep := by
      rw [scheduled] at hlt
      split at hlt <;> omega
    have hmono := (algo.mscclTBs p.bid).start_mono hle
    rw [StepId.Within]
    omega
  · exact hdone

end Accepted

/-! ### Transfers of a collective -/

/-- What the collective is made of: an accepted document of plain steps, thread blocks that pair up at
the connections, and conflicting steps in order. -/
structure Program (cfg : AppConfig) (nRanks : Nat) (root : XmlNode)
    (algos : Nat → Option MscclAlgorithm) (counts : ConnId → List Nat) : Prop where
  accepted : ∀ gpu algo, algos gpu = some algo → Accepted nRanks root gpu algo
  plain : ∀ gpu algo, algos gpu = some algo → PlainAlgorithm root gpu algo
  blocks : ∀ gpu algo, algos gpu = some algo → algo.nBlocks ≤ 127
  paired : Paired algos counts
  ordered : ConflictsOrdered cfg root algos

section

variable {cfg : AppConfig} {nRanks : Nat} {root : XmlNode} {algos : Nat → Option MscclAlgorithm}
  {counts : ConnId → List Nat} {algo : MscclAlgorithm}

theorem Op.tb_eq {op : Op} (h : algos op.gpu = some algo) : op.tb algos = algo.mscclTBs op.bid := by
  rw [Op.tb, h]

theorem Op.step_within {op : Op} (h : algos op.gpu = some algo) {tran : MscclTransfer}
    (htran : (algo.mscclTBs op.bid).transfers[op.sid]? = some tran) {count : Nat → Nat} :
    (op.step algos).Within algo count ↔ op.sid < count op.bid := by
  have hsucc := MscclThreadBlock.start_succ _ htran
  rw [StepId.Within, Op.step, Op.tb_eq h]
  constructor
  · intro hlt
    by_contra hle
    have hmono := (algo.mscclTBs op.bid).start_mono (Nat.not_lt.mp hle)
    simp only at hlt
    omega
  · intro hlt
    have hmono := (algo.mscclTBs op.bid).start_mono (t := op.sid + 1) hlt
    simp only
    omega

theorem Op.step_last {op : Op} (h : algos op.gpu = some algo) {tran : MscclTransfer}
    (htran : (algo.mscclTBs op.bid).transfers[op.sid]? = some tran) :
    (op.step algos).Last algo := by
  have hsucc := MscclThreadBlock.start_succ _ htran
  refine ⟨op.sid, ?_⟩
  rw [Op.step, Op.tb_eq h]
  simp only
  omega

/-- The transfer runs. -/
def Interpreter.Runs (s : Interpreter) (op : Op) : Prop := (op.bid, op.sid) ∈ s.running

theorem Program.not_touched_of_runs (hprog : Program cfg nRanks root algos counts)
    {s : Interpreter} {a b : Op} (halgo : algos a.gpu = some algo) (hgpu : a.gpu = b.gpu)
    (hreached : Reached algo s) (ha : s.Runs a) (hb : s.Runs b) (hne : a ≠ b)
    {tran tran' : MscclTransfer} (htran : a.transfer algos = some tran)
    (htran' : b.transfer algos = some tran') {buf : BufferType} {x : Nat}
    (hwrites : tran.Writes cfg buf x) : ¬ tran'.Touches cfg buf x := by
  intro htouches
  have hacc := hprog.accepted _ _ halgo
  have hplain := hprog.plain _ _ halgo
  have hblocks := hprog.blocks _ _ halgo
  have hconflict {a b : Op} (halgo : algos a.gpu = some algo) (hgpu : a.gpu = b.gpu)
      (hacc : Accepted nRanks root b.gpu algo) (hplain : PlainAlgorithm root b.gpu algo)
      (ha : s.Runs a) (hb : s.Runs b) {tran tran' : MscclTransfer}
      (htran : a.transfer algos = some tran) (htran' : b.transfer algos = some tran')
      (hbefore : Relation.TransGen (LocalBefore root) (a.step algos) (b.step algos)) : False := by
    obtain ⟨algo', halgo', -, -, hget⟩ := Op.transfer_eq_some.mp htran
    obtain rfl := Option.some_inj.mp (halgo.symm.trans halgo')
    obtain ⟨algo', halgo'', -, -, hget'⟩ := Op.transfer_eq_some.mp htran'
    obtain rfl := Option.some_inj.mp ((hgpu ▸ halgo).symm.trans halgo'')
    obtain ⟨hbusy, hsid⟩ := hreached.accounted.of_running hb
    have hstarted : (b.step algos).Within algo s.scheduled := by
      rw [Op.step_within halgo'' hget', scheduled, hbusy, if_pos rfl]
      omega
    have hdone := hacc.complete_of_before hplain hblocks hreached hbefore rfl hstarted
      (Op.step_last halgo hget)
    rw [Op.step_within halgo hget] at hdone
    have hcur := (hreached.accounted.of_running ha).2
    omega
  rcases hprog.ordered a b tran tran' hgpu hne htran htran' ⟨buf, x, hwrites, htouches⟩ with h | h
  · exact hconflict halgo hgpu (hgpu ▸ hacc) (hgpu ▸ hplain) ha hb htran htran' h
  · exact hconflict (hgpu ▸ halgo) hgpu.symm hacc hplain hb ha htran' htran h

end

end CollectiveSim.Msccl
