import Mathlib
import CollectiveSim.Msccl.Folding

/-!
# The algorithm of a document

What a successful parse says about each thread block: its table comes from the steps that stand under
its element.
-/

namespace CollectiveSim.Msccl

open Framework

/-- The element has this `id`. -/
def XmlNode.hasId (id : Nat) (node : XmlNode) : Bool :=
  (getPropInt node "id").toOption = some (id : Int)

/-- The steps under a `tb` element. -/
def XmlNode.steps (tb : XmlNode) : List XmlStep :=
  (tb.childElements "step").filterMap fun stepNode => (readStep stepNode).toOption

/-- The steps of thread block `bid` of GPU `gpuId`; the last element of a GPU counts. -/
def xmlSteps (root : XmlNode) (gpuId bid : Nat) : List XmlStep :=
  match (root.childElements "gpu").reverse.find? (XmlNode.hasId gpuId) with
  | some gpu =>
      match (gpu.childElements "tb").find? (XmlNode.hasId bid) with
      | some tb => tb.steps
      | none => []
  | none => []

/-- The table is the result of parsing these steps. -/
structure TbParsed (ngpus : Int) (ctx : TbContext) (steps : List XmlStep) (tb : MscclThreadBlock) :
    Prop where
  sendpeer_lt : ctx.sendpeer < ngpus
  recvpeer_lt : ctx.recvpeer < ngpus
  parsed : ∃ (channelId : Int) (st : TbParse), 0 ≤ channelId ∧ channelId ≤ maxChannels ∧
    addSteps ctx (.initial (i16 ctx.sendpeer) (i16 ctx.recvpeer) (i8 channelId)) steps = .ok st ∧
    st.tb = tb

namespace TbParsed

variable {ngpus : Int} {ctx : TbContext} {steps : List XmlStep} {tb : MscclThreadBlock}

/-- The transfers of the table stand for the segments of the steps. -/
theorem folds (h : TbParsed ngpus ctx steps tb) (hplain : PlainSteps steps) :
    List.Forall₂ (Folds ctx tb) (segments steps) tb.transfers := by
  obtain ⟨channelId, st, -, -, hparse, rfl⟩ := h.parsed
  have hpend : Pending (.initial (i16 ctx.sendpeer) (i16 ctx.recvpeer) (i8 channelId)) [] :=
    ⟨rfl, ⟨[], [], rfl, rfl⟩, rfl, by simp⟩
  obtain ⟨-, new, hnew, hfolds⟩ :=
    addSteps_folds hplain.nop_dependence hplain.implemented hpend hparse
  rw [hnew]
  exact hfolds

theorem steps_length (h : TbParsed ngpus ctx steps tb) (hplain : PlainSteps steps) :
    steps.length ≤ mscclMaxNumSteps := by
  obtain ⟨channelId, st, -, -, hparse, -⟩ := h.parsed
  by_contra hlong
  have hidx : mscclMaxNumSteps < steps.length := Nat.lt_of_not_le hlong
  have hget : steps[mscclMaxNumSteps]? = some steps[mscclMaxNumSteps] :=
    List.getElem?_eq_getElem hidx
  have hnum := hplain.numbered _ _ hget
  have hlt := addSteps_s_lt hparse _ (List.getElem_mem hidx)
  omega

end TbParsed

theorem parseSteps_ok {ctx : TbContext} {st st' : TbParse} {stepNodes : List XmlNode}
    (h : parseSteps ctx st stepNodes = .ok st') :
    addSteps ctx st (stepNodes.filterMap fun stepNode => (readStep stepNode).toOption) = .ok st' := by
  induction stepNodes generalizing st with
  | nil => exact h
  | cons stepNode stepNodes ih =>
      rw [parseSteps, List.foldlM_cons, except_bind_ok] at h
      obtain ⟨st₁, hstep, hrest⟩ := h
      obtain ⟨x, hx, hadd⟩ := except_bind_ok.mp hstep
      have hread : (stepNode :: stepNodes).filterMap (fun stepNode => (readStep stepNode).toOption) =
          x :: stepNodes.filterMap fun stepNode => (readStep stepNode).toOption := by
        rw [List.filterMap_cons, hx]
        rfl
      rw [hread, addSteps, List.foldlM_cons, except_bind_ok]
      exact ⟨st₁, hadd, ih hrest⟩

/-- The thread blocks of a GPU as far as they are parsed. -/
structure TbsParsed (ngpus : Int) (tbs : List XmlNode) (st : GpuState) : Prop where
  mem_bids : ∀ bid, bid ∈ st.bids ↔ (tbs.find? (XmlNode.hasId bid)).isSome
  bids_lt : ∀ bid ∈ st.bids, bid < mscclMaxNumThreadBlocks
  parsed : ∀ bid tb, tbs.find? (XmlNode.hasId bid) = some tb →
    ∃ ctx, TbParsed ngpus ctx tb.steps (st.mscclTBs bid)

theorem XmlNode.hasId_iff {node : XmlNode} {z : Int} (h : getPropInt node "id" = .ok z)
    (hz : ¬ z < 0) (id : Nat) : node.hasId id = true ↔ id = z.toNat := by
  have hvalue : node.hasId id = decide (some z = some (id : Int)) := by
    rw [hasId, h]
    rfl
  rw [hvalue, decide_eq_true_iff, Option.some_inj]
  omega

theorem find?_concat_isSome {α : Type*} {p : α → Bool} {xs : List α} {x : α} :
    ((xs ++ [x]).find? p).isSome ↔ (xs.find? p).isSome ∨ p x = true := by
  rw [List.find?_append, Option.isSome_or, Bool.or_eq_true]
  by_cases hx : p x = true <;> simp [hx]

theorem TbsParsed.step {ngpus gpuId : Int} {chunks : BufferChunks} {tbs : List XmlNode}
    {st st' : GpuState} {tb : XmlNode} (h : TbsParsed ngpus tbs st)
    (hstep : parseTb ngpus gpuId chunks st tb = .ok st') : TbsParsed ngpus (tbs ++ [tb]) st' := by
  simp only [parseTb, except_bind_ok, reject_ok] at hstep
  obtain ⟨bid, hbid, recvpeer, hrecv, sendpeer, hsend, channelId, hchan, -, hlo, -, hhi, -, hnew, -,
    -, -, -, -, hpeers, -, hchanRange, sTB, hparse, hst⟩ := hstep
  cases hst
  have hid := XmlNode.hasId_iff hbid hlo
  refine ⟨fun b => ?_, fun b hb => ?_, fun b node hfind => ?_⟩
  · rw [List.mem_cons, h.mem_bids, find?_concat_isSome, hid, or_comm]
  · rcases List.mem_cons.mp hb with rfl | hb
    · omega
    · exact h.bids_lt b hb
  · by_cases hold : b ∈ st.bids
    · obtain ⟨old, hfind'⟩ := Option.isSome_iff_exists.mp ((h.mem_bids b).mp hold)
      have hne : b ≠ bid.toNat := fun heq => hnew (heq ▸ hold)
      rw [List.find?_append, hfind', Option.some_or, Option.some_inj] at hfind
      show ∃ ctx, TbParsed ngpus ctx node.steps (Function.update st.mscclTBs bid.toNat sTB.tb b)
      rw [Function.update_of_ne hne, ← hfind]
      exact h.parsed b old hfind'
    · have hnone : tbs.find? (XmlNode.hasId b) = none := by
        rw [← Option.not_isSome_iff_eq_none, ← h.mem_bids]
        exact hold
      rw [List.find?_append, hnone, Option.none_or] at hfind
      have hnode := List.mem_singleton.mp (List.mem_of_find?_eq_some hfind)
      have hb := (hid b).mp (hnode ▸ List.find?_some hfind)
      show ∃ ctx, TbParsed ngpus ctx node.steps (Function.update st.mscclTBs bid.toNat sTB.tb b)
      rw [hb, Function.update_self, hnode]
      have hsendlt : sendpeer < ngpus := by omega
      have hrecvlt : recvpeer < ngpus := by omega
      exact ⟨_, hsendlt, hrecvlt, channelId, sTB, by omega, by omega, parseSteps_ok hparse, rfl⟩

theorem tbsParsed {ngpus gpuId : Int} {chunks : BufferChunks} {done tbs : List XmlNode}
    {st st' : GpuState} (h : TbsParsed ngpus done st)
    (hfold : tbs.foldlM (parseTb ngpus gpuId chunks) st = .ok st') :
    TbsParsed ngpus (done ++ tbs) st' := by
  induction tbs generalizing done st with
  | nil =>
      cases hfold
      rwa [List.append_nil]
  | cons tb tbs ih =>
      rw [List.foldlM_cons, except_bind_ok] at hfold
      obtain ⟨st₁, hstep, hrest⟩ := hfold
      have hwhole := ih (h.step hstep) hrest
      rwa [List.append_assoc] at hwhole

theorem mem_bids_iff_lt {bids : List Nat} (hlt : ∀ b ∈ bids, b < mscclMaxNumThreadBlocks)
    (hmissing : missingBlock bids = false) (b : Nat) : b ∈ bids ↔ b < countBlocks bids := by
  have hprev : ∀ i ∈ bids, 0 < i → i - 1 ∈ bids := by
    intro i hi hpos
    by_contra hnot
    have hany : missingBlock bids = true := List.any_eq_true.mpr
      ⟨i, List.mem_range.mpr (hlt i hi), decide_eq_true ⟨hpos, hi, hnot⟩⟩
    rw [hany] at hmissing
    cases hmissing
  have hcount (n : Nat) :
      (List.range n).foldl (fun n i => if i ∈ bids then i + 1 else n) 0 ≤ n ∧
      ∀ i, i < n → (i ∈ bids ↔
        i < (List.range n).foldl (fun n i => if i ∈ bids then i + 1 else n) 0) := by
    induction n with
    | zero => exact ⟨Nat.le_refl 0, by simp⟩
    | succ n ih =>
        obtain ⟨hle, hiff⟩ := ih
        rw [List.range_succ, List.foldl_append, List.foldl_cons, List.foldl_nil]
        by_cases hn : n ∈ bids
        · rw [if_pos hn]
          refine ⟨Nat.le_refl _, fun i hi => iff_of_true ?_ hi⟩
          by_cases hin : i = n
          · rwa [hin]
          · -- everything below an existing block exists
            have hlast := (hiff (n - 1) (by omega)).mp (hprev n hn (by omega))
            exact (hiff i (by omega)).mpr (by omega)
        · rw [if_neg hn]
          refine ⟨by omega, fun i hi => ?_⟩
          by_cases hin : i = n
          · rw [hin]
            exact iff_of_false hn (by omega)
          · exact hiff i (by omega)
  obtain ⟨hle, hiff⟩ := hcount mscclMaxNumThreadBlocks
  constructor
  · intro hb
    exact (hiff b (hlt b hb)).mp hb
  · intro hb
    exact (hiff b (Nat.lt_of_lt_of_le hb hle)).mpr hb

/-- The algorithm has the thread blocks that stand under the element. -/
structure GpuParsed (nRanks : Nat) (gpu : XmlNode) (algo : MscclAlgorithm) : Prop where
  isValid : algo.isValid = true
  nBlocks_le : algo.nBlocks ≤ mscclMaxNumThreadBlocks
  lt_nBlocks : ∀ bid tb, (gpu.childElements "tb").find? (XmlNode.hasId bid) = some tb →
    bid < algo.nBlocks
  parsed : ∀ bid < algo.nBlocks, ∃ tb, (gpu.childElements "tb").find? (XmlNode.hasId bid) = some tb ∧
    ∃ ctx, TbParsed nRanks ctx tb.steps (algo.mscclTBs bid)

theorem parseGpu_hasId {nRanks : Nat} {ngpus nChannels nChunksPerLoop : Int}
    {collType : CollectiveType} {gpu : XmlNode} {gpuId : Nat} {algo : MscclAlgorithm}
    (h : parseGpu nRanks ngpus nChannels nChunksPerLoop collType gpu = .ok (gpuId, algo)) (id : Nat) :
    gpu.hasId id = true ↔ id = gpuId := by
  simp only [parseGpu, except_bind_ok, reject_ok] at h
  obtain ⟨z, hz, iChunks, -, oChunks, -, sChunks, -, -, hrange, st, -, -, -, hres⟩ := h
  cases hres
  exact XmlNode.hasId_iff hz (by omega) id

theorem parseGpu_ok {nRanks : Nat} {nChannels nChunksPerLoop : Int} {collType : CollectiveType}
    {gpu : XmlNode} {gpuId : Nat} {algo : MscclAlgorithm}
    (h : parseGpu nRanks nRanks nChannels nChunksPerLoop collType gpu = .ok (gpuId, algo)) :
    GpuParsed nRanks gpu algo := by
  simp only [parseGpu, except_bind_ok, reject_ok] at h
  obtain ⟨z, hz, iChunks, -, oChunks, -, sChunks, -, -, hrange, st, hfold, -, hmissing, hres⟩ := h
  cases hres
  have hnone : TbsParsed nRanks []
      { mscclTBs := fun _ => .zero, mscclChannels := fun _ => ⟨[], []⟩, bids := [] } :=
    ⟨by simp, by simp, by simp⟩
  have hparsed := tbsParsed hnone hfold
  have hmem := mem_bids_iff_lt hparsed.bids_lt (Bool.eq_false_iff.mpr hmissing)
  rw [List.nil_append] at hparsed
  refine ⟨rfl, ?_, fun bid tb htb => ?_, fun bid hbid => ?_⟩
  · by_contra hlt
    have hlast := (hmem mscclMaxNumThreadBlocks).mpr (Nat.lt_of_not_le hlt)
    exact Nat.lt_irrefl _ (hparsed.bids_lt _ hlast)
  · apply (hmem bid).mp
    rw [hparsed.mem_bids, htb]
    rfl
  · obtain ⟨tb, htb⟩ := Option.isSome_iff_exists.mp
      ((hparsed.mem_bids bid).mp ((hmem bid).mpr hbid))
    exact ⟨tb, htb, hparsed.parsed bid tb htb⟩

/-- What acceptance of the document says about the algorithm of one GPU. -/
structure Accepted (nRanks : Nat) (root : XmlNode) (gpuId : Nat) (algo : MscclAlgorithm) : Prop where
  isValid : algo.isValid = true
  nBlocks_le : algo.nBlocks ≤ mscclMaxNumThreadBlocks
  lt_nBlocks : ∀ bid, ∀ x ∈ xmlSteps root gpuId bid, bid < algo.nBlocks
  parsed : ∀ bid < algo.nBlocks,
    ∃ ctx, TbParsed nRanks ctx (xmlSteps root gpuId bid) (algo.mscclTBs bid)

/-- The GPUs of the elements parsed so far; a later element of a GPU replaces an earlier one. -/
def GpusParsed (nRanks : Nat) (gpus : List XmlNode) (algos : Nat → Option MscclAlgorithm) : Prop :=
  ∀ gpuId algo, algos gpuId = some algo →
    ∃ gpu, gpus.reverse.find? (XmlNode.hasId gpuId) = some gpu ∧ GpuParsed nRanks gpu algo

theorem parseGpu_of_foldlM {nRanks gpuId : Nat} {ngpus nChannels nChunksPerLoop : Int}
    {collType : CollectiveType} {gpus : List XmlNode} {algos algos' : Nat → Option MscclAlgorithm}
    {algo : MscclAlgorithm}
    (hfold : gpus.foldlM (fun algos gpu => do
      let (gpuId, algo) ← parseGpu nRanks ngpus nChannels nChunksPerLoop collType gpu
      return Function.update algos gpuId (some algo)) algos = (.ok algos' : Parse _))
    (hgpu : algos' gpuId = some algo) :
    (∃ gpu, gpus.reverse.find? (XmlNode.hasId gpuId) = some gpu ∧
      parseGpu nRanks ngpus nChannels nChunksPerLoop collType gpu = .ok (gpuId, algo)) ∨
    (gpus.reverse.find? (XmlNode.hasId gpuId) = none ∧ algos gpuId = some algo) := by
  induction gpus generalizing algos with
  | nil =>
      cases hfold
      exact .inr ⟨rfl, hgpu⟩
  | cons gpu gpus ih =>
      rw [List.foldlM_cons, except_bind_ok] at hfold
      obtain ⟨algos₁, hstep, hrest⟩ := hfold
      obtain ⟨⟨id, algo₁⟩, hparse, hres⟩ := except_bind_ok.mp hstep
      cases hres
      rw [List.reverse_cons, List.find?_append]
      rcases ih hrest with ⟨last, hfind, hlast⟩ | ⟨hnone, hbefore⟩
      · exact .inl ⟨last, by rw [hfind, Option.some_or], hlast⟩
      · rw [hnone, Option.none_or, List.find?_singleton]
        have hid := parseGpu_hasId hparse gpuId
        by_cases heq : gpuId = id
        · subst heq
          rw [Function.update_self, Option.some_inj] at hbefore
          rw [if_pos (hid.mpr rfl)]
          exact .inl ⟨gpu, rfl, hbefore ▸ hparse⟩
        · rw [Function.update_of_ne heq] at hbefore
          rw [if_neg fun hhas => heq (hid.mp hhas)]
          exact .inr ⟨rfl, hbefore⟩

theorem gpusParsed {nRanks : Nat} {nChannels nChunksPerLoop : Int} {collType : CollectiveType}
    {done gpus : List XmlNode} {algos algos' : Nat → Option MscclAlgorithm}
    (h : GpusParsed nRanks done algos)
    (hfold : gpus.foldlM (fun algos gpu => do
      let (gpuId, algo) ← parseGpu nRanks nRanks nChannels nChunksPerLoop collType gpu
      return Function.update algos gpuId (some algo)) algos = (.ok algos' : Parse _)) :
    GpusParsed nRanks (done ++ gpus) algos' := by
  intro gpuId algo hgpu
  rw [List.reverse_append, List.find?_append]
  rcases parseGpu_of_foldlM hfold hgpu with ⟨gpu, hfind, hparse⟩ | ⟨hnone, hbefore⟩
  · exact ⟨gpu, by rw [hfind, Option.some_or], parseGpu_ok hparse⟩
  · rw [hnone, Option.none_or]
    exact h gpuId algo hbefore

theorem accepted_of_parseAlgoXml {nRanks : Nat} {root : XmlNode}
    {algos : Nat → Option MscclAlgorithm} (h : parseAlgoXml nRanks (some (some root)) = .ok algos)
    {gpuId : Nat} {algo : MscclAlgorithm} (hgpu : algos gpuId = some algo) :
    Accepted nRanks root gpuId algo := by
  simp only [parseAlgoXml, except_bind_ok, failIf_ok] at h
  obtain ⟨-, -, name, -, ngpus, -, -, hranks, nChannels, -, nChunks, -, coll, -, collType, -, h⟩ := h
  obtain rfl := not_not.mp hranks
  have hnone : GpusParsed nRanks [] fun _ => none := fun _ _ hsome => by cases hsome
  have hgpus := gpusParsed hnone h
  obtain ⟨gpu, hfind, hparsed⟩ := hgpus gpuId algo hgpu
  rw [List.nil_append] at hfind
  refine ⟨hparsed.isValid, hparsed.nBlocks_le, fun bid x hx => ?_, fun bid hbid => ?_⟩
  · simp only [xmlSteps, hfind] at hx
    cases htb : (gpu.childElements "tb").find? (XmlNode.hasId bid) with
    | some tb => exact hparsed.lt_nBlocks bid tb htb
    | none =>
        rw [htb] at hx
        cases hx
  · obtain ⟨tb, htb, ctx, hctx⟩ := hparsed.parsed bid hbid
    have hsteps : xmlSteps root gpuId bid = tb.steps := by
      simp only [xmlSteps, hfind, htb]
    rw [hsteps]
    exact ⟨ctx, hctx⟩

theorem lt_of_parseAlgoXml {nRanks : Nat} {root : XmlNode} {algos : Nat → Option MscclAlgorithm}
    (h : parseAlgoXml nRanks (some (some root)) = .ok algos) {gpuId : Nat} {algo : MscclAlgorithm}
    (hgpu : algos gpuId = some algo) : gpuId < nRanks := by
  simp only [parseAlgoXml, except_bind_ok, failIf_ok] at h
  obtain ⟨-, -, name, -, ngpus, -, -, -, nChannels, -, nChunks, -, coll, -, collType, -, h⟩ := h
  rcases parseGpu_of_foldlM h hgpu with ⟨gpu, -, hparse⟩ | ⟨-, hnone⟩
  · simp only [parseGpu, except_bind_ok, reject_ok] at hparse
    obtain ⟨z, -, iChunks, -, oChunks, -, sChunks, -, -, hrange, st, -, -, -, hres⟩ := hparse
    cases hres
    omega
  · cases hnone

end CollectiveSim.Msccl
