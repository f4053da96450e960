import Mathlib
import CollectiveSim.Framework.Outcome
import CollectiveSim.Msccl.Parser

/-!
# Parsing into the GPUs

`ParseAlgoXml` fills the algorithm that every GPU already holds, one `gpu` element after the other. An
error leaves what has been written until then; the algorithm of the element with the error is marked
as invalid.
-/

namespace CollectiveSim.Msccl

open Framework

/-- The thread block after a step that ended in an error. A slot behind `nsteps` is no transfer yet. -/
def TbParse.partlyAdded (ctx : TbContext) (st : TbParse) (x : XmlStep) : TbParse :=
  match (do reject (x.s ≥ mscclMaxNumSteps); reject (x.s < 0); stepKind x.type : Parse StepKind) with
  | .error _ => st
  | .ok kind =>
      let st := st.addDependence x
      match mscclGetBufferType x.srcbuffer, mscclGetBufferType x.dstbuffer with
      | .ok srcbuffer, .ok dstbuffer =>
          if kind.transferType = some .reduce then
            let continuation := st.continuesReduction x srcbuffer dstbuffer
            let slot := if continuation then st.tb.transfers.getLast?.getD .zero else .zero
            let slot := { slot with
              type := .reduce
              srcoffset := i16 x.srcoffset
              srcbuffer := srcbuffer
              dstbuffer := dstbuffer
              dstoffset := i16 x.dstoffset
              mscclFlowId := x.mscclFlowId }
            let badCount := decide (x.count < 0 ∨ x.count ≥ mscclMaxCount)
            let slot := if badCount then slot else { slot with count := x.count.toNat }
            let badBounds := (do
              mscclCheckBufferBounds srcbuffer (i16 x.srcoffset) ctx.chunks
              mscclCheckBufferBounds dstbuffer (i16 x.dstoffset) ctx.chunks : Parse Unit).toBool = false
            let badChain := continuation = false ∧
              st.oldDependencePointer < st.tb.dependentBid.length ∧ x.dependBid < 0
            -- only the check of `hasdep` comes after the reduction is recorded
            let recorded := ¬ badCount ∧ ¬ badBounds ∧ ¬ badChain
            let slot := if recorded then
                { slot with numReductions := st.tb.reductionSrcOffsets.length + 1 - slot.reductionPointer }
              else slot
            { st with tb := { st.tb with
                reductionSrcOffsets := st.tb.reductionSrcOffsets ++
                  (if recorded then [i16 x.srcoffset] else [])
                transfers :=
                  if continuation then st.tb.transfers.dropLast ++ [slot] else st.tb.transfers } }
          else st
      | _, _ => st

/-- The body of the loop over the `step` elements, in place. -/
def addStepInPlace (ctx : TbContext) : TbParse → XmlNode → Outcome TbParse AlgoParseError :=
  Outcome.ofExcept (fun st stepNode => do addStep ctx st (← readStep stepNode)) fun st stepNode =>
    match readStep stepNode with
    | .ok x => st.partlyAdded ctx x
    | .error _ => st

/-- What the body of the loop over the `tb` elements has written when it ends in an error; an error
here says that it has written nothing. -/
def partlyParsedTb (ngpus gpuId : Int) (chunks : BufferChunks) (st : GpuState) (tb : XmlNode) :
    Parse GpuState := do
  let bid ← getPropInt tb "id"
  let recvpeer ← getPropInt tb "recv"
  let sendpeer ← getPropInt tb "send"
  let channelId ← getPropInt tb "chan"
  reject (bid < 0)
  reject (bid ≥ mscclMaxNumThreadBlocks)
  reject (bid.toNat ∈ st.bids)
  reject (recvpeer = gpuId ∨ sendpeer = gpuId)
  reject (recvpeer < -1 ∨ sendpeer < -1)
  reject (recvpeer ≥ ngpus ∨ sendpeer ≥ ngpus)
  if channelId < 0 ∨ channelId > maxChannels then
    let sTB := { MscclThreadBlock.zero with recvpeer := i16 recvpeer, sendpeer := i16 sendpeer }
    return { st with mscclTBs := Function.update st.mscclTBs bid.toNat sTB }
  let channel := st.mscclChannels channelId.toNat
  let ctx : TbContext :=
    { sendpeer, recvpeer, nSendPeers := channel.sendPeers.length,
      nRecvPeers := channel.recvPeers.length, chunks }
  let sTB := Outcome.loop (addStepInPlace ctx)
    (.initial (i16 sendpeer) (i16 recvpeer) (i8 channelId)) (tb.childElements "step")
  return { st with mscclTBs := Function.update st.mscclTBs bid.toNat sTB.left.tb }

/-- The body of the loop over the `tb` elements, in place. -/
def parseTbInPlace (ngpus gpuId : Int) (chunks : BufferChunks) :
    GpuState → XmlNode → Outcome GpuState AlgoParseError :=
  Outcome.ofExcept (parseTb ngpus gpuId chunks) fun st tb =>
    (partlyParsedTb ngpus gpuId chunks st tb).toOption.getD st

/-- The thread blocks in order from the first, up to the one that is missing. -/
def blocksBeforeGap (bids : List Nat) : Nat :=
  ((List.range mscclMaxNumThreadBlocks).takeWhile (· ∈ bids)).length

/-- What a `gpu` element says before anything is written: the GPU, which must exist, and the sizes of
its buffers. -/
def readGpu (nRanks : Nat) (gpu : XmlNode) : Parse (Int × BufferChunks) := do
  let gpuId ← getPropInt gpu "id"
  let iChunks ← getPropInt gpu "i_chunks"
  let oChunks ← getPropInt gpu "o_chunks"
  let sChunks ← getPropInt gpu "s_chunks"
  reject (gpuId < 0 ∨ gpuId ≥ nRanks)
  return (gpuId, ⟨iChunks, oChunks, sChunks⟩)

/-- The attributes of the `algo` element and its `gpu` elements. -/
structure AlgoElement where
  ngpus : Int
  nChannels : Int
  nChunksPerLoop : Int
  collType : CollectiveType
  gpus : List XmlNode

def readAlgo (nRanks : Nat) (document : Option (Option XmlNode)) : Parse AlgoElement := do
  match document with
  | none => .error .fileReadError
  | some none => .error .xmlParseError
  | some (some root) =>
      failIf .xmlParseError (root.isElement "algo" = false)
      let _name ← getPropStr root "name"
      let ngpus ← getPropInt root "ngpus"
      failIf .xmlParseError (ngpus ≠ nRanks)
      let nChannels ← getPropInt root "nchannels"
      let nChunksPerLoop ← getPropInt root "nchunksperloop"
      let collType ← collectiveType (← getPropStr root "coll")
      return { ngpus, nChannels, nChunksPerLoop, collType, gpus := root.childElements "gpu" }

namespace AlgoElement

variable (algo : AlgoElement)

/-- The algorithm after `memset` and the assignments that follow it. -/
def cleared (nScratchChunks : Int) : MscclAlgorithm where
  isValid := false
  collectiveType := algo.collType
  ngpus := algo.ngpus
  nchunksPerLoop := algo.nChunksPerLoop
  nChannels := algo.nChannels
  nBlocks := 0
  nScratchChunks := nScratchChunks
  mscclTBs := fun _ => .zero
  mscclChannels := fun _ => ⟨[], []⟩

/-- The GPU and the algorithm that a `gpu` element without an error gives it. -/
def parse (nRanks : Nat) (gpu : XmlNode) : Parse (Nat × MscclAlgorithm) :=
  parseGpu nRanks algo.ngpus algo.nChannels algo.nChunksPerLoop algo.collType gpu

/-- The body of the loop over the `gpu` elements, in place. -/
def parseInPlace (nRanks : Nat) (algos : Nat → MscclAlgorithm) (gpu : XmlNode) :
    Outcome (Nat → MscclAlgorithm) AlgoParseError :=
  match readGpu nRanks gpu with
  | .error e => ⟨algos, some e⟩
  | .ok (gpuId, chunks) =>
      let tables := Outcome.loop (parseTbInPlace algo.ngpus gpuId chunks)
        { mscclTBs := fun _ => .zero, mscclChannels := fun _ => ⟨[], []⟩, bids := [] }
        (gpu.childElements "tb")
      let mscclAlgo := { algo.cleared chunks.sChunks with
        mscclTBs := tables.left.mscclTBs
        mscclChannels := tables.left.mscclChannels }
      let bids := tables.left.bids
      let write (mscclAlgo : MscclAlgorithm) := Function.update algos gpuId.toNat mscclAlgo
      match tables.error with
      | some e => ⟨write mscclAlgo, some e⟩
      | none =>
          if missingBlock bids then
            ⟨write { mscclAlgo with nBlocks := blocksBeforeGap bids }, some .invalidUseError⟩
          else ⟨write { mscclAlgo with nBlocks := countBlocks bids, isValid := true }, none⟩

end AlgoElement

/-- `ParseAlgoXml` on the algorithms that the GPUs hold. -/
def parseAlgoXmlInPlace (nRanks : Nat) (document : Option (Option XmlNode))
    (algos : Nat → MscclAlgorithm) : Outcome (Nat → MscclAlgorithm) AlgoParseError :=
  match readAlgo nRanks document with
  | .error e => ⟨algos, some e⟩
  | .ok algo => Outcome.loop (algo.parseInPlace nRanks) algos algo.gpus

/-- The algorithm is stored in its GPU. -/
def commit (algos : Nat → MscclAlgorithm) (r : Nat × MscclAlgorithm) : Nat → MscclAlgorithm :=
  Function.update algos r.1 r.2

/-! ### One `gpu` element -/

namespace AlgoElement

variable {algo : AlgoElement} {nRanks : Nat} {algos : Nat → MscclAlgorithm} {gpu : XmlNode}

theorem parse_eq : algo.parse nRanks gpu = readGpu nRanks gpu >>= fun r => do
    let st ← (gpu.childElements "tb").foldlM (parseTb algo.ngpus r.1 r.2)
      { mscclTBs := fun _ => .zero, mscclChannels := fun _ => ⟨[], []⟩, bids := [] }
    reject (missingBlock st.bids)
    return (r.1.toNat, { algo.cleared r.2.sChunks with
      isValid := true
      nBlocks := countBlocks st.bids
      mscclTBs := st.mscclTBs
      mscclChannels := st.mscclChannels }) := by
  simp only [parse, parseGpu, readGpu, bind_assoc, pure_bind]
  rfl

theorem parseInPlace_ok {r : Nat × MscclAlgorithm} (h : algo.parse nRanks gpu = .ok r) :
    algo.parseInPlace nRanks algos gpu = ⟨commit algos r, none⟩ := by
  rw [parse_eq] at h
  rw [parseInPlace]
  cases hread : readGpu nRanks gpu with
  | error e =>
      rw [hread] at h
      cases h
  | ok header =>
      rw [hread] at h
      cases htbs : (gpu.childElements "tb").foldlM (parseTb algo.ngpus header.1 header.2)
          { mscclTBs := fun _ => .zero, mscclChannels := fun _ => ⟨[], []⟩, bids := [] } with
      | error e =>
          simp only [bind, Except.bind, htbs] at h
          cases h
      | ok st =>
          simp only [bind, Except.bind, htbs] at h
          have hloop : Outcome.loop (parseTbInPlace algo.ngpus header.1 header.2) _ _ = _ :=
            Outcome.loop_ofExcept_ok htbs
          by_cases hmissing : missingBlock st.bids = true
          · simp only [reject, failIf, hmissing, if_true] at h
            cases h
          · simp only [reject, failIf, hmissing] at h
            cases h
            simp only [hloop, hmissing]
            rfl

/-- An element with an error leaves the algorithms as they are, or that of its GPU invalid. -/
theorem parseInPlace_error (algos : Nat → MscclAlgorithm) {e : AlgoParseError}
    (h : algo.parse nRanks gpu = .error e) :
    (algo.parseInPlace nRanks algos gpu).error = some e ∧
      ((readGpu nRanks gpu = .error e ∧ (algo.parseInPlace nRanks algos gpu).left = algos) ∨
        ∃ gpuId chunks mscclAlgo, readGpu nRanks gpu = .ok (gpuId, chunks) ∧
          mscclAlgo.isValid = false ∧
          (algo.parseInPlace nRanks algos gpu).left = commit algos (gpuId.toNat, mscclAlgo)) := by
  rw [parse_eq] at h
  rw [parseInPlace]
  cases hread : readGpu nRanks gpu with
  | error e' =>
      rw [hread] at h
      cases h
      exact ⟨rfl, Or.inl ⟨rfl, rfl⟩⟩
  | ok header =>
      rw [hread] at h
      cases htbs : (gpu.childElements "tb").foldlM (parseTb algo.ngpus header.1 header.2)
          { mscclTBs := fun _ => .zero, mscclChannels := fun _ => ⟨[], []⟩, bids := [] } with
      | error e' =>
          simp only [bind, Except.bind, htbs] at h
          cases h
          have hloop : (Outcome.loop (parseTbInPlace algo.ngpus header.1 header.2) _ _).error = _ :=
            Outcome.loop_ofExcept_error htbs
          simp only [hloop]
          exact ⟨trivial, Or.inr ⟨header.1, header.2, _, rfl, rfl, rfl⟩⟩
      | ok st =>
          simp only [bind, Except.bind, htbs] at h
          have hloop : Outcome.loop (parseTbInPlace algo.ngpus header.1 header.2) _ _ = _ :=
            Outcome.loop_ofExcept_ok htbs
          by_cases hmissing : missingBlock st.bids = true
          · simp only [reject, failIf, hmissing, if_true] at h
            cases h
            simp only [hloop, hmissing, if_true]
            exact ⟨trivial, Or.inr ⟨header.1, header.2, _, rfl, rfl, rfl⟩⟩
          · simp only [reject, failIf, hmissing] at h
            cases h

end AlgoElement

end CollectiveSim.Msccl
