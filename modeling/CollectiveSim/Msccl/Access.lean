import Mathlib
import CollectiveSim.Framework.Traced
import CollectiveSim.Msccl.Parser

/-!
# The array accesses of the parser

`ParseAlgoXml` once more, with a note of every index into one of its arrays at the place where the
source uses it. Behind an index that is out of bounds the source is undefined, so what the notes say
there has no meaning.
-/

namespace CollectiveSim.Msccl

open Framework Framework.Traced

/-- The arrays of `msccl.h` that the parser indexes. -/
inductive ParseArray
  | mscclTBs
  | mscclChannels
  | dependentBid
  | dependentStep
  | transfers
  | reductionSrcOffsets
  | sendPeerInfo
  | recvPeerInfo
  | nchunksForPeer
  deriving DecidableEq

/-- The declared sizes. -/
def ParseArray.size : ParseArray → Nat
  | mscclTBs => maxChannels * mscclMaxNumThreadBlocksPerChannel
  | mscclChannels => maxChannels
  | dependentBid | dependentStep | transfers | reductionSrcOffsets => mscclMaxNumSteps
  | sendPeerInfo | recvPeerInfo => mscclMaxNumThreadBlocksPerChannel
  | nchunksForPeer => mscclMaxCount

structure Access where
  array : ParseArray
  index : Int
  deriving DecidableEq

def Access.InBounds (a : Access) : Prop := 0 ≤ a.index ∧ a.index < a.array.size

instance : DecidablePred Access.InBounds := fun _ => inferInstanceAs (Decidable (_ ∧ _))

abbrev ParseTrace := Traced AlgoParseError Access

def touch (array : ParseArray) (index : Int) : ParseTrace Unit := note ⟨array, index⟩

/-- The branches for a send and for a receive: the peer must exist and have a free slot, in which the
transfer's count is counted. -/
def touchPeer (array : ParseArray) (peer : Int) (nPeers : Nat) (count : Int) : ParseTrace Unit := do
  check (reject (peer < 0))
  check (reject (nPeers ≥ mscclMaxNumThreadBlocksPerChannel))
  touch array nPeers
  touch .nchunksForPeer (count - 1)

/-- A reduction that continues no other starts a chain of its own. -/
def TbParse.startChain (st : TbParse) (type : Option TransferType) (continuation : Bool) :
    TbParse :=
  if type = some .reduce ∧ ¬ continuation then
    { st with oldReductionDstBuffer := none, oldReductionDstOffset := -1 }
  else st

/-- The branch of the loop over the steps for those that are transfers. -/
def touchTransfer (ctx : TbContext) (st : TbParse) (x : XmlStep) (kind : StepKind)
    (type : TransferType) (srcbuffer dstbuffer : BufferType) (continuation : Bool) :
    ParseTrace TbParse := do
  let numTransfers : Int := st.tb.transfers.length
  touch .transfers (if continuation then numTransfers - 1 else numTransfers)
  check (reject (x.count < 0 ∨ x.count ≥ mscclMaxCount))
  when kind.hasSend (touchPeer .sendPeerInfo ctx.sendpeer ctx.nSendPeers x.count)
  when kind.hasRecv (touchPeer .recvPeerInfo ctx.recvpeer ctx.nRecvPeers x.count)
  check (onlyIf kind.checkSrc (mscclCheckBufferBounds srcbuffer (i16 x.srcoffset) ctx.chunks))
  check (onlyIf kind.checkDst (mscclCheckBufferBounds dstbuffer (i16 x.dstoffset) ctx.chunks))
  check (onlyIf (!continuation)
    (reject (st.tb.dependentBid.length - st.oldDependencePointer > 0 ∧ x.dependBid < 0)))
  -- the offset of a reduction is stored before `has_dependence` is checked
  when (type = .reduce) (touch .reductionSrcOffsets st.tb.reductionSrcOffsets.length)
  check (st.addTransfer x type srcbuffer dstbuffer continuation)

/-- The body of the loop over the steps of a thread block. -/
def touchStep (ctx : TbContext) (st : TbParse) (x : XmlStep) : ParseTrace TbParse := do
  check (reject (x.s ≥ mscclMaxNumSteps))
  check (reject (x.s < 0))
  let kind ← check (stepKind x.type)
  let numDependences := st.tb.dependentBid.length
  when (x.dependBid ≥ 0)
    (notes [⟨.dependentBid, numDependences⟩, ⟨.dependentStep, numDependences⟩])
  let st := st.addDependence x
  let srcbuffer ← check (mscclGetBufferType x.srcbuffer)
  let dstbuffer ← check (mscclGetBufferType x.dstbuffer)
  let continuation :=
    kind.transferType = some .reduce && st.continuesReduction x srcbuffer dstbuffer
  let st := st.startChain kind.transferType continuation
  match kind.transferType with
  | none => return st
  | some type => touchTransfer ctx st x kind type srcbuffer dstbuffer continuation

/-- The loop over the `step` elements. -/
def touchSteps (ctx : TbContext) (st : TbParse) (stepNodes : List XmlNode) : ParseTrace TbParse :=
  stepNodes.foldlM (fun st stepNode => do touchStep ctx st (← check (readStep stepNode))) st

/-- The loop that lists the counts of a thread block's peers. -/
def countAccesses (nSendPeers nRecvPeers : Nat) : List Access :=
  (List.range mscclMaxCount).flatMap fun (c : Nat) =>
    [⟨.sendPeerInfo, nSendPeers⟩, ⟨.nchunksForPeer, c⟩, ⟨.recvPeerInfo, nRecvPeers⟩,
      ⟨.nchunksForPeer, c⟩]

/-- The body of the loop over the `tb` elements. -/
def touchTb (ngpus gpuId : Int) (chunks : BufferChunks) (st : GpuState) (tb : XmlNode) :
    ParseTrace GpuState := do
  let bid ← check (getPropInt tb "id")
  let recvpeer ← check (getPropInt tb "recv")
  let sendpeer ← check (getPropInt tb "send")
  let channelId ← check (getPropInt tb "chan")
  check (reject (bid < 0))
  check (reject (bid ≥ mscclMaxNumThreadBlocks))
  check (reject (bid.toNat ∈ st.bids))
  check (reject (recvpeer = gpuId ∨ sendpeer = gpuId))
  touch .mscclTBs bid
  check (reject (recvpeer < -1 ∨ sendpeer < -1))
  check (reject (recvpeer ≥ ngpus ∨ sendpeer ≥ ngpus))
  check (reject (channelId < 0 ∨ channelId > maxChannels))
  touch .mscclChannels channelId
  let channel := st.mscclChannels channelId.toNat
  let ctx : TbContext :=
    { sendpeer, recvpeer, nSendPeers := channel.sendPeers.length,
      nRecvPeers := channel.recvPeers.length, chunks }
  let sTB ← touchSteps ctx (.initial (i16 sendpeer) (i16 recvpeer) (i8 channelId))
    (tb.childElements "step")
  notes (countAccesses ctx.nSendPeers ctx.nRecvPeers)
  when (i16 sendpeer ≥ 0) (touch .sendPeerInfo ctx.nSendPeers)
  when (i16 recvpeer ≥ 0) (touch .recvPeerInfo ctx.nRecvPeers)
  let channel : MscclChannelInfo :=
    { sendPeers := channel.sendPeers ++ (if i16 sendpeer ≥ 0 then [i16 sendpeer] else [])
      recvPeers := channel.recvPeers ++ (if i16 recvpeer ≥ 0 then [i16 recvpeer] else []) }
  return {
    mscclTBs := Function.update st.mscclTBs bid.toNat sTB.tb
    mscclChannels := Function.update st.mscclChannels channelId.toNat channel
    bids := bid.toNat :: st.bids }

/-- The state of a GPU's algorithm after the `memset`. -/
def GpuState.initial : GpuState where
  mscclTBs := fun _ => .zero
  mscclChannels := fun _ => ⟨[], []⟩
  bids := []

/-- The body of the loop over the `gpu` elements. -/
def touchGpu (nRanks : Nat) (ngpus nChannels nChunksPerLoop : Int) (collType : CollectiveType)
    (gpu : XmlNode) : ParseTrace (Nat × MscclAlgorithm) := do
  let gpuId ← check (getPropInt gpu "id")
  let iChunks ← check (getPropInt gpu "i_chunks")
  let oChunks ← check (getPropInt gpu "o_chunks")
  let sChunks ← check (getPropInt gpu "s_chunks")
  check (reject (gpuId < 0 ∨ gpuId ≥ nRanks))
  let st ← (gpu.childElements "tb").foldlM (touchTb ngpus gpuId ⟨iChunks, oChunks, sChunks⟩)
    .initial
  check (reject (missingBlock st.bids))
  return (gpuId.toNat, {
    isValid := true
    collectiveType := collType
    ngpus := ngpus
    nchunksPerLoop := nChunksPerLoop
    nChannels := nChannels
    nBlocks := countBlocks st.bids
    nScratchChunks := sChunks
    mscclTBs := st.mscclTBs
    mscclChannels := st.mscclChannels })

/-- `AlgoTopology::ParseAlgoXml` with its accesses. -/
def touchAlgoXml (nRanks : Nat) (document : Option (Option XmlNode)) :
    ParseTrace (Nat → Option MscclAlgorithm) := do
  match document with
  | none => check (.error .fileReadError)
  | some none => check (.error .xmlParseError)
  | some (some root) =>
      check (failIf .xmlParseError (root.isElement "algo" = false))
      let _name ← check (getPropStr root "name")
      let ngpus ← check (getPropInt root "ngpus")
      check (failIf .xmlParseError (ngpus ≠ nRanks))
      let nChannels ← check (getPropInt root "nchannels")
      let nChunksPerLoop ← check (getPropInt root "nchunksperloop")
      let coll ← check (getPropStr root "coll")
      let collType ← check (collectiveType coll)
      (root.childElements "gpu").foldlM (fun algos gpu => do
        let (gpuId, algo) ← touchGpu nRanks ngpus nChannels nChunksPerLoop collType gpu
        return Function.update algos gpuId (some algo)) fun _ => none

/-- Every access of the parser is inside its array. -/
def IndexSafe (nRanks : Nat) (document : Option (Option XmlNode)) : Prop :=
  (touchAlgoXml nRanks document).All Access.InBounds

instance (nRanks : Nat) (document : Option (Option XmlNode)) : Decidable (IndexSafe nRanks document) :=
  inferInstanceAs (Decidable (∀ a ∈ _, Access.InBounds a))

/-! ## The notes change no result -/

theorem parse_ok_bind {α : Type} (f : Unit → Parse α) : (Except.ok () >>= f : Parse α) = f () := rfl

theorem result_touchPeer (array : ParseArray) (peer : Int) (n : Nat) (count : Int) :
    (touchPeer array peer n count).result =
      (reject (peer < 0) >>= fun _ => reject (n ≥ mscclMaxNumThreadBlocksPerChannel)) := by
  simp only [touchPeer, touch, result_bind, result_check, result_note]
  cases reject (peer < 0) with
  | error e => rfl
  | ok u => cases reject (n ≥ mscclMaxNumThreadBlocksPerChannel) <;> rfl

theorem check_twice {α : Type} (c : Parse Unit) (f : Unit → Parse α) :
    (c >>= fun _ => c >>= f) = c >>= f := by
  cases c <;> rfl

theorem chain_addTransfer (st : TbParse) (x : XmlStep) (type : TransferType)
    (srcbuffer dstbuffer : BufferType) (continuation : Bool) :
    (do
      onlyIf (!continuation)
        (reject (st.tb.dependentBid.length - st.oldDependencePointer > 0 ∧ x.dependBid < 0))
      st.addTransfer x type srcbuffer dstbuffer continuation) =
      st.addTransfer x type srcbuffer dstbuffer continuation := by
  cases continuation with
  | true => rfl
  | false => exact check_twice _ _

theorem result_touchTransfer (ctx : TbContext) (st : TbParse) (x : XmlStep) (kind : StepKind)
    (type : TransferType) (srcbuffer dstbuffer : BufferType) (continuation : Bool) :
    (touchTransfer ctx st x kind type srcbuffer dstbuffer continuation).result = (do
      reject (x.count < 0 ∨ x.count ≥ mscclMaxCount)
      onlyIf kind.hasSend (reject (ctx.sendpeer < 0))
      onlyIf kind.hasSend (reject (ctx.nSendPeers ≥ mscclMaxNumThreadBlocksPerChannel))
      onlyIf kind.hasRecv (reject (ctx.recvpeer < 0))
      onlyIf kind.hasRecv (reject (ctx.nRecvPeers ≥ mscclMaxNumThreadBlocksPerChannel))
      onlyIf kind.checkSrc (mscclCheckBufferBounds srcbuffer (i16 x.srcoffset) ctx.chunks)
      onlyIf kind.checkDst (mscclCheckBufferBounds dstbuffer (i16 x.dstoffset) ctx.chunks)
      st.addTransfer x type srcbuffer dstbuffer continuation) := by
  simp only [touchTransfer, result_bind, result_check, touch, result_note, result_when,
    result_touchPeer, ite_self, parse_ok_bind, chain_addTransfer]
  cases kind.hasSend <;> cases kind.hasRecv <;>
    simp only [onlyIf, parse_ok_bind, bind_assoc, if_true, if_false, Bool.false_eq_true]

theorem result_touchStep (ctx : TbContext) (st : TbParse) (x : XmlStep) :
    (touchStep ctx st x).result = addStep ctx st x := by
  simp only [touchStep, addStep, result_bind, result_check, result_when, result_notes, ite_self,
    parse_ok_bind]
  congr 1
  funext _
  congr 1
  funext _
  congr 1
  funext kind
  congr 1
  funext srcbuffer
  congr 1
  funext dstbuffer
  cases kind.transferType with
  | none => rfl
  | some type => exact result_touchTransfer ..

theorem result_touchSteps (ctx : TbContext) (st : TbParse) (stepNodes : List XmlNode) :
    (touchSteps ctx st stepNodes).result = parseSteps ctx st stepNodes := by
  simp only [touchSteps, parseSteps, result_foldlM, result_bind, result_check, result_touchStep]

theorem result_touchTb (ngpus gpuId : Int) (chunks : BufferChunks) (st : GpuState) (tb : XmlNode) :
    (touchTb ngpus gpuId chunks st tb).result = parseTb ngpus gpuId chunks st tb := by
  simp only [touchTb, parseTb, touch, result_bind, result_check, result_note, result_notes,
    result_when, result_touchSteps, result_pure, ite_self, parse_ok_bind]
  rfl

theorem result_touchGpu (nRanks : Nat) (ngpus nChannels nChunksPerLoop : Int)
    (collType : CollectiveType) (gpu : XmlNode) :
    (touchGpu nRanks ngpus nChannels nChunksPerLoop collType gpu).result =
      parseGpu nRanks ngpus nChannels nChunksPerLoop collType gpu := by
  simp only [touchGpu, parseGpu, result_bind, result_check, result_foldlM, result_touchTb,
    result_pure]
  rfl

/-- With its notes the parser is still the parser. -/
theorem result_touchAlgoXml (nRanks : Nat) (document : Option (Option XmlNode)) :
    (touchAlgoXml nRanks document).result = parseAlgoXml nRanks document := by
  match document with
  | none => rfl
  | some none => rfl
  | some (some root) =>
      simp only [touchAlgoXml, parseAlgoXml, result_bind, result_check, result_foldlM,
        result_touchGpu, result_pure]
      rfl
end CollectiveSim.Msccl
