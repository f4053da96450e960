import Mathlib
import CollectiveSim.Msccl.Algorithm
import CollectiveSim.Msccl.Xml

/-!
# Parsing an algorithm

`AlgoTopology::ParseAlgoXml` on the elements of a document. A nop leaves its dependence in the tables
of the thread block, and the next transfer takes all dependences since the last one.
-/

namespace CollectiveSim.Msccl

open Framework

/-- `AlgoParseResult` without success. -/
inductive AlgoParseError
  | fileReadError
  | xmlParseError
  | jsonParseError
  | invalidUseError
  deriving DecidableEq

abbrev Parse := Except AlgoParseError

def invalidUse {α : Type} : Parse α := .error .invalidUseError

/-- The error is returned when the condition holds. -/
def failIf (e : AlgoParseError) (p : Prop) [Decidable p] : Parse Unit :=
  if p then .error e else .ok ()

def reject (p : Prop) [Decidable p] : Parse Unit := failIf .invalidUseError p

/-- A check that is made in one case only. -/
def onlyIf (b : Bool) (check : Parse Unit) : Parse Unit := if b then check else .ok ()

/-- `XML_GET_PROP_STR`. -/
def getPropStr (node : XmlNode) (prop : String) : Parse String :=
  match node.getProp prop with
  | some v => .ok v
  | none => .error .xmlParseError

/-- `XML_GET_PROP_INT`. -/
def getPropInt (node : XmlNode) (prop : String) : Parse Int := do
  return atoi (← getPropStr node prop)

/-- The attributes of a `step` element. -/
structure XmlStep where
  s : Int
  srcoffset : Int
  srcbuffer : String
  dstoffset : Int
  dstbuffer : String
  count : Int
  type : String
  dependBid : Int
  dependStep : Int
  hasDependence : Int
  mscclFlowId : Nat
  deriving DecidableEq

def readStep (stepNode : XmlNode) : Parse XmlStep := do
  let s ← getPropInt stepNode "s"
  let srcoffset ← getPropInt stepNode "srcoff"
  let srcbuffer ← getPropStr stepNode "srcbuf"
  let dstoffset ← getPropInt stepNode "dstoff"
  let dstbuffer ← getPropStr stepNode "dstbuf"
  let count ← getPropInt stepNode "cnt"
  let type ← getPropStr stepNode "type"
  let dependBid ← getPropInt stepNode "depid"
  let dependStep ← getPropInt stepNode "deps"
  let hasDependence ← getPropInt stepNode "hasdep"
  -- the only optional attribute
  let mscclFlowId :=
    match stepNode.getProp "mscclflowid" with
    | some v => (atoi v % 2 ^ 32).toNat
    | none => mscclFlowIdNone
  return { s, srcoffset, srcbuffer, dstoffset, dstbuffer, count, type, dependBid, dependStep,
           hasDependence, mscclFlowId }

/-- `mscclGetBufferType`. -/
def mscclGetBufferType (str : String) : Parse BufferType :=
  if str = "i" then .ok .input
  else if str = "o" then .ok .output
  else if str = "s" then .ok .scratch
  else invalidUse

/-- The numbers of chunks in the three buffers of a GPU. -/
structure BufferChunks where
  iChunks : Int
  oChunks : Int
  sChunks : Int
  deriving DecidableEq

def BufferChunks.size (chunks : BufferChunks) : BufferType → Int
  | .input => chunks.iChunks
  | .output => chunks.oChunks
  | .scratch => chunks.sChunks

/-- `mscclCheckBufferBounds`. -/
def mscclCheckBufferBounds (bufferType : BufferType) (offset : Int) (chunks : BufferChunks) :
    Parse Unit :=
  reject (offset < -1 ∨ offset ≥ chunks.size bufferType)

/-- What the type of a step decides; a nop has no transfer type. -/
structure StepKind where
  transferType : Option TransferType
  hasSend : Bool
  hasRecv : Bool
  checkSrc : Bool
  checkDst : Bool
  deriving DecidableEq

def stepKind (type : String) : Parse StepKind :=
  if type = "s" then .ok ⟨some .send, true, false, true, false⟩
  else if type = "r" then .ok ⟨some .recv, false, true, false, true⟩
  else if type = "rcs" then .ok ⟨some .recvCopySend, true, true, false, true⟩
  else if type = "rrs" then .ok ⟨some .recvReduceSend, true, true, true, false⟩
  else if type = "rrc" then .ok ⟨some .recvReduceCopy, false, true, false, false⟩
  else if type = "rrcs" then .ok ⟨some .recvReduceCopySend, true, true, true, true⟩
  else if type = "cpy" then .ok ⟨some .localCopy, false, false, true, true⟩
  else if type = "re" then .ok ⟨some .reduce, false, false, true, true⟩
  else if type = "ra" then .ok ⟨some .resAdd, false, false, true, true⟩
  else if type = "nop" then .ok ⟨none, false, false, false, false⟩
  else invalidUse

/-- What stays the same over the steps of a thread block. -/
structure TbContext where
  sendpeer : Int
  recvpeer : Int
  nSendPeers : Nat
  nRecvPeers : Nat
  chunks : BufferChunks
  deriving DecidableEq

/-- The thread block so far, where its next transfer's dependences start, and the last reduction that
can still be continued (`none` and -1 when there is none). -/
structure TbParse where
  tb : MscclThreadBlock
  oldDependencePointer : Nat
  oldReductionDstBuffer : Option BufferType
  oldReductionDstOffset : Int
  oldReductionSrcBuffer : Option BufferType
  deriving DecidableEq

namespace TbParse

variable (st : TbParse) (x : XmlStep)

def addDependence : TbParse :=
  if x.dependBid ≥ 0 then
    { st with tb := { st.tb with
        dependentBid := st.tb.dependentBid ++ [i8 x.dependBid]
        dependentStep := st.tb.dependentStep ++ [i16 x.dependStep] } }
  else st

def continuesReduction (srcbuffer dstbuffer : BufferType) : Bool :=
  st.oldReductionDstBuffer = some dstbuffer ∧ st.oldReductionDstOffset = x.dstoffset ∧
    st.oldReductionSrcBuffer = some srcbuffer ∧ x.dependBid = -1

/-- Write the transfer to its place; the transfer of a continued reduction is used again. -/
def addTransfer (type : TransferType) (srcbuffer dstbuffer : BufferType) (continuation : Bool) :
    Parse TbParse := do
  let prev := if continuation then st.tb.transfers.dropLast else st.tb.transfers
  let slot := if continuation then st.tb.transfers.getLast?.getD .zero else .zero
  let numDependences := st.tb.dependentBid.length
  let tran := { slot with
    type := type
    srcoffset := i16 x.srcoffset
    srcbuffer := srcbuffer
    dstbuffer := dstbuffer
    dstoffset := i16 x.dstoffset
    mscclFlowId := x.mscclFlowId
    count := x.count.toNat }
  let tran := if continuation then tran else { tran with
    depencePointer := st.oldDependencePointer
    numDependences := numDependences - st.oldDependencePointer }
  onlyIf (!continuation) (reject (tran.numDependences > 0 ∧ x.dependBid < 0))
  let st := if continuation then st else { st with oldDependencePointer := numDependences }
  reject (x.hasDependence ≠ 0 ∧ x.hasDependence ≠ 1)
  let tran := { tran with hasDependence := x.hasDependence }
  if type ≠ .reduce then
    return { st with
      tb := { st.tb with transfers := prev ++ [tran] }
      oldReductionDstBuffer := none
      oldReductionDstOffset := -1
      oldReductionSrcBuffer := none }
  let numReductions := st.tb.reductionSrcOffsets.length
  let pointer := if st.oldReductionDstBuffer = none then numReductions else tran.reductionPointer
  let tran := { tran with
    reductionPointer := pointer
    numReductions := numReductions + 1 - pointer }
  let tb := { st.tb with
    reductionSrcOffsets := st.tb.reductionSrcOffsets ++ [i16 x.srcoffset]
    transfers := prev ++ [tran] }
  if x.hasDependence ≠ 0 ∨ numReductions + 1 = mscclMaxReduceFusion then
    return { st with tb := tb, oldReductionDstBuffer := none, oldReductionDstOffset := -1 }
  return { st with
    tb := tb
    oldReductionDstBuffer := some dstbuffer
    oldReductionDstOffset := tran.dstoffset
    oldReductionSrcBuffer := some srcbuffer }

end TbParse

/-- The body of the loop over the steps of a thread block. -/
def addStep (ctx : TbContext) (st : TbParse) (x : XmlStep) : Parse TbParse := do
  reject (x.s ≥ mscclMaxNumSteps)
  reject (x.s < 0)
  let kind ← stepKind x.type
  let st := st.addDependence x
  let srcbuffer ← mscclGetBufferType x.srcbuffer
  let dstbuffer ← mscclGetBufferType x.dstbuffer
  let continuation :=
    kind.transferType = some .reduce && st.continuesReduction x srcbuffer dstbuffer
  let st :=
    if kind.transferType = some .reduce ∧ ¬ continuation then
      { st with oldReductionDstBuffer := none, oldReductionDstOffset := -1 }
    else st
  match kind.transferType with
  | none => return st
  | some type =>
      reject (x.count < 0 ∨ x.count ≥ mscclMaxCount)
      onlyIf kind.hasSend (reject (ctx.sendpeer < 0))
      onlyIf kind.hasSend (reject (ctx.nSendPeers ≥ mscclMaxNumThreadBlocksPerChannel))
      onlyIf kind.hasRecv (reject (ctx.recvpeer < 0))
      onlyIf kind.hasRecv (reject (ctx.nRecvPeers ≥ mscclMaxNumThreadBlocksPerChannel))
      onlyIf kind.checkSrc (mscclCheckBufferBounds srcbuffer (i16 x.srcoffset) ctx.chunks)
      onlyIf kind.checkDst (mscclCheckBufferBounds dstbuffer (i16 x.dstoffset) ctx.chunks)
      st.addTransfer x type srcbuffer dstbuffer continuation

/-- The state before the first step. -/
def TbParse.initial (sendpeer recvpeer channelId : Int) : TbParse where
  tb := { MscclThreadBlock.zero with sendpeer, recvpeer, channelId }
  oldDependencePointer := 0
  oldReductionDstBuffer := none
  oldReductionDstOffset := -1
  oldReductionSrcBuffer := none

/-- The loop over the `step` elements. -/
def parseSteps (ctx : TbContext) (st : TbParse) (stepNodes : List XmlNode) : Parse TbParse :=
  stepNodes.foldlM (fun st stepNode => do addStep ctx st (← readStep stepNode)) st

/-- A GPU's algorithm in the making, with the ids for which `blockExists` is set. -/
structure GpuState where
  mscclTBs : Nat → MscclThreadBlock
  mscclChannels : Nat → MscclChannelInfo
  bids : List Nat

/-- The body of the loop over the `tb` elements. -/
def parseTb (ngpus gpuId : Int) (chunks : BufferChunks) (st : GpuState) (tb : XmlNode) :
    Parse GpuState := do
  let bid ← getPropInt tb "id"
  let recvpeer ← getPropInt tb "recv"
  let sendpeer ← getPropInt tb "send"
  let channelId ← getPropInt tb "chan"
  reject (bid < 0)
  reject (bid ≥ mscclMaxNumThreadBlocks)
  reject (bid.toNat ∈ st.bids)
  reject (recvpeer = gpuId ∨ sendpeer = gpuId)
  reject (recvpeer < -1 ∨ sendpeer < -1)
  reject (recvpeer ≥ ngpus ∨ sendpeer ≥ ngpus)
  -- channel `maxChannels` itself is let through
  reject (channelId < 0 ∨ channelId > maxChannels)
  let channel := st.mscclChannels channelId.toNat
  let ctx : TbContext :=
    { sendpeer, recvpeer, nSendPeers := channel.sendPeers.length,
      nRecvPeers := channel.recvPeers.length, chunks }
  let sTB ← parseSteps ctx (.initial (i16 sendpeer) (i16 recvpeer) (i8 channelId))
    (tb.childElements "step")
  let channel : MscclChannelInfo :=
    { sendPeers := channel.sendPeers ++ (if i16 sendpeer ≥ 0 then [i16 sendpeer] else [])
      recvPeers := channel.recvPeers ++ (if i16 recvpeer ≥ 0 then [i16 recvpeer] else []) }
  return {
    mscclTBs := Function.update st.mscclTBs bid.toNat sTB.tb
    mscclChannels := Function.update st.mscclChannels channelId.toNat channel
    bids := bid.toNat :: st.bids }

/-- One more than the last id for which `blockExists` is set. -/
def countBlocks (bids : List Nat) : Nat :=
  (List.range mscclMaxNumThreadBlocks).foldl (fun n i => if i ∈ bids then i + 1 else n) 0

/-- A thread block exists although the one before it does not. -/
def missingBlock (bids : List Nat) : Bool :=
  (List.range mscclMaxNumThreadBlocks).any fun i => decide (0 < i ∧ i ∈ bids ∧ i - 1 ∉ bids)

/-- The body of the loop over the `gpu` elements: the GPU's id and its algorithm. -/
def parseGpu (nRanks : Nat) (ngpus nChannels nChunksPerLoop : Int) (collType : CollectiveType)
    (gpu : XmlNode) : Parse (Nat × MscclAlgorithm) := do
  let gpuId ← getPropInt gpu "id"
  let iChunks ← getPropInt gpu "i_chunks"
  let oChunks ← getPropInt gpu "o_chunks"
  let sChunks ← getPropInt gpu "s_chunks"
  reject (gpuId < 0 ∨ gpuId ≥ nRanks)
  let st ← (gpu.childElements "tb").foldlM (parseTb ngpus gpuId ⟨iChunks, oChunks, sChunks⟩)
    { mscclTBs := fun _ => .zero, mscclChannels := fun _ => ⟨[], []⟩, bids := [] }
  reject (missingBlock st.bids)
  return (gpuId.toNat, {
    isValid := true
    collectiveType := collType
    ngpus := ngpus
    nchunksPerLoop := nChunksPerLoop
    nChannels := nChannels
    nBlocks := countBlocks st.bids
    nScratchChunks := sChunks
    mscclTBs := st.mscclTBs
    mscclChannels := st.mscclChannels })

def collectiveType (coll : String) : Parse CollectiveType :=
  if coll = "allreduce" then .ok .allreduce
  else if coll = "allgather" then .ok .allgather
  else if coll = "reduce" then .ok .reduce
  else if coll = "broadcast" then .ok .broadcast
  else if coll = "alltoall" then .ok .alltoall
  else if coll = "reduce_scatter" then .ok .reducescatter
  else if coll = "custom" then .ok .custom
  else invalidUse

/-- `AlgoTopology::ParseAlgoXml` on the root element of the document, `none` when it has none or could
not be read: the algorithms of the GPUs that it sets. -/
def parseAlgoXml (nRanks : Nat) (document : Option (Option XmlNode)) :
    Parse (Nat → Option MscclAlgorithm) := do
  match document with
  | none => .error .fileReadError
  | some none => .error .xmlParseError
  | some (some root) =>
      failIf .xmlParseError (root.isElement "algo" = false)
      let _name ← getPropStr root "name"
      let ngpus ← getPropInt root "ngpus"
      failIf .xmlParseError (ngpus ≠ nRanks)
      let nChannels ← getPropInt root "nchannels"
      let nChunksPerLoop ← getPropInt root "nchunksperloop"
      let collType ← collectiveType (← getPropStr root "coll")
      (root.childElements "gpu").foldlM (fun algos gpu => do
        let (gpuId, algo) ← parseGpu nRanks ngpus nChannels nChunksPerLoop collType gpu
        return Function.update algos gpuId (some algo)) fun _ => none

end CollectiveSim.Msccl
