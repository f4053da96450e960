import Mathlib
import CollectiveSim.Framework.MachineInt

/-!
# MSCCL algorithms

The tables that `ParseAlgoXml` fills and the interpreter reads. An array with a fill counter is a list
whose length is the counter.
-/

namespace CollectiveSim.Msccl

open Framework

def mscclMaxNumSteps : Nat := 256
def mscclMaxNumThreadBlocksPerChannel : Nat := 32
def mscclMaxNumThreadBlocks : Nat := 108 * 2
def mscclMaxCount : Nat := 72
def mscclMaxReduceFusion : Nat := 16
def mscclMaxIter : Nat := 65536
def maxChannels : Nat := 32

/-- `MSCCL_FLOW_ID_NONE`. -/
def mscclFlowIdNone : Nat := 0xFFFFFFFF

/-- The buffer numbers `MSCCL_INPUT_BUFFER` to `MSCCL_SCRATCH_BUFFER`. -/
inductive BufferType
  | input
  | output
  | scratch
  deriving DecidableEq

/-- The transfer types from `MSCCL_SEND` to `MSCCL_RES_ADD`. -/
inductive TransferType
  | send
  | recv
  | recvCopySend
  | recvReduceSend
  | recvReduceCopy
  | recvReduceCopySend
  | localCopy
  | reduce
  | resAdd
  deriving DecidableEq

structure MscclTransfer where
  srcoffset : Int
  dstoffset : Int
  srcbuffer : BufferType
  dstbuffer : BufferType
  /-- index to the first dependence -/
  depencePointer : Nat
  numDependences : Nat
  hasDependence : Int
  numReductions : Nat
  reductionPointer : Nat
  type : TransferType
  count : Nat
  mscclFlowId : Nat
  deriving DecidableEq

/-- The zeroed record. -/
def MscclTransfer.zero : MscclTransfer where
  srcoffset := 0
  dstoffset := 0
  srcbuffer := .input
  dstbuffer := .input
  depencePointer := 0
  numDependences := 0
  hasDependence := 0
  numReductions := 0
  reductionPointer := 0
  type := .send
  count := 0
  mscclFlowId := 0

structure MscclThreadBlock where
  sendpeer : Int
  recvpeer : Int
  channelId : Int
  dependentBid : List Int
  dependentStep : List Int
  reductionSrcOffsets : List Int
  transfers : List MscclTransfer
  deriving DecidableEq

namespace MscclThreadBlock

/-- The zeroed record. -/
def zero : MscclThreadBlock where
  sendpeer := 0
  recvpeer := 0
  channelId := 0
  dependentBid := []
  dependentStep := []
  reductionSrcOffsets := []
  transfers := []

def nsteps (tb : MscclThreadBlock) : Nat := tb.transfers.length

/-- The dependences `[depencePointer, depencePointer + numDependences)` of a transfer: thread block
and step. -/
def dependences (tb : MscclThreadBlock) (tran : MscclTransfer) : List (Int × Int) :=
  ((tb.dependentBid.zip tb.dependentStep).drop tran.depencePointer).take tran.numDependences

end MscclThreadBlock

/-- The peers of a channel in the order of the thread blocks that use them. -/
structure MscclChannelInfo where
  sendPeers : List Int
  recvPeers : List Int
  deriving DecidableEq

inductive CollectiveType
  | allreduce
  | allgather
  | reduce
  | broadcast
  | alltoall
  | reducescatter
  | custom
  deriving DecidableEq

structure MscclAlgorithm where
  isValid : Bool
  collectiveType : CollectiveType
  ngpus : Int
  nchunksPerLoop : Int
  nChannels : Int
  nBlocks : Nat
  nScratchChunks : Int
  mscclTBs : Nat → MscclThreadBlock
  mscclChannels : Nat → MscclChannelInfo

/-- `COMPUTE_FLAG` as the signed 64-bit value it is stored in. -/
def computeFlag (workIndex iter : Nat) (step : Int) : Int :=
  (((mscclMaxIter * mscclMaxNumSteps * workIndex + (iter * mscclMaxNumSteps) : Nat) : Int) +
    step).bmod (2 ^ 64)

theorem computeFlag_zero {step : Int} (hlo : -2 ^ 63 ≤ step) (hhi : step < 2 ^ 63) :
    computeFlag 0 0 step = step := by
  rw [computeFlag, Nat.mul_zero, Nat.zero_mul, Nat.add_zero, Nat.cast_zero, Int.zero_add]
  exact bmod_eq_self (w := 64) (by decide) hlo hhi

end CollectiveSim.Msccl
