import Mathlib
import CollectiveSim.Msccl.Buffer

/-!
# Receiving on a channel

What a channel keeps about one peer: the posted receives that still wait for bytes, and the bytes that
arrived before a receive was posted for them. Data goes where the posted receive says; a reduction
waits for all its bytes.
-/

namespace CollectiveSim.Msccl

open Framework

/-- The operations that take bytes from a peer. -/
inductive RecvOp
  | recv
  | recvReduceCopy
  deriving DecidableEq

/-- `PendingTransfer` of a receive. -/
structure PendingTransfer where
  bid : Nat
  sid : Nat
  receivedBytes : Nat
  pendingBytes : Nat
  op : RecvOp
  dstBuf : BufferType
  dstOffset : Int
  scratchBuf : List UInt8
  deriving DecidableEq

/-- The entries of `m_pendingRecvQueue` and `m_unclaimedBytes` for one peer. -/
structure PeerRecv where
  pendingRecvQueue : List PendingTransfer
  unclaimedBytes : List UInt8
  deriving DecidableEq

/-- What a call leaves behind: the memory, the peer's entries, and the step it completed. -/
structure RecvResult where
  memory : Memory
  peer : PeerRecv
  completed : Option (Nat × Nat)

section

variable (cfg : AppConfig) (gpu : Nat)

/-- Bytes that arrive for a posted receive go to their place; those of a reduction are kept back. -/
def stageBytes (op : RecvOp) (buf : BufferType) (off : Int) (pos : Nat) (payload : List UInt8)
    (m : Memory) : Option Memory :=
  match op with
  | .recv => do
      let dst ← cfg.getBufferPtr gpu buf off
      return m.write buf (dst + pos) payload
  | .recvReduceCopy => some m

/-- The bytes that were kept back are added to the destination. -/
def reduceStaged (op : RecvOp) (buf : BufferType) (off : Int) (scratchBuf : List UInt8)
    (m : Memory) : Option Memory :=
  match op with
  | .recv => some m
  | .recvReduceCopy => do
      let dst ← cfg.getBufferPtr gpu buf off
      return m.write buf dst (reduceAdd cfg scratchBuf.length
        (m.read ⟨buf, dst, scratchBuf.length⟩) scratchBuf)

/-- What a receive takes off the staging buffer goes to its destination. Without unclaimed bytes there
is no staging buffer, and the destination is not looked at. -/
def placeStaged (op : RecvOp) (buf : BufferType) (off : Int) (unclaimed data : List UInt8)
    (m : Memory) : Option Memory :=
  if unclaimed = [] then some m
  else (stageBytes cfg gpu op buf off 0 data m).bind (reduceStaged cfg gpu op buf off data)

/-- The scratch buffer of a pending transfer when more bytes have arrived. -/
def keepBack (op : RecvOp) (scratchBuf payload : List UInt8) : List UInt8 :=
  match op with
  | .recv => scratchBuf
  | .recvReduceCopy => scratchBuf ++ payload

/-- `OnBytesArrivedFromPeer`. -/
def onBytesArrivedFromPeer (payload : List UInt8) (m : Memory) (peer : PeerRecv) :
    Option RecvResult :=
  match peer.pendingRecvQueue with
  | cur :: rest => do
      let m ← stageBytes cfg gpu cur.op cur.dstBuf cur.dstOffset cur.receivedBytes payload m
      let cur := { cur with
        receivedBytes := cur.receivedBytes + payload.length
        scratchBuf := keepBack cur.op cur.scratchBuf payload }
      if cur.receivedBytes < cur.pendingBytes then
        return {
          memory := m
          peer := { peer with pendingRecvQueue := cur :: rest }
          completed := none }
      else if cur.receivedBytes > cur.pendingBytes then none
      else
        let m ← reduceStaged cfg gpu cur.op cur.dstBuf cur.dstOffset cur.scratchBuf m
        return {
          memory := m
          peer := { peer with pendingRecvQueue := rest }
          completed := some (cur.bid, cur.sid) }
  | [] =>
      -- the 32-bit size of the staging buffer must not wrap
      if peer.unclaimedBytes.length + payload.length < 2 ^ 32 then
        some {
          memory := m
          peer := { peer with unclaimedBytes := peer.unclaimedBytes ++ payload }
          completed := none }
      else none

/-- `ClaimOrRegisterPendingRecv`. -/
def claimOrRegisterPendingRecv (bid sid bytes : Nat) (dstBuf : BufferType) (dstOffset : Int)
    (op : RecvOp) (m : Memory) (peer : PeerRecv) : Option RecvResult :=
  let unclaimed := peer.unclaimedBytes
  if dstOffset < 0 then none
  else if unclaimed.length ≥ bytes then do
    let m ← placeStaged cfg gpu op dstBuf dstOffset unclaimed (unclaimed.take bytes) m
    return {
      memory := m
      peer := { peer with unclaimedBytes := unclaimed.drop bytes }
      completed := some (bid, sid) }
  else if unclaimed.length > 0 then do
    let m ← stageBytes cfg gpu op dstBuf dstOffset 0 unclaimed m
    let pt : PendingTransfer :=
      { bid, sid, receivedBytes := unclaimed.length, pendingBytes := bytes, op, dstBuf, dstOffset,
        scratchBuf := keepBack op [] unclaimed }
    return {
      memory := m
      peer := { pendingRecvQueue := peer.pendingRecvQueue ++ [pt], unclaimedBytes := [] }
      completed := none }
  else
    let pt : PendingTransfer :=
      { bid, sid, receivedBytes := 0, pendingBytes := bytes, op, dstBuf, dstOffset, scratchBuf := [] }
    some {
      memory := m
      peer := { peer with pendingRecvQueue := peer.pendingRecvQueue ++ [pt] }
      completed := none }

/-! ### The parts of the buffers that the calls touch -/

/-- `memcpy` of bytes for a plain receive. -/
def stageTouched (op : RecvOp) (buf : BufferType) (off : Int) (pos n : Nat) : List Region :=
  match op with
  | .recv => (cfg.regionAt gpu buf off pos n).toList
  | .recvReduceCopy => []

/-- `ReduceAdd` for a reduction. -/
def reduceTouched (op : RecvOp) (buf : BufferType) (off : Int) (n : Nat) : List Region :=
  match op with
  | .recv => []
  | .recvReduceCopy => (cfg.regionAt gpu buf off 0 n).toList

/-- What `OnBytesArrivedFromPeer` touches; the bytes are copied before they are counted. -/
def arrivalTouched (payload : List UInt8) (peer : PeerRecv) : List Region :=
  match peer.pendingRecvQueue with
  | [] => []
  | cur :: _ =>
      stageTouched cfg gpu cur.op cur.dstBuf cur.dstOffset cur.receivedBytes payload.length ++
        (if cur.receivedBytes + payload.length = cur.pendingBytes then
          reduceTouched cfg gpu cur.op cur.dstBuf cur.dstOffset cur.pendingBytes
        else [])

/-- What `ClaimOrRegisterPendingRecv` touches. -/
def claimTouched (bytes : Nat) (dstBuf : BufferType) (dstOffset : Int) (op : RecvOp)
    (peer : PeerRecv) : List Region :=
  let unclaimed := peer.unclaimedBytes.length
  if dstOffset < 0 ∨ unclaimed = 0 then []
  else if unclaimed ≥ bytes then
    stageTouched cfg gpu op dstBuf dstOffset 0 bytes ++ reduceTouched cfg gpu op dstBuf dstOffset bytes
  else stageTouched cfg gpu op dstBuf dstOffset 0 unclaimed

end

section

variable {cfg : AppConfig} {gpu : Nat} {op : RecvOp} {buf : BufferType} {off : Int} {pos n : Nat}
  {r : Region}

theorem eq_of_mem_stageTouched (h : r ∈ stageTouched cfg gpu op buf off pos n) :
    op = .recv ∧ cfg.bufferOffset off ≤ cfg.bufferBytes gpu buf ∧
      r = ⟨buf, cfg.bufferOffset off + pos, n⟩ := by
  cases op with
  | recv => exact ⟨rfl, AppConfig.regionAt_eq_some_iff.mp (Option.mem_toList.mp h)⟩
  | recvReduceCopy => cases h

theorem eq_of_mem_reduceTouched (h : r ∈ reduceTouched cfg gpu op buf off n) :
    cfg.bufferOffset off ≤ cfg.bufferBytes gpu buf ∧ r = ⟨buf, cfg.bufferOffset off + 0, n⟩ := by
  cases op with
  | recv => cases h
  | recvReduceCopy => exact AppConfig.regionAt_eq_some_iff.mp (Option.mem_toList.mp h)

theorem eq_of_mem_claimTouched {bytes : Nat} {peer : PeerRecv}
    (h : r ∈ claimTouched cfg gpu bytes buf off op peer) :
    0 ≤ off ∧ cfg.bufferOffset off ≤ cfg.bufferBytes gpu buf ∧
      ∃ n ≤ bytes, r = ⟨buf, cfg.bufferOffset off, n⟩ := by
  simp only [claimTouched] at h
  split at h
  · cases h
  · next hsome =>
      refine ⟨by omega, ?_⟩
      split at h
      · rcases List.mem_append.mp h with h | h
        · obtain ⟨-, hstart, rfl⟩ := eq_of_mem_stageTouched h
          exact ⟨hstart, bytes, Nat.le_refl _, rfl⟩
        · obtain ⟨hstart, rfl⟩ := eq_of_mem_reduceTouched h
          exact ⟨hstart, bytes, Nat.le_refl _, rfl⟩
      · next hless =>
          obtain ⟨-, hstart, rfl⟩ := eq_of_mem_stageTouched h
          exact ⟨hstart, _, by omega, rfl⟩

theorem eq_of_mem_arrivalTouched {payload : List UInt8} {peer : PeerRecv}
    (h : r ∈ arrivalTouched cfg gpu payload peer) :
    ∃ cur rest, peer.pendingRecvQueue = cur :: rest ∧
      cfg.bufferOffset cur.dstOffset ≤ cfg.bufferBytes gpu cur.dstBuf ∧
      ∃ pos n, r = ⟨cur.dstBuf, cfg.bufferOffset cur.dstOffset + pos, n⟩ ∧
        ((cur.op = .recv → cur.receivedBytes + payload.length ≤ cur.pendingBytes) →
          pos + n ≤ cur.pendingBytes) := by
  rw [arrivalTouched] at h
  cases hqueue : peer.pendingRecvQueue with
  | nil =>
      rw [hqueue] at h
      cases h
  | cons cur rest =>
      rw [hqueue] at h
      refine ⟨cur, rest, rfl, ?_⟩
      rcases List.mem_append.mp h with h | h
      · obtain ⟨hop, hstart, rfl⟩ := eq_of_mem_stageTouched h
        exact ⟨hstart, _, _, rfl, fun hroom => hroom hop⟩
      · split at h
        · obtain ⟨hstart, rfl⟩ := eq_of_mem_reduceTouched h
          exact ⟨hstart, _, _, rfl, fun _ => (Nat.zero_add _).le⟩
        · cases h

end

end CollectiveSim.Msccl
