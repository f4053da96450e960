import Mathlib
import CollectiveSim.Msccl.Document
import CollectiveSim.Msccl.Sequential

/-!
# Accesses to the buffers

What the moves of a collective read and write in the buffers that the application allocates for the
chunk counts of the document. The parser checks where a range starts and not where it ends, and
`GetBufferPtr` checks the start again.
-/

namespace CollectiveSim.Msccl

open Framework

/-- The chunks `[off, off + count)` of a buffer. -/
structure ChunkRange where
  buffer : BufferType
  off : Int
  count : Nat
  deriving DecidableEq

namespace MscclTransfer

variable (tran : MscclTransfer)

def sourceChunks : ChunkRange := ⟨tran.srcbuffer, tran.srcoffset, tran.count⟩

def targetChunks : ChunkRange := ⟨tran.dstbuffer, tran.dstoffset, tran.count⟩

end MscclTransfer

/-- A part of a buffer that is read or written, and the chunks that the step names for it. -/
structure BufferAccess where
  gpu : Nat
  chunks : ChunkRange
  touched : Region
  deriving DecidableEq

/-- The bytes of a chunk. -/
def AppConfig.chunkBytes (cfg : AppConfig) : Nat := cfg.chunkSize * cfg.dataType.getSizeBytes

/-- The chunk counts of a GPU in the document; the last element of a GPU counts. -/
def gpuChunks (root : XmlNode) (gpuId : Nat) : BufferChunks :=
  match (root.childElements "gpu").reverse.find? (XmlNode.hasId gpuId) with
  | some gpu =>
      let get (prop : String) : Int := (getPropInt gpu prop).toOption.getD 0
      ⟨get "i_chunks", get "o_chunks", get "s_chunks"⟩
  | none => ⟨0, 0, 0⟩

section

variable (cfg : AppConfig) (root : XmlNode)

/-- The buffer has these chunks. -/
def ChunkRange.Exists (gpu : Nat) (r : ChunkRange) : Prop :=
  0 ≤ r.off ∧ r.off + r.count ≤ (gpuChunks root gpu).size r.buffer

/-- The access is to bytes of the step's chunks, and these are chunks of the buffer. -/
structure BufferAccess.Inside (a : BufferAccess) : Prop where
  buffer : a.touched.buffer = a.chunks.buffer
  chunks : a.chunks.Exists root a.gpu
  start : a.chunks.off * cfg.chunkBytes ≤ a.touched.addr
  stop : a.touched.addr + a.touched.size ≤ (a.chunks.off + a.chunks.count) * cfg.chunkBytes
  allocated : a.touched.addr + a.touched.size ≤ cfg.bufferBytes a.gpu a.touched.buffer

instance (gpu : Nat) (r : ChunkRange) : Decidable (r.Exists root gpu) :=
  inferInstanceAs (Decidable (_ ∧ _))

end

/-! ### The accesses of a move -/

namespace Collective

variable (cfg : AppConfig) (algos : Nat → Option MscclAlgorithm)

/-- The transfer that a message or a pending receive stands for. -/
def transferOf (gpu bid sid : Nat) : Option MscclTransfer :=
  (algos gpu).bind fun algo => (algo.mscclTBs bid).transfers[sid]?

/-- The chunks that its step names; without a transfer there are none. -/
def chunksOf (chunks : MscclTransfer → ChunkRange) (gpu bid sid : Nat) : ChunkRange :=
  ((transferOf algos gpu bid sid).map chunks).getD ⟨.input, 0, 0⟩

/-- What `RunStep` accesses; an RDMA send reads its source when its fragments leave. -/
def startAccesses (gpu : Nat) (tb : MscclThreadBlock) (tran : MscclTransfer) (s : Collective) :
    List BufferAccess :=
  let source := cfg.regionAt gpu tran.srcbuffer tran.srcoffset 0 (cfg.bytes tran.count)
  let target := cfg.regionAt gpu tran.dstbuffer tran.dstoffset 0 (cfg.bytes tran.count)
  let claim (op : RecvOp) : List BufferAccess :=
    if tb.recvpeer < 0 then []
    else (claimTouched cfg gpu (cfg.bytes tran.count) tran.dstbuffer tran.dstoffset op
      (s.receiving (recvConn gpu tb))).map fun r => ⟨gpu, tran.targetChunks, r⟩
  match tran.type with
  | .send =>
      if tb.sendpeer < 0 ∨ tran.dstoffset < 0 ∨ cfg.isRdmaPeer gpu (sendConn gpu tb).receiver then []
      else source.toList.map fun r => ⟨gpu, tran.sourceChunks, r⟩
  | .recv => claim .recv
  | .recvReduceCopy => claim .recvReduceCopy
  | .localCopy =>
      match target, source with
      | some dst, some src => [⟨gpu, tran.targetChunks, dst⟩, ⟨gpu, tran.sourceChunks, src⟩]
      | _, _ => []
  | _ => []

/-- What a move that can happen accesses, also when it ends the program. -/
def accesses (s : Collective) : Move → List BufferAccess
  | .fire gpu (.runStep bid sid) =>
      match algos gpu with
      | none => []
      | some algo =>
          if .runStep bid sid ∈ (s.interp gpu).pending then
            match (algo.mscclTBs bid).transfers[sid]? with
            | some tran => s.startAccesses cfg gpu (algo.mscclTBs bid) tran
            | none => []
          else []
  | .fire _ _ => []
  | .emit c n =>
      match (s.sending c).queue with
      | [] => []
      | message :: _ =>
          if message.captured = none ∧ 0 < n ∧ message.emitted + n ≤ message.source.size then
            [⟨c.sender, chunksOf algos MscclTransfer.sourceChunks c.sender message.bid message.sid,
              ⟨message.source.buffer, message.source.addr + message.emitted, n⟩⟩]
          else []
  | .sent _ => []
  | .arrive c =>
      match (s.sending c).wire, (s.receiving c).pendingRecvQueue with
      | payload :: _, cur :: _ =>
          (arrivalTouched cfg c.receiver payload (s.receiving c)).map fun r =>
            ⟨c.receiver, chunksOf algos MscclTransfer.targetChunks c.receiver cur.bid cur.sid, r⟩
      | _, _ => []

end Collective

section

variable (cfg : AppConfig) (root : XmlNode)

/-- The buffer has these chunks, and they start below the `2 ^ 32` bytes that an address can count. -/
def ChunkRange.Fits (gpu : Nat) (r : ChunkRange) : Prop :=
  r.Exists root gpu ∧ r.off * cfg.chunkBytes < 2 ^ 32

instance (gpu : Nat) (r : ChunkRange) : Decidable (r.Fits cfg root gpu) :=
  inferInstanceAs (Decidable (_ ∧ _))

/-- `GetBufferPtr` finds the start of the chunks in front of the end of the buffer. -/
def ChunkRange.Starts (gpu : Nat) (r : ChunkRange) : Prop :=
  cfg.bufferOffset r.off ≤ cfg.bufferBytes gpu r.buffer

instance (gpu : Nat) (r : ChunkRange) : Decidable (r.Starts cfg gpu) :=
  inferInstanceAs (Decidable (_ ≤ _))

/-- The chunks of a transfer that gets past the checks of its offsets are chunks of their buffers. -/
def MscclTransfer.FitsBuffers (gpu : Nat) (tran : MscclTransfer) : Prop :=
  match tran.type with
  | .send =>
      0 ≤ tran.dstoffset → tran.sourceChunks.Starts cfg gpu → tran.sourceChunks.Fits cfg root gpu
  | .recv | .recvReduceCopy =>
      0 ≤ tran.dstoffset → tran.targetChunks.Starts cfg gpu → tran.targetChunks.Fits cfg root gpu
  | .localCopy =>
      tran.sourceChunks.Starts cfg gpu → tran.targetChunks.Starts cfg gpu →
        tran.sourceChunks.Fits cfg root gpu ∧ tran.targetChunks.Fits cfg root gpu
  | _ => True

instance (gpu : Nat) : (tran : MscclTransfer) → Decidable (tran.FitsBuffers cfg root gpu)
  | { type := .send, .. } => inferInstanceAs (Decidable (_ → _ → _))
  | { type := .recv, .. } => inferInstanceAs (Decidable (_ → _ → _))
  | { type := .recvReduceCopy, .. } => inferInstanceAs (Decidable (_ → _ → _))
  | { type := .localCopy, .. } => inferInstanceAs (Decidable (_ → _ → _ ∧ _))
  | { type := .recvCopySend, .. } => isTrue trivial
  | { type := .recvReduceSend, .. } => isTrue trivial
  | { type := .recvReduceCopySend, .. } => isTrue trivial
  | { type := .reduce, .. } => isTrue trivial
  | { type := .resAdd, .. } => isTrue trivial

/-- A transfer that is started fits its buffers, and a fragment that arrives for a plain receive does
not have more bytes than that still waits for. -/
def Collective.Fits (algos : Nat → Option MscclAlgorithm) (s : Collective) : Move → Prop
  | .fire gpu (.runStep bid sid) => ∀ algo tran, algos gpu = some algo →
      (algo.mscclTBs bid).transfers[sid]? = some tran → tran.FitsBuffers cfg root gpu
  | .arrive c => ∀ payload wire cur rest, (s.sending c).wire = payload :: wire →
      (s.receiving c).pendingRecvQueue = cur :: rest → cur.op = .recv →
        cur.receivedBytes + payload.length ≤ cur.pendingBytes
  | _ => True

/-- The algorithms of an accepted document, on buffers with its numbers of chunks. -/
structure Sized (nRanks : Nat) (algos : Nat → Option MscclAlgorithm) : Prop where
  accepted : parseAlgoXml nRanks (some (some root)) = .ok algos
  bufferLen : ∀ gpu buf,
    cfg.bufferLen gpu buf = ((gpuChunks root gpu).size buf).toNat * cfg.chunkSize

end

/-- Buffers with the numbers of chunks of a document. -/
def AppConfig.ofDocument (dataType : ElemType) (chunkSize : Nat) (root : XmlNode) : AppConfig where
  dataType := dataType
  floatSums := .machine
  chunkSize := chunkSize
  isRdmaPeer _ _ := false
  bufferLen gpu buf := ((gpuChunks root gpu).size buf).toNat * chunkSize

/-! ### The accesses by cases -/

/-- What the call of a transfer reads or writes. -/
inductive StartAccess (cfg : AppConfig) (gpu : Nat) (tran : MscclTransfer) : BufferAccess → Prop
  | send (htype : tran.type = .send) (hoff : 0 ≤ tran.dstoffset)
      (hstart : tran.sourceChunks.Starts cfg gpu) :
      StartAccess cfg gpu tran ⟨gpu, tran.sourceChunks, tran.source cfg⟩
  | receive {n : Nat} (htype : tran.type = .recv ∨ tran.type = .recvReduceCopy)
      (hoff : 0 ≤ tran.dstoffset) (hstart : tran.targetChunks.Starts cfg gpu)
      (hn : n ≤ cfg.bytes tran.count) :
      StartAccess cfg gpu tran
        ⟨gpu, tran.targetChunks, ⟨tran.dstbuffer, cfg.bufferOffset tran.dstoffset, n⟩⟩
  | copyTarget (htype : tran.type = .localCopy) (hsource : tran.sourceChunks.Starts cfg gpu)
      (htarget : tran.targetChunks.Starts cfg gpu) :
      StartAccess cfg gpu tran ⟨gpu, tran.targetChunks, tran.target cfg⟩
  | copySource (htype : tran.type = .localCopy) (hsource : tran.sourceChunks.Starts cfg gpu)
      (htarget : tran.targetChunks.Starts cfg gpu) :
      StartAccess cfg gpu tran ⟨gpu, tran.sourceChunks, tran.source cfg⟩

/-- What a move that can happen reads or writes. -/
inductive MoveAccess (cfg : AppConfig) (algos : Nat → Option MscclAlgorithm) (s : Collective) :
    Move → BufferAccess → Prop
  | start {gpu bid sid : Nat} {algo : MscclAlgorithm} {tran : MscclTransfer} {a : BufferAccess}
      (halgo : algos gpu = some algo) (hmem : .runStep bid sid ∈ (s.interp gpu).pending)
      (htran : (algo.mscclTBs bid).transfers[sid]? = some tran) (ha : StartAccess cfg gpu tran a) :
      MoveAccess cfg algos s (.fire gpu (.runStep bid sid)) a
  | emit {c : ConnId} {n : Nat} {message : Message} {rest : List Message}
      (hqueue : (s.sending c).queue = message :: rest) (hcaptured : message.captured = none)
      (hend : message.emitted + n ≤ message.source.size) :
      MoveAccess cfg algos s (.emit c n)
        ⟨c.sender,
          Collective.chunksOf algos MscclTransfer.sourceChunks c.sender message.bid message.sid,
          ⟨message.source.buffer, message.source.addr + message.emitted, n⟩⟩
  | arrive {c : ConnId} {payload : List UInt8} {wire : List (List UInt8)} {cur : PendingTransfer}
      {rest : List PendingTransfer} {pos n : Nat} (hwire : (s.sending c).wire = payload :: wire)
      (hqueue : (s.receiving c).pendingRecvQueue = cur :: rest)
      (hstart : cfg.bufferOffset cur.dstOffset ≤ cfg.bufferBytes c.receiver cur.dstBuf)
      (hend : (cur.op = .recv → cur.receivedBytes + payload.length ≤ cur.pendingBytes) →
        pos + n ≤ cur.pendingBytes) :
      MoveAccess cfg algos s (.arrive c)
        ⟨c.receiver,
          Collective.chunksOf algos MscclTransfer.targetChunks c.receiver cur.bid cur.sid,
          ⟨cur.dstBuf, cfg.bufferOffset cur.dstOffset + pos, n⟩⟩

section

variable {cfg : AppConfig} {algos : Nat → Option MscclAlgorithm} {s : Collective} {gpu : Nat}

theorem startAccess_of_mem {tb : MscclThreadBlock} {tran : MscclTransfer} {a : BufferAccess}
    (ha : a ∈ s.startAccesses cfg gpu tb tran) : StartAccess cfg gpu tran a := by
  simp only [Collective.startAccesses] at ha
  cases htype : tran.type with
  | send =>
      simp only [htype] at ha
      split at ha
      · cases ha
      · obtain ⟨r, hr, rfl⟩ := List.mem_map.mp ha
        obtain ⟨hstart, rfl⟩ := AppConfig.regionAt_eq_some_iff.mp (Option.mem_toList.mp hr)
        exact .send htype (by omega) hstart
  | recv | recvReduceCopy =>
      simp only [htype] at ha
      split at ha
      · cases ha
      · obtain ⟨r, hr, rfl⟩ := List.mem_map.mp ha
        obtain ⟨hoff, hstart, n, hn, rfl⟩ := eq_of_mem_claimTouched hr
        exact .receive (by simp [htype]) hoff hstart hn
  | localCopy =>
      simp only [htype] at ha
      split at ha
      · next dst src hdst hsrc =>
          obtain ⟨htarget, rfl⟩ := AppConfig.regionAt_eq_some_iff.mp hdst
          obtain ⟨hsource, rfl⟩ := AppConfig.regionAt_eq_some_iff.mp hsrc
          rcases List.mem_cons.mp ha with ha | ha
          · rw [ha]
            exact .copyTarget htype hsource htarget
          · rw [List.mem_singleton.mp ha]
            exact .copySource htype hsource htarget
      · cases ha
  | _ =>
      simp only [htype] at ha
      cases ha

/-- Every access that is listed for a move is of one of these kinds. -/
theorem moveAccess_of_mem {move : Move} {a : BufferAccess} (ha : a ∈ s.accesses cfg algos move) :
    MoveAccess cfg algos s move a := by
  cases move with
  | fire gpu e =>
      cases e with
      | runStep bid sid =>
          simp only [Collective.accesses] at ha
          split at ha
          · cases ha
          · next algo halgo =>
              split at ha
              · next hmem =>
                  split at ha
                  · next tran htran => exact .start halgo hmem htran (startAccess_of_mem ha)
                  · cases ha
              · cases ha
      | _ => cases ha
  | emit c n =>
      simp only [Collective.accesses] at ha
      split at ha
      · cases ha
      · next message rest hqueue =>
          split at ha
          · next hemit =>
              obtain ⟨hcaptured, -, hend⟩ := hemit
              rw [List.mem_singleton.mp ha]
              exact .emit hqueue hcaptured hend
          · cases ha
  | sent c => cases ha
  | arrive c =>
      simp only [Collective.accesses] at ha
      split at ha
      · next payload wire cur rest hwire hqueue =>
          obtain ⟨r, hr, rfl⟩ := List.mem_map.mp ha
          obtain ⟨cur', rest', hqueue', hstart, pos, n, rfl, hend⟩ := eq_of_mem_arrivalTouched hr
          obtain ⟨rfl, -⟩ := List.cons_eq_cons.mp (hqueue.symm.trans hqueue')
          exact .arrive hwire hqueue hstart hend
      · cases ha

end

/-! ### Ranges that fit -/

section

variable {cfg : AppConfig} {root : XmlNode} {nRanks gpu : Nat} {algos : Nat → Option MscclAlgorithm}

theorem AppConfig.bytes_le (count : Nat) : cfg.bytes count ≤ count * cfg.chunkBytes := by
  rw [bytes, chunkBytes, ← Nat.mul_assoc]
  exact (Nat.mod_le _ _).trans (Nat.mul_le_mul_right _ (Nat.mod_le _ _))

theorem AppConfig.bufferOffset_cast {off : Int} (hlo : 0 ≤ off) (hhi : off * cfg.chunkBytes < 2 ^ 32) :
    (cfg.bufferOffset off : Int) = off * cfg.chunkBytes := by
  obtain ⟨n, rfl⟩ := Int.eq_ofNat_of_zero_le hlo
  have hsize := cfg.dataType.getSizeBytes_pos
  rw [chunkBytes] at hhi ⊢
  norm_cast at hhi ⊢
  rw [← Nat.mul_assoc] at hhi ⊢
  rcases Nat.eq_zero_or_pos cfg.chunkSize with hzero | hpos
  · simp [bufferOffset, hzero, u32]
  · have hlt : n * cfg.chunkSize < 2 ^ 32 := Nat.lt_of_le_of_lt (Nat.le_mul_of_pos_right _ hsize) hhi
    have hn : n < 2 ^ 32 := Nat.lt_of_le_of_lt (Nat.le_mul_of_pos_right _ hpos) hlt
    have hmod : ((n : Int) % 2 ^ 32).toNat = n := by omega
    rw [bufferOffset, hmod, u32_of_lt hlt, u32_of_lt hhi]

theorem ChunkRange.Fits.inside (hsized : Sized cfg root nRanks algos) {r : ChunkRange}
    (h : r.Fits cfg root gpu) {region : Region} {pos : Nat}
    (hregion : region = ⟨r.buffer, cfg.bufferOffset r.off + pos, region.size⟩)
    (hsize : pos + region.size ≤ cfg.bytes r.count) : BufferAccess.Inside cfg root ⟨gpu, r, region⟩ := by
  obtain ⟨⟨hlo, hhi⟩, hsmall⟩ := h
  have hoffset := AppConfig.bufferOffset_cast hlo hsmall
  have haddr : region.addr = cfg.bufferOffset r.off + pos := congrArg Region.addr hregion
  have hbuffer : region.buffer = r.buffer := congrArg Region.buffer hregion
  have hbytes := cfg.bytes_le r.count
  have hstop : ((region.addr + region.size : Nat) : Int) ≤ (r.off + r.count) * cfg.chunkBytes := by
    rw [haddr, add_mul, ← hoffset]
    norm_cast
    omega
  have hlen : (cfg.bufferBytes gpu r.buffer : Int) =
      (gpuChunks root gpu).size r.buffer * cfg.chunkBytes := by
    have hpos : 0 ≤ (gpuChunks root gpu).size r.buffer := by omega
    rw [AppConfig.bufferBytes, hsized.bufferLen, AppConfig.chunkBytes]
    push_cast
    rw [Int.toNat_of_nonneg hpos, mul_assoc]
  refine ⟨hbuffer, ⟨hlo, hhi⟩, ?_, by exact_mod_cast hstop, ?_⟩
  · rw [← hoffset, haddr]
    exact_mod_cast Nat.le_add_right _ _
  · have hend : ((region.addr + region.size : Nat) : Int) ≤ cfg.bufferBytes gpu r.buffer := by
      rw [hlen]
      exact hstop.trans (mul_le_mul_of_nonneg_right hhi (Int.natCast_nonneg _))
    simp only [hbuffer]
    exact_mod_cast hend

theorem StartAccess.inside (hsized : Sized cfg root nRanks algos) {tran : MscclTransfer}
    {a : BufferAccess} (h : StartAccess cfg gpu tran a) (hfits : tran.FitsBuffers cfg root gpu) :
    a.Inside cfg root := by
  rw [MscclTransfer.FitsBuffers] at hfits
  cases h with
  | send htype hoff hstart =>
      simp only [htype] at hfits
      exact (hfits hoff hstart).inside hsized rfl (Nat.zero_add _).le
  | @receive n htype hoff hstart hn =>
      have hchunks : tran.targetChunks.Fits cfg root gpu := by
        rcases htype with htype | htype
        all_goals
          simp only [htype] at hfits
          exact hfits hoff hstart
      have hend : 0 + n ≤ cfg.bytes tran.count := (Nat.zero_add n).le.trans hn
      exact hchunks.inside hsized rfl hend
  | copyTarget htype hsource htarget =>
      simp only [htype] at hfits
      exact (hfits hsource htarget).2.inside hsized rfl (Nat.zero_add _).le
  | copySource htype hsource htarget =>
      simp only [htype] at hfits
      exact (hfits hsource htarget).1.inside hsized rfl (Nat.zero_add _).le

end

/-! ### What waits to be accessed -/

/-- The messages that are still to be read and the pending receives stand for transfers that fit. -/
structure Contained (cfg : AppConfig) (root : XmlNode) (algos : Nat → Option MscclAlgorithm)
    (s : Collective) : Prop where
  queued : ∀ c, ∀ m ∈ (s.sending c).queue, m.captured = none →
    ∃ tran, Collective.transferOf algos c.sender m.bid m.sid = some tran ∧
      m.source = tran.source cfg ∧ tran.sourceChunks.Fits cfg root c.sender
  pending : ∀ c, ∀ pt ∈ (s.receiving c).pendingRecvQueue,
    ∃ tran, Collective.transferOf algos c.receiver pt.bid pt.sid = some tran ∧
      pt.dstBuf = tran.dstbuffer ∧ pt.dstOffset = tran.dstoffset ∧
      pt.pendingBytes = cfg.bytes tran.count ∧
      (tran.targetChunks.Starts cfg c.receiver → tran.targetChunks.Fits cfg root c.receiver)

section

variable {cfg : AppConfig} {root : XmlNode} {algos : Nat → Option MscclAlgorithm}
  {s s' : Collective} {nRanks gpu : Nat}

theorem Collective.chunksOf_eq {gpu bid sid : Nat} {tran : MscclTransfer}
    (h : transferOf algos gpu bid sid = some tran) (chunks : MscclTransfer → ChunkRange) :
    chunksOf algos chunks gpu bid sid = chunks tran := by
  rw [chunksOf, h]
  rfl

theorem Contained.of_same (h : Contained cfg root algos s) (hsending : s'.sending = s.sending)
    (hreceiving : s'.receiving = s.receiving) : Contained cfg root algos s' where
  queued c m hm := h.queued c m (by rwa [hsending] at hm)
  pending c pt hpt := h.pending c pt (by rwa [hreceiving] at hpt)

theorem onBytesArrivedFromPeer_pending {payload : List UInt8} {m : Memory} {peer : PeerRecv}
    {r : RecvResult} (h : onBytesArrivedFromPeer cfg gpu payload m peer = some r) :
    ∀ pt ∈ r.peer.pendingRecvQueue, ∃ old ∈ peer.pendingRecvQueue, pt.bid = old.bid ∧
      pt.sid = old.sid ∧ pt.dstBuf = old.dstBuf ∧ pt.dstOffset = old.dstOffset ∧
      pt.pendingBytes = old.pendingBytes := by
  rw [onBytesArrivedFromPeer] at h
  cases hqueue : peer.pendingRecvQueue with
  | nil =>
      rw [hqueue] at h
      simp only at h
      split at h
      · cases h
        simp
      · cases h
  | cons cur rest =>
      rw [hqueue] at h
      simp only [Option.bind_eq_bind, Option.bind_eq_some_iff] at h
      obtain ⟨m', -, h⟩ := h
      split at h
      · cases h
        intro pt hpt
        rcases List.mem_cons.mp hpt with rfl | hpt
        · exact ⟨cur, List.mem_cons_self, rfl, rfl, rfl, rfl, rfl⟩
        · exact ⟨pt, List.mem_cons_of_mem _ hpt, rfl, rfl, rfl, rfl, rfl⟩
      · split at h
        · cases h
        · obtain ⟨m'', -, h⟩ := Option.bind_eq_some_iff.mp h
          cases h
          intro pt hpt
          exact ⟨pt, List.mem_cons_of_mem _ hpt, rfl, rfl, rfl, rfl, rfl⟩

theorem claimOrRegisterPendingRecv_pending {bid sid bytes : Nat} {buf : BufferType} {off : Int}
    {op : RecvOp} {m : Memory} {peer : PeerRecv} {r : RecvResult}
    (h : claimOrRegisterPendingRecv cfg gpu bid sid bytes buf off op m peer = some r) :
    0 ≤ off ∧ ∀ pt ∈ r.peer.pendingRecvQueue, pt ∈ peer.pendingRecvQueue ∨
      (pt.bid = bid ∧ pt.sid = sid ∧ pt.dstBuf = buf ∧ pt.dstOffset = off ∧
        pt.pendingBytes = bytes) := by
  simp only [claimOrRegisterPendingRecv] at h
  by_cases hoff : off < 0
  · rw [if_pos hoff] at h
    cases h
  · refine ⟨Int.not_lt.mp hoff, ?_⟩
    rw [if_neg hoff] at h
    split at h
    · obtain ⟨m', -, h⟩ := Option.bind_eq_some_iff.mp h
      cases h
      exact fun pt hpt => Or.inl hpt
    · split at h
      · simp only [Option.bind_eq_bind, Option.bind_eq_some_iff] at h
        obtain ⟨m', -, h⟩ := h
        cases h
        intro pt hpt
        rcases List.mem_append.mp hpt with hpt | hpt
        · exact Or.inl hpt
        · rw [List.mem_singleton.mp hpt]
          exact Or.inr ⟨rfl, rfl, rfl, rfl, rfl⟩
      · cases h
        intro pt hpt
        rcases List.mem_append.mp hpt with hpt | hpt
        · exact Or.inl hpt
        · rw [List.mem_singleton.mp hpt]
          exact Or.inr ⟨rfl, rfl, rfl, rfl, rfl⟩

theorem Contained.receive (h : Contained cfg root algos s) {c : ConnId} {peer : PeerRecv}
    (hsending : ∀ c', ∀ m ∈ (s'.sending c').queue, m ∈ (s.sending c').queue)
    (hreceiving : s'.receiving = Function.update s.receiving c peer)
    (hpeer : ∀ pt ∈ peer.pendingRecvQueue,
      ∃ tran, Collective.transferOf algos c.receiver pt.bid pt.sid = some tran ∧
        pt.dstBuf = tran.dstbuffer ∧ pt.dstOffset = tran.dstoffset ∧
        pt.pendingBytes = cfg.bytes tran.count ∧
        (tran.targetChunks.Starts cfg c.receiver → tran.targetChunks.Fits cfg root c.receiver)) :
    Contained cfg root algos s' where
  queued c' m hm := h.queued c' m (hsending c' m hm)
  pending c' pt hpt := by
    rw [hreceiving] at hpt
    by_cases hc : c' = c
    · rw [hc, Function.update_self] at hpt
      rw [hc]
      exact hpeer pt hpt
    · rw [Function.update_of_ne hc] at hpt
      exact h.pending c' pt hpt

theorem Contained.send (h : Contained cfg root algos s) {c : ConnId} {conn : Connection}
    (hsending : s'.sending = Function.update s.sending c conn)
    (hreceiving : s'.receiving = s.receiving)
    (hconn : ∀ m ∈ conn.queue, m.captured = none →
      ∃ tran, Collective.transferOf algos c.sender m.bid m.sid = some tran ∧
        m.source = tran.source cfg ∧ tran.sourceChunks.Fits cfg root c.sender) :
    Contained cfg root algos s' where
  queued c' m hm := by
    rw [hsending] at hm
    by_cases hc : c' = c
    · rw [hc, Function.update_self] at hm
      rw [hc]
      exact hconn m hm
    · rw [Function.update_of_ne hc] at hm
      exact h.queued c' m hm
  pending c' pt hpt := h.pending c' pt (by rwa [hreceiving] at hpt)

theorem Contained.recv (h : Contained cfg root algos s) {bid sid : Nat} {op : RecvOp}
    {tb : MscclThreadBlock} {tran : MscclTransfer}
    (htran : Collective.transferOf algos gpu bid sid = some tran)
    (hfits : 0 ≤ tran.dstoffset → tran.targetChunks.Starts cfg gpu →
      tran.targetChunks.Fits cfg root gpu)
    (hstep : s.recv cfg algos gpu bid sid op tb tran = some s') : Contained cfg root algos s' := by
  rw [Collective.recv] at hstep
  by_cases hpeer : tb.recvpeer < 0
  · rw [if_pos hpeer] at hstep
    cases hstep
    exact h
  · rw [if_neg hpeer] at hstep
    obtain ⟨r, hclaim, hreceived⟩ := Option.bind_eq_some_iff.mp hstep
    obtain ⟨hoff, hpending⟩ := claimOrRegisterPendingRecv_pending hclaim
    obtain ⟨hsending, hreceiving⟩ := Collective.received_frame hreceived
    apply h.receive (fun c m hm => by rwa [hsending] at hm) hreceiving
    intro pt hpt
    rcases hpending pt hpt with hold | ⟨hbid, hsid, hbuf, hdst, hbytes⟩
    · exact h.pending _ pt hold
    · rw [hbid, hsid]
      exact ⟨tran, htran, hbuf, hdst, hbytes, hfits hoff⟩

theorem Contained.startTransfer (h : Contained cfg root algos s) {bid sid : Nat}
    {tb : MscclThreadBlock} {tran : MscclTransfer}
    (htran : Collective.transferOf algos gpu bid sid = some tran)
    (hfits : tran.FitsBuffers cfg root gpu)
    (hstep : s.startTransfer cfg algos gpu bid sid tb tran = some s') :
    Contained cfg root algos s' := by
  rw [Collective.startTransfer] at hstep
  rw [MscclTransfer.FitsBuffers] at hfits
  cases htype : tran.type with
  | send =>
      simp only [htype] at hstep hfits
      rw [Collective.send] at hstep
      split at hstep
      · cases hstep
      · next hoff =>
          obtain ⟨src, hptr, hstep⟩ := Option.bind_eq_some_iff.mp hstep
          obtain ⟨rfl, hstart⟩ := cfg.getBufferPtr_eq_some_iff.mp hptr
          have hs' := (Option.some_inj.mp hstep).symm
          apply h.send (congrArg Collective.sending hs') (by rw [hs'])
          intro m hm hnone
          rcases List.mem_append.mp hm with hm | hm
          · exact h.queued _ m hm hnone
          · rw [List.mem_singleton.mp hm]
            exact ⟨tran, htran, rfl, hfits (by omega) hstart⟩
  | recv | recvReduceCopy =>
      simp only [htype] at hstep hfits
      exact h.recv htran hfits hstep
  | localCopy =>
      simp only [htype] at hstep
      rw [Collective.localCopy] at hstep
      obtain ⟨dst, -, hstep⟩ := Option.bind_eq_some_iff.mp hstep
      obtain ⟨src, -, hstep⟩ := Option.bind_eq_some_iff.mp hstep
      obtain ⟨-, hsending, hreceiving⟩ := Collective.interpStep_frame hstep
      exact h.of_same hsending hreceiving
  | resAdd =>
      simp only [htype] at hstep
      cases hstep
      exact h
  | _ =>
      simp only [htype] at hstep
      cases hstep

/-- Every allowed move keeps what waits inside the buffers. -/
theorem Contained.step {move : Move} (h : Contained cfg root algos s)
    (hfits : Collective.Fits cfg root algos s move) (hstep : s.step cfg algos move = some s') :
    Contained cfg root algos s' := by
  cases move with
  | fire gpu e =>
      obtain ⟨s₁, hevent, hrest⟩ := Option.bind_eq_some_iff.mp hstep
      obtain ⟨-, hsending, hreceiving⟩ := Collective.interpStep_frame hevent
      have h₁ : Contained cfg root algos s₁ := h.of_same hsending hreceiving
      cases e with
      | runStep bid sid =>
          obtain ⟨algo, halgo, hrest⟩ := Option.bind_eq_some_iff.mp hrest
          obtain ⟨tran, htran, hrest⟩ := Option.bind_eq_some_iff.mp hrest
          have hof : Collective.transferOf algos gpu bid sid = some tran :=
            Option.bind_eq_some_iff.mpr ⟨algo, halgo, htran⟩
          exact h₁.startTransfer hof (hfits algo tran halgo htran) hrest
      | tryScheduleNextStep bid =>
          cases hrest
          exact h₁
      | stepCompletion bid sid =>
          cases hrest
          exact h₁
  | emit c n =>
      obtain ⟨message, rest, payload, hqueue, -, -, hs'⟩ := Collective.emit_some hstep
      apply h.send (congrArg Collective.sending hs') (by rw [hs'])
      intro m hm hnone
      rcases List.mem_cons.mp hm with hm | hm
      · rw [hm] at hnone ⊢
        exact h.queued c message (by rw [hqueue]; exact List.mem_cons_self) hnone
      · exact h.queued c m (by rw [hqueue]; exact List.mem_cons_of_mem _ hm) hnone
  | sent c =>
      obtain ⟨message, rest, algo, i, hqueue, -, -, -, hs'⟩ := Collective.sent_some hstep
      apply h.send (congrArg Collective.sending hs') (by rw [hs'])
      intro m hm hnone
      exact h.queued c m (by rw [hqueue]; exact List.mem_cons_of_mem _ hm) hnone
  | arrive c =>
      obtain ⟨payload, wire, r, hwire, harrived, hreceived⟩ := Collective.arrive_some hstep
      obtain ⟨hsending, hreceiving⟩ := Collective.received_frame hreceived
      apply h.receive (c := c) ?_ hreceiving
      · intro pt hpt
        obtain ⟨old, hold, hbid, hsid, hbuf, hoff, hbytes⟩ :=
          onBytesArrivedFromPeer_pending harrived pt hpt
        rw [hbid, hsid, hbuf, hoff, hbytes]
        exact h.pending c old hold
      · intro c' m hm
        rw [hsending] at hm
        by_cases hc : c' = c
        · rw [hc]
          simpa [hc] using hm
        · simpa [Function.update_of_ne hc] using hm

/-- In a state where what waits is inside the buffers, an allowed move accesses nothing else. -/
theorem Contained.inside (hsized : Sized cfg root nRanks algos) {move : Move}
    (h : Contained cfg root algos s) (hfits : Collective.Fits cfg root algos s move) :
    ∀ a ∈ s.accesses cfg algos move, a.Inside cfg root := by
  intro a ha
  cases moveAccess_of_mem ha with
  | start halgo hmem htran hstart => exact hstart.inside hsized (hfits _ _ halgo htran)
  | @emit c n message rest hqueue hcaptured hend =>
      obtain ⟨tran, htran, hsource, hchunks⟩ :=
        h.queued c message (by rw [hqueue]; exact List.mem_cons_self) hcaptured
      rw [hsource] at hend
      rw [Collective.chunksOf_eq htran, hsource]
      exact hchunks.inside hsized rfl hend
  | @arrive c payload wire cur rest pos n hwire hqueue hstart hend =>
      obtain ⟨tran, htran, hbuf, hoff, hbytes, hchunks⟩ :=
        h.pending c cur (by rw [hqueue]; exact List.mem_cons_self)
      have hroom := hend fun hop => hfits payload wire cur rest hwire hqueue hop
      rw [hoff, hbuf] at hstart
      rw [hbytes] at hroom
      rw [Collective.chunksOf_eq htran]
      exact (hchunks hstart).inside hsized (by rw [hbuf, hoff]; rfl) hroom

end

theorem parse_eq_algorithmOf {nRanks : Nat} {root : XmlNode}
    (h : (parseAlgoXml nRanks (some (some root))).isOk = true) :
    parseAlgoXml nRanks (some (some root)) = .ok (algorithmOf nRanks root) := by
  cases hparse : parseAlgoXml nRanks (some (some root)) with
  | error e =>
      rw [hparse] at h
      cases h
  | ok algos =>
      apply congrArg Except.ok
      funext gpuId
      rw [algorithmOf, hparse]

/-- A copy of two chunks in buffers of one. -/
def longCopy : XmlNode :=
  algoElement [tbElement "0" [.element "step" [("s", "0"), ("type", "cpy"), ("srcbuf", "i"),
    ("srcoff", "0"), ("dstbuf", "o"), ("dstoff", "0"), ("cnt", "2"), ("depid", "-1"), ("deps", "-1"),
    ("hasdep", "0")] []]]

end CollectiveSim.Msccl
