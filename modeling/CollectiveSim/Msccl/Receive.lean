import Mathlib
import CollectiveSim.Framework.Run
import CollectiveSim.Msccl.Channel

/-!
# Matching receives with the bytes of a peer

Receives are posted and fragments arrive in any order. Nothing on the wire says where a transfer
ends: the posted receives cut the stream of the peer's bytes into consecutive ranges by their own
sizes.
-/

namespace CollectiveSim.Msccl

open Framework

/-- A call of `Recv` or `RecvRedCp` for the peer. -/
structure PostedRecv where
  bid : Nat
  sid : Nat
  count : Nat
  op : RecvOp
  dstBuf : BufferType
  dstOffset : Int
  deriving DecidableEq

namespace PostedRecv

variable (cfg : AppConfig) (p : PostedRecv)

/-- The bytes of the transfer. -/
def size : Nat := p.count * cfg.chunkSize * cfg.dataType.getSizeBytes

def id : Nat × Nat := (p.bid, p.sid)

/-- The address of its destination. -/
def dst : Nat := cfg.bufferOffset p.dstOffset

/-- What the destination gets from the whole transfer. -/
def receive (data : List UInt8) (m : Memory) : Memory :=
  match p.op with
  | .recv => m.write p.dstBuf (p.dst cfg) data
  | .recvReduceCopy => m.write p.dstBuf (p.dst cfg)
      (reduceAdd cfg data.length (m.read ⟨p.dstBuf, p.dst cfg, data.length⟩) data)

/-- What it has from the first bytes: a copy is made as they arrive, a reduction at the end. -/
def receivePart (data : List UInt8) (m : Memory) : Memory :=
  match p.op with
  | .recv => m.write p.dstBuf (p.dst cfg) data
  | .recvReduceCopy => m

/-- The pending transfer after its first bytes. -/
def pending (data : List UInt8) : PendingTransfer where
  bid := p.bid
  sid := p.sid
  receivedBytes := data.length
  pendingBytes := p.size cfg
  op := p.op
  dstBuf := p.dstBuf
  dstOffset := p.dstOffset
  scratchBuf := keepBack p.op [] data

end PostedRecv

/-- What happens between a channel and one of its peers. -/
inductive RecvEvent
  | arrive (payload : List UInt8)
  | post (p : PostedRecv)

/-- The memory of the GPU, the entries of the peer, and the calls of `StepCompletionCallback` in
the order in which they were scheduled. -/
structure Receiver where
  memory : Memory
  peer : PeerRecv
  scheduled : List (Nat × Nat)

namespace Receiver

variable (cfg : AppConfig) (gpu : Nat)

def initial (memory : Memory) : Receiver := ⟨memory, ⟨[], []⟩, []⟩

def record (s : Receiver) (r : RecvResult) : Receiver where
  memory := r.memory
  peer := r.peer
  scheduled := s.scheduled ++ r.completed.toList

def step (s : Receiver) : RecvEvent → Option Receiver
  | .arrive payload => (onBytesArrivedFromPeer cfg gpu payload s.memory s.peer).map s.record
  | .post p => (claimOrRegisterPendingRecv cfg gpu p.bid p.sid (cfg.bytes p.count) p.dstBuf
      p.dstOffset p.op s.memory s.peer).map s.record

end Receiver

/-! ## What the stream means for the posted receives -/

/-- The receives of a run in the order of their calls. -/
def posts : List RecvEvent → List PostedRecv
  | [] => []
  | .arrive _ :: es => posts es
  | .post p :: es => p :: posts es

/-- The bytes of a run in the order of their arrival. -/
def stream : List RecvEvent → List UInt8
  | [] => []
  | .arrive payload :: es => payload ++ stream es
  | .post _ :: es => stream es

section

variable (cfg : AppConfig)

def totalSize (ps : List PostedRecv) : Nat := (ps.map (PostedRecv.size cfg)).sum

/-- Every receive takes its own bytes off the front of the stream, and the first that is short of
bytes has a part of them. -/
def deliver : List PostedRecv → List UInt8 → Memory → Memory
  | [], _, m => m
  | p :: ps, bytes, m =>
      if p.size cfg ≤ bytes.length then
        deliver ps (bytes.drop (p.size cfg)) (p.receive cfg (bytes.take (p.size cfg)) m)
      else p.receivePart cfg bytes m

/-- The receives that have all their bytes when `n` bytes have arrived. -/
def finished : List PostedRecv → Nat → List PostedRecv
  | [], _ => []
  | p :: ps, n => if p.size cfg ≤ n then p :: finished ps (n - p.size cfg) else []

/-- No fragment has bytes of two transfers: the end of a transfer is never inside a fragment. -/
def NoCrossing (es : List RecvEvent) : Prop :=
  ∀ bs payload cs, es = bs ++ .arrive payload :: cs → ∀ k,
    ¬ ((stream bs).length < totalSize cfg ((posts es).take k) ∧
      totalSize cfg ((posts es).take k) < (stream bs).length + payload.length)

/-- The receives match the stream: every one of them has its own range of bytes, copied or added
once; the callbacks scheduled are those of the receives that have all their bytes; and no bytes are
unclaimed while a receive is pending. -/
structure Received (memory : Memory) (es : List RecvEvent) (s : Receiver) : Prop where
  memory : s.memory = deliver cfg (posts es) (stream es) memory
  scheduled : s.scheduled = (finished cfg (posts es) (stream es).length).map PostedRecv.id
  matched : s.peer.pendingRecvQueue = [] ∨ s.peer.unclaimedBytes = []

/-- The sizes fit in 32 bits, the destinations lie in their buffers, and less than `2 ^ 32` bytes
wait for a receive at any time. -/
structure Fits (gpu : Nat) (es : List RecvEvent) : Prop where
  size : ∀ p ∈ posts es, p.size cfg < 2 ^ 32
  inside : ∀ p ∈ posts es, 0 ≤ p.dstOffset ∧
    p.dst cfg + p.size cfg ≤ cfg.bufferBytes gpu p.dstBuf
  unclaimed : ∀ bs cs, es = bs ++ cs →
    (stream bs).length < totalSize cfg (posts bs) + 2 ^ 32

end

/-! ## Lists of receives -/

section

variable {cfg : AppConfig} {ps : List PostedRecv} {bytes : List UInt8}

@[simp] theorem posts_append (es fs : List RecvEvent) : posts (es ++ fs) = posts es ++ posts fs := by
  induction es with
  | nil => rfl
  | cons e es ih =>
      cases e with
      | arrive payload => simpa [posts] using ih
      | post p => simpa [posts] using ih

@[simp] theorem stream_append (es fs : List RecvEvent) :
    stream (es ++ fs) = stream es ++ stream fs := by
  induction es with
  | nil => rfl
  | cons e es ih =>
      cases e with
      | arrive payload => simpa [stream] using ih
      | post p => simpa [stream] using ih

@[simp] theorem totalSize_nil (cfg : AppConfig) : totalSize cfg [] = 0 := rfl

@[simp] theorem totalSize_cons (cfg : AppConfig) (p : PostedRecv) (ps : List PostedRecv) :
    totalSize cfg (p :: ps) = p.size cfg + totalSize cfg ps :=
  List.sum_cons

@[simp] theorem totalSize_append (cfg : AppConfig) (ps qs : List PostedRecv) :
    totalSize cfg (ps ++ qs) = totalSize cfg ps + totalSize cfg qs := by
  simp [totalSize]

theorem deliver_append (qs : List PostedRecv) (h : bytes.length = totalSize cfg ps)
    (rest : List UInt8) (m : Memory) :
    deliver cfg (ps ++ qs) (bytes ++ rest) m = deliver cfg qs rest (deliver cfg ps bytes m) := by
  induction ps generalizing bytes m with
  | nil =>
      rw [totalSize_nil, List.length_eq_zero_iff] at h
      subst h
      rfl
  | cons p ps ih =>
      rw [totalSize_cons] at h
      have hlen : (bytes.drop (p.size cfg)).length = totalSize cfg ps := by
        rw [List.length_drop]
        omega
      rw [List.cons_append, deliver, deliver, if_pos (by rw [List.length_append]; omega),
        if_pos (by omega), List.drop_append_of_le_length (by omega),
        List.take_append_of_le_length (by omega), ih hlen]

theorem finished_append (cfg : AppConfig) (ps qs : List PostedRecv) (n : Nat) :
    finished cfg (ps ++ qs) (totalSize cfg ps + n) = ps ++ finished cfg qs n := by
  induction ps with
  | nil => simp
  | cons p ps ih =>
      have hsub : p.size cfg + totalSize cfg ps + n - p.size cfg = totalSize cfg ps + n := by omega
      rw [List.cons_append, totalSize_cons, finished, if_pos (by omega), hsub, ih,
        List.cons_append]

end

/-! ## The destination of one receive -/

theorem Memory.write_append (m : Memory) (buf : BufferType) (addr : Nat) (data more : List UInt8) :
    (m.write buf addr data).write buf (addr + data.length) more =
      m.write buf addr (data ++ more) := by
  rw [write, write, write, Function.update_self, Function.update_idem]
  congr 1
  funext x
  by_cases hlo : addr ≤ x
  · obtain ⟨i, rfl⟩ := Nat.exists_eq_add_of_le hlo
    by_cases hi : i < data.length
    · rw [writeRange_of_not_mem (by omega),
        writeRange_of_getElem? (List.getElem?_eq_getElem hi),
        writeRange_of_getElem? (by rw [List.getElem?_append_left hi, List.getElem?_eq_getElem hi])]
    · by_cases hmore : i < data.length + more.length
      · have hlast : i - data.length < more.length := by omega
        have hget : more[i - data.length]? = some more[i - data.length] :=
          List.getElem?_eq_getElem hlast
        have happend : (data ++ more)[i]? = some more[i - data.length] := by
          rw [List.getElem?_append_right (by omega), hget]
        have haddr : addr + i = addr + data.length + (i - data.length) := by omega
        rw [writeRange_of_getElem? happend, haddr, writeRange_of_getElem? hget]
      · rw [writeRange_of_not_mem (by omega), writeRange_of_not_mem (by omega),
          writeRange_of_not_mem (by rw [List.length_append]; omega)]
  · rw [writeRange_of_not_mem (by omega), writeRange_of_not_mem (by omega),
      writeRange_of_not_mem (by omega)]

namespace PostedRecv

variable {cfg : AppConfig} {gpu : Nat} {p : PostedRecv}

theorem receivePart_nil (cfg : AppConfig) (p : PostedRecv) (m : Memory) :
    p.receivePart cfg [] m = m := by
  rw [receivePart]
  cases p.op with
  | recv => simp [Memory.write]
  | recvReduceCopy => rfl

theorem stageBytes_eq (hptr : cfg.getBufferPtr gpu p.dstBuf p.dstOffset = some (p.dst cfg))
    (data payload : List UInt8) (m : Memory) :
    stageBytes cfg gpu p.op p.dstBuf p.dstOffset data.length payload (p.receivePart cfg data m) =
      some (p.receivePart cfg (data ++ payload) m) := by
  rw [receivePart, receivePart]
  cases p.op with
  | recv => simp [stageBytes, hptr, Memory.write_append]
  | recvReduceCopy => rfl

theorem stageBytes_first (hptr : cfg.getBufferPtr gpu p.dstBuf p.dstOffset = some (p.dst cfg))
    (payload : List UInt8) (m : Memory) :
    stageBytes cfg gpu p.op p.dstBuf p.dstOffset 0 payload m =
      some (p.receivePart cfg payload m) := by
  have h := p.stageBytes_eq hptr [] payload m
  rwa [receivePart_nil] at h

theorem reduceStaged_eq (hptr : cfg.getBufferPtr gpu p.dstBuf p.dstOffset = some (p.dst cfg))
    {scratchBuf data : List UInt8} (hscratch : p.op = .recvReduceCopy → scratchBuf = data)
    (m : Memory) :
    reduceStaged cfg gpu p.op p.dstBuf p.dstOffset scratchBuf (p.receivePart cfg data m) =
      some (p.receive cfg data m) := by
  rw [receivePart, receive]
  cases hop : p.op with
  | recv => rfl
  | recvReduceCopy => simp [reduceStaged, hptr, hscratch hop]

theorem receive_nil (cfg : AppConfig) (p : PostedRecv) (m : Memory) : p.receive cfg [] m = m := by
  rw [receive]
  cases p.op <;> simp [Memory.write, Memory.read, reduceAdd, reduceElems]

theorem placeStaged_eq (hptr : cfg.getBufferPtr gpu p.dstBuf p.dstOffset = some (p.dst cfg))
    (unclaimed : List UInt8) (n : Nat) (m : Memory) :
    placeStaged cfg gpu p.op p.dstBuf p.dstOffset unclaimed (unclaimed.take n) m =
      some (p.receive cfg (unclaimed.take n) m) := by
  rw [placeStaged]
  split
  · next hnil => rw [hnil, List.take_nil, receive_nil]
  · rw [p.stageBytes_first hptr, Option.bind_some, p.reduceStaged_eq hptr (fun _ => rfl)]

theorem keepBack_append (op : RecvOp) (data payload : List UInt8) :
    keepBack op (keepBack op [] data) payload = keepBack op [] (data ++ payload) := by
  cases op <;> rfl

theorem keepBack_nil (op : RecvOp) : keepBack op [] [] = [] := by
  cases op <;> rfl

theorem keepBack_reduce {op : RecvOp} (h : op = .recvReduceCopy) (data : List UInt8) :
    keepBack op [] data = data := by
  rw [h]
  rfl

/-- The receive is inside the 32 bits of its size and inside its buffer. -/
structure Valid (cfg : AppConfig) (gpu : Nat) (p : PostedRecv) : Prop where
  count : 1 ≤ p.count
  size : p.size cfg < 2 ^ 32
  offset : 0 ≤ p.dstOffset
  inside : p.dst cfg + p.size cfg ≤ cfg.bufferBytes gpu p.dstBuf

theorem Valid.size_pos (h : p.Valid cfg gpu) (hchunk : 0 < cfg.chunkSize) : 0 < p.size cfg :=
  Nat.mul_pos (Nat.mul_pos h.count hchunk) cfg.dataType.getSizeBytes_pos

/-- The receive has the bytes that its call computes and passes the checks on its destination. -/
structure Placed (cfg : AppConfig) (gpu : Nat) (p : PostedRecv) : Prop where
  bytes : cfg.bytes p.count = p.size cfg
  offset : 0 ≤ p.dstOffset
  ptr : cfg.getBufferPtr gpu p.dstBuf p.dstOffset = some (p.dst cfg)

theorem bytes_eq (h : p.size cfg < 2 ^ 32) : cfg.bytes p.count = p.size cfg := by
  have hsize := cfg.dataType.getSizeBytes_pos
  have hlt : p.count * cfg.chunkSize < 2 ^ 32 :=
    Nat.lt_of_le_of_lt (Nat.le_mul_of_pos_right _ hsize) h
  rw [AppConfig.bytes, u32_of_lt hlt]
  exact u32_of_lt h

theorem Valid.placed (h : p.Valid cfg gpu) : p.Placed cfg gpu := by
  have hinside := h.inside
  refine ⟨bytes_eq h.size, h.offset, ?_⟩
  rw [AppConfig.getBufferPtr, if_neg]
  · rfl
  · rw [dst] at hinside
    omega

theorem chunkSize_pos (h : 0 < p.size cfg) : 0 < cfg.chunkSize := by
  by_contra hzero
  rw [size, Nat.eq_zero_of_not_pos hzero, Nat.mul_zero, Nat.zero_mul] at h
  exact Nat.lt_irrefl 0 h

theorem sizes_pos {ps : List PostedRecv} (h : ∀ p ∈ ps, p.Valid cfg gpu) :
    ∀ p ∈ ps, ∀ q ∈ ps, 0 < p.size cfg → 0 < q.size cfg := by
  intro p _ q hq hp
  exact (h q hq).size_pos (chunkSize_pos hp)

end PostedRecv

/-! ## The two ways in which receives and bytes match -/

/-- Either every receive has its bytes and some bytes wait for a receive, or the first pending
receive has a part of its bytes and nothing is unclaimed. -/
inductive Matches (cfg : AppConfig) (memory : Memory) :
    List PostedRecv → List UInt8 → Receiver → Prop
  | early {done : List PostedRecv} {bytes : List UInt8} (unclaimed : List UInt8)
      (hlen : bytes.length = totalSize cfg done) :
      Matches cfg memory done (bytes ++ unclaimed)
        ⟨deliver cfg done bytes memory, ⟨[], unclaimed⟩, done.map PostedRecv.id⟩
  | waiting {done : List PostedRecv} {bytes : List UInt8} (p : PostedRecv) (rest : List PostedRecv)
      (data : List UInt8) (hlen : bytes.length = totalSize cfg done)
      (hdata : data.length < p.size cfg) :
      Matches cfg memory (done ++ p :: rest) (bytes ++ data)
        ⟨p.receivePart cfg data (deliver cfg done bytes memory),
          ⟨p.pending cfg data :: rest.map (PostedRecv.pending cfg · []), []⟩,
          done.map PostedRecv.id⟩

section

variable {cfg : AppConfig} {gpu : Nat} {memory : Memory} {ps : List PostedRecv}
  {bytes : List UInt8} {s : Receiver}

theorem Matches.of_finished (memory : Memory) {done : List PostedRecv} (rest : List PostedRecv)
    (hlen : bytes.length = totalSize cfg done) (hpos : ∀ p ∈ rest, 0 < p.size cfg) :
    Matches cfg memory (done ++ rest) bytes
      ⟨deliver cfg done bytes memory, ⟨rest.map (PostedRecv.pending cfg · []), []⟩,
        done.map PostedRecv.id⟩ := by
  cases rest with
  | nil =>
      have h := @Matches.early cfg memory _ _ [] hlen
      rwa [List.append_nil] at h ⊢
  | cons p rest =>
      have h := @Matches.waiting cfg memory _ _ p rest [] hlen (hpos p List.mem_cons_self)
      rwa [PostedRecv.receivePart_nil, List.append_nil] at h

theorem deliver_snoc {done : List PostedRecv} (p : PostedRecv) {data : List UInt8}
    (hlen : bytes.length = totalSize cfg done) (hdata : data.length = p.size cfg) :
    deliver cfg (done ++ [p]) (bytes ++ data) memory =
      p.receive cfg data (deliver cfg done bytes memory) := by
  rw [deliver_append _ hlen, deliver, if_pos (Nat.le_of_eq hdata.symm), ← hdata, List.take_length,
    List.drop_length]
  rfl

theorem Matches.arrive (h : Matches cfg memory ps bytes s) {payload : List UInt8}
    (hplaced : ∀ p ∈ ps, p.Placed cfg gpu)
    (hsizes : ∀ p ∈ ps, ∀ q ∈ ps, 0 < p.size cfg → 0 < q.size cfg)
    (hcross : ∀ k, ¬ (bytes.length < totalSize cfg (ps.take k) ∧
      totalSize cfg (ps.take k) < bytes.length + payload.length))
    (hroom : bytes.length + payload.length < totalSize cfg ps + 2 ^ 32) :
    ∃ t, s.step cfg gpu (.arrive payload) = some t ∧ Matches cfg memory ps (bytes ++ payload) t := by
  cases h with
  | @early _ bytes unclaimed hlen =>
      rw [List.length_append] at hroom
      refine ⟨⟨deliver cfg ps bytes memory, ⟨[], unclaimed ++ payload⟩, ps.map PostedRecv.id⟩, ?_, ?_⟩
      · have hsmall : unclaimed.length + payload.length < 2 ^ 32 := by omega
        simpa [Receiver.step, onBytesArrivedFromPeer, Receiver.record] using hsmall
      · rw [List.append_assoc]
        exact .early _ hlen
  | @waiting done bytes p rest data hlen hdata =>
      have hmem : p ∈ done ++ p :: rest := List.mem_append_right _ List.mem_cons_self
      have hp := hplaced p hmem
      have hend : (data ++ payload).length ≤ p.size cfg := by
        have hp' := hcross (done.length + 1)
        rw [List.take_length_add_append, List.take_succ_cons, List.take_zero, totalSize_append,
          totalSize_cons, totalSize_nil, List.length_append] at hp'
        rw [List.length_append]
        omega
      have hstage := p.stageBytes_eq hp.ptr data payload (deliver cfg done bytes memory)
      rw [List.length_append] at hend
      by_cases hmore : data.length + payload.length < p.size cfg
      · refine ⟨⟨p.receivePart cfg (data ++ payload) (deliver cfg done bytes memory),
          ⟨p.pending cfg (data ++ payload) :: rest.map (PostedRecv.pending cfg · []), []⟩,
          done.map PostedRecv.id⟩, ?_, ?_⟩
        · simp [Receiver.step, onBytesArrivedFromPeer, PostedRecv.pending, hstage, if_pos hmore,
            Receiver.record, PostedRecv.keepBack_append]
        · rw [List.append_assoc]
          exact .waiting p rest _ hlen (by rwa [List.length_append])
      · have hfull : (data ++ payload).length = p.size cfg := by
          rw [List.length_append]
          omega
        have hreduce := p.reduceStaged_eq hp.ptr
          (fun hop => PostedRecv.keepBack_reduce hop (data ++ payload))
          (deliver cfg done bytes memory)
        have hpos : ∀ q ∈ rest, 0 < q.size cfg := fun q hq =>
          hsizes p hmem q (List.mem_append_right _ (List.mem_cons_of_mem _ hq))
            (Nat.zero_lt_of_lt hdata)
        have hall : (bytes ++ (data ++ payload)).length = totalSize cfg (done ++ [p]) := by
          rw [List.length_append, hlen, hfull, totalSize_append, totalSize_cons, totalSize_nil,
            Nat.add_zero]
        have hnext := Matches.of_finished memory rest hall hpos
        rw [deliver_snoc p hlen hfull, List.append_assoc, List.singleton_append, List.map_append,
          List.map_singleton] at hnext
        refine ⟨_, ?_, by rwa [List.append_assoc]⟩
        rw [List.length_append] at hfull
        simp [Receiver.step, onBytesArrivedFromPeer, PostedRecv.pending, hstage, hfull,
          Receiver.record, PostedRecv.keepBack_append, hreduce, PostedRecv.id]

theorem Matches.post (h : Matches cfg memory ps bytes s) {p : PostedRecv} (hp : p.Placed cfg gpu)
    (hsizes : ∀ q ∈ ps, 0 < q.size cfg → 0 < p.size cfg) :
    ∃ t, s.step cfg gpu (.post p) = some t ∧ Matches cfg memory (ps ++ [p]) bytes t := by
  have hoffset : ¬ p.dstOffset < 0 := Int.not_lt.mpr hp.offset
  cases h with
  | @early _ bytes unclaimed hlen =>
      by_cases hall : p.size cfg ≤ unclaimed.length
      · -- all its bytes are there
        have htake : (unclaimed.take (p.size cfg)).length = p.size cfg := List.length_take_of_le hall
        have hplace := p.placeStaged_eq hp.ptr unclaimed (p.size cfg) (deliver cfg ps bytes memory)
        have hnext := @Matches.early cfg memory _ _ (unclaimed.drop (p.size cfg))
          (show (bytes ++ unclaimed.take (p.size cfg)).length = totalSize cfg (ps ++ [p]) by
            simp [htake, hlen])
        rw [deliver_snoc p hlen htake, List.append_assoc, List.take_append_drop, List.map_append,
          List.map_singleton] at hnext
        refine ⟨_, ?_, hnext⟩
        simp [Receiver.step, claimOrRegisterPendingRecv, hoffset, hp.bytes, hall, hplace,
          Receiver.record, PostedRecv.id]
      · have hlt := Nat.not_le.mp hall
        have hwaiting := @Matches.waiting cfg memory _ _ p [] unclaimed hlen hlt
        refine ⟨_, ?_, hwaiting⟩
        have hstage := p.stageBytes_first hp.ptr unclaimed (deliver cfg ps bytes memory)
        by_cases hsome : 0 < unclaimed.length
        · -- a part is there, and the receive takes it along
          simp [Receiver.step, claimOrRegisterPendingRecv, hoffset, hp.bytes, hall, hsome, hstage,
            Receiver.record, PostedRecv.pending]
        · have hnil : unclaimed = [] := List.length_eq_zero_iff.mp (by omega)
          subst hnil
          rw [PostedRecv.receivePart_nil]
          simp [Receiver.step, claimOrRegisterPendingRecv, hoffset, hp.bytes,
            Nat.ne_of_gt (Nat.zero_lt_of_lt hlt), Receiver.record, PostedRecv.pending,
            PostedRecv.keepBack_nil]
  | @waiting done bytes q rest data hlen hdata =>
      have hpos := hsizes q (List.mem_append_right _ List.mem_cons_self) (Nat.zero_lt_of_lt hdata)
      have hwaiting := @Matches.waiting cfg memory _ _ q (rest ++ [p]) data hlen hdata
      rw [← List.cons_append, ← List.append_assoc] at hwaiting
      refine ⟨_, ?_, hwaiting⟩
      simp [Receiver.step, claimOrRegisterPendingRecv, hoffset, hp.bytes, Nat.ne_of_gt hpos,
        Receiver.record, PostedRecv.pending, PostedRecv.keepBack_nil]

theorem Matches.deliver (h : Matches cfg memory ps bytes s) :
    s.memory = deliver cfg ps bytes memory ∧
      s.scheduled = (finished cfg ps bytes.length).map PostedRecv.id ∧
      (s.peer.pendingRecvQueue = [] ∨ s.peer.unclaimedBytes = []) := by
  cases h with
  | @early _ bytes unclaimed hlen =>
      have hd := deliver_append [] hlen unclaimed memory
      have hf := finished_append cfg ps [] unclaimed.length
      rw [List.append_nil] at hd hf
      refine ⟨hd.symm, ?_, .inl rfl⟩
      rw [List.length_append, hlen, hf, finished, List.append_nil]
  | @waiting done bytes p rest data hlen hdata =>
      have hshort : ¬ p.size cfg ≤ data.length := Nat.not_le.mpr hdata
      refine ⟨?_, ?_, .inr rfl⟩
      · rw [deliver_append _ hlen, Msccl.deliver, if_neg hshort]
      · rw [List.length_append, hlen, finished_append, finished, if_neg hshort, List.append_nil]

end

/-! ## Every interleaving -/

section

variable {cfg : AppConfig} {gpu : Nat} {memory : Memory} {es fs : List RecvEvent}

theorem NoCrossing.of_append (h : NoCrossing cfg (es ++ fs)) : NoCrossing cfg es := by
  intro bs payload cs heq k
  have hk := h bs payload (cs ++ fs) (by rw [heq]; simp) (min k (posts es).length)
  rwa [posts_append, List.take_append_of_le_length (Nat.min_le_right _ _),
    ← List.take_eq_take_min] at hk

theorem Fits.of_append (h : Fits cfg gpu (es ++ fs)) : Fits cfg gpu es where
  size p hp := h.size p (by simp [hp])
  inside p hp := h.inside p (by simp [hp])
  unclaimed bs cs heq := h.unclaimed bs (cs ++ fs) (by rw [heq, List.append_assoc])

theorem Fits.valid (h : Fits cfg gpu es) (hcount : ∀ p ∈ posts es, 1 ≤ p.count) :
    ∀ p ∈ posts es, p.Valid cfg gpu := fun p hp =>
  ⟨hcount p hp, h.size p hp, (h.inside p hp).1, (h.inside p hp).2⟩

/-- Every sequence of events is a run, at the end of which receives and bytes match. -/
theorem exists_matches (memory : Memory) (hcount : ∀ p ∈ posts es, 1 ≤ p.count)
    (hcross : NoCrossing cfg es) (hfits : Fits cfg gpu es) :
    ∃ s, Run (Receiver.step cfg gpu) anyEvent (Receiver.initial memory) es s ∧
      Matches cfg memory (posts es) (stream es) s := by
  induction es using List.reverseRecOn with
  | nil => exact ⟨_, .nil _, @Matches.early cfg memory [] [] [] rfl⟩
  | append_singleton es e ih =>
      have hcount' : ∀ p ∈ posts es, 1 ≤ p.count := fun p hp => hcount p (by simp [hp])
      obtain ⟨s, hrun, hmatches⟩ := ih hcount' hcross.of_append hfits.of_append
      have hvalid := hfits.valid hcount
      cases e with
      | arrive payload =>
          have hcross' : ∀ k, ¬ ((stream es).length < totalSize cfg ((posts es).take k) ∧
              totalSize cfg ((posts es).take k) < (stream es).length + payload.length) := by
            intro k
            have hk := hcross es payload [] rfl k
            rwa [posts_append, posts, posts, List.append_nil] at hk
          have hroom := hfits.unclaimed _ [] (List.append_nil _).symm
          simp only [posts_append, stream_append, posts, stream, List.append_nil,
            List.length_append] at hroom hvalid ⊢
          have hplaced := fun p hp => (hvalid p hp).placed
          have hsizes := PostedRecv.sizes_pos hvalid
          obtain ⟨t, hstep, hnext⟩ := hmatches.arrive hplaced hsizes hcross' hroom
          exact ⟨t, hrun.append (.cons trivial hstep (.nil t)), hnext⟩
      | post p =>
          have hsizes := PostedRecv.sizes_pos hvalid
          obtain ⟨t, hstep, hnext⟩ := hmatches.post (hvalid p (by simp [posts])).placed
            fun q hq => hsizes q (by simp [hq]) p (by simp [posts])
          refine ⟨t, hrun.append (.cons trivial hstep (.nil t)), ?_⟩
          simpa [posts, stream] using hnext

/-- At every moment of every interleaving that fits, the receives match the stream. -/
theorem received_of_fits (cfg : AppConfig) (gpu : Nat) (memory : Memory) (es : List RecvEvent)
    (hcount : ∀ p ∈ posts es, 1 ≤ p.count) (hcross : NoCrossing cfg es)
    (hfits : Fits cfg gpu es) :
    ∀ bs cs, es = bs ++ cs →
      ∃ s, Run (Receiver.step cfg gpu) anyEvent (Receiver.initial memory) bs s ∧
        Received cfg memory bs s := by
  rintro bs cs rfl
  have hcount' : ∀ p ∈ posts bs, 1 ≤ p.count := fun p hp => hcount p (by simp [hp])
  obtain ⟨s, hrun, hmatches⟩ := exists_matches memory hcount' hcross.of_append hfits.of_append
  obtain ⟨hmemory, hscheduled, hmatched⟩ := hmatches.deliver
  exact ⟨s, hrun, hmemory, hscheduled, hmatched⟩

end

/-- 16-bit elements and buffers of 1024 bytes. -/
def smallBuffers : AppConfig where
  dataType := .int16
  floatSums := .machine
  chunkSize := 1
  isRdmaPeer := fun _ _ => false
  bufferLen := fun _ _ => 512

/-- A receive of `count` elements at the start of the output buffer. -/
def receiveOf (op : RecvOp) (count : Nat) : PostedRecv := ⟨0, 0, count, op, .output, 0⟩

theorem totalSize_take_singleton (cfg : AppConfig) (p : PostedRecv) (k : Nat) :
    totalSize cfg ([p].take k) = 0 ∨ totalSize cfg ([p].take k) = p.size cfg := by
  cases k with
  | zero => exact .inl rfl
  | succ k => exact .inr (by simp)

/-- Half of a reduction arrives before it is posted. -/
def halfEarly : List RecvEvent :=
  [.arrive [1, 0], .post (receiveOf .recvReduceCopy 2), .arrive [2, 0]]

theorem halfEarly_received : ∃ s,
    Run (Receiver.step smallBuffers 0) anyEvent (Receiver.initial fun _ _ => 0) halfEarly s ∧
      Received smallBuffers (fun _ _ => 0) halfEarly s := by
  refine received_of_fits smallBuffers 0 (fun _ _ => 0) halfEarly ?_ ?_ ?_ halfEarly []
    (List.append_nil _).symm
  · decide
  · intro bs payload cs h k
    have hsize : (receiveOf .recvReduceCopy 2).size smallBuffers = 4 := by decide
    have hk := totalSize_take_singleton smallBuffers (receiveOf .recvReduceCopy 2) k
    simp only [halfEarly, posts]
    rw [hsize] at hk
    rcases bs with _ | ⟨a, _ | ⟨b, _ | ⟨c, bs⟩⟩⟩ <;> simp [halfEarly] at h
    · obtain ⟨rfl, -⟩ := h
      simp only [stream, List.length_nil, List.length_cons]
      omega
    · obtain ⟨rfl, rfl, rfl, -⟩ := h
      simp only [stream, List.length_append, List.length_nil, List.length_cons]
      omega
  · constructor
    · decide
    · decide
    · intro bs cs h
      have hle := congrArg (fun es => (stream es).length) h
      simp [halfEarly, stream] at hle
      omega

theorem Receiver.step_arrive_early {cfg : AppConfig} {gpu : Nat} {s t : Receiver}
    {payload : List UInt8} (hnil : s.peer.pendingRecvQueue = [])
    (h : s.step cfg gpu (.arrive payload) = some t) :
    t.peer.pendingRecvQueue = [] ∧
      t.peer.unclaimedBytes.length = s.peer.unclaimedBytes.length + payload.length ∧
      s.peer.unclaimedBytes.length + payload.length < 2 ^ 32 := by
  obtain ⟨r, hr, rfl⟩ := Option.map_eq_some_iff.mp h
  rw [onBytesArrivedFromPeer, hnil] at hr
  by_cases hroom : s.peer.unclaimedBytes.length + payload.length < 2 ^ 32
  · rw [if_pos hroom] at hr
    cases hr
    exact ⟨rfl, List.length_append, hroom⟩
  · rw [if_neg hroom] at hr
    cases hr

theorem run_arrivals {cfg : AppConfig} {gpu : Nat} {payloads : List (List UInt8)} {s t : Receiver}
    (hnil : s.peer.pendingRecvQueue = []) (hsmall : s.peer.unclaimedBytes.length < 2 ^ 32)
    (h : Run (Receiver.step cfg gpu) anyEvent s (payloads.map .arrive) t) :
    s.peer.unclaimedBytes.length + payloads.flatten.length < 2 ^ 32 := by
  induction payloads generalizing s with
  | nil => exact hsmall
  | cons payload payloads ih =>
      cases h with
      | cons _ hstep hrest =>
          obtain ⟨hnil', hlen, hroom⟩ := Receiver.step_arrive_early hnil hstep
          have hrun := ih hnil' (by omega) hrest
          rw [List.flatten_cons, List.length_append]
          omega

theorem run_equal_arrivals {cfg : AppConfig} {gpu n : Nat} {payload : List UInt8} {s t : Receiver}
    (hnil : s.peer.pendingRecvQueue = []) (hsmall : s.peer.unclaimedBytes.length < 2 ^ 32)
    (h : Run (Receiver.step cfg gpu) anyEvent s (List.replicate n (.arrive payload)) t) :
    s.peer.unclaimedBytes.length + n * payload.length < 2 ^ 32 := by
  rw [← List.map_replicate] at h
  have hlt := run_arrivals hnil hsmall h
  rwa [List.length_flatten, List.map_replicate, List.sum_replicate] at hlt

theorem stream_replicate_length {es : List RecvEvent} {payload : List UInt8} {p : PostedRecv}
    (h : ∀ e ∈ es, e = .arrive payload ∨ e = .post p) :
    ∃ j, (stream es).length = j * payload.length := by
  induction es with
  | nil => exact ⟨0, (Nat.zero_mul _).symm⟩
  | cons e es ih =>
      obtain ⟨j, hj⟩ := ih fun e' he' => h e' (List.mem_cons_of_mem _ he')
      rcases h e List.mem_cons_self with rfl | rfl
      · exact ⟨j + 1, by rw [stream, List.length_append, hj, Nat.succ_mul, Nat.add_comm]⟩
      · exact ⟨j, hj⟩

/-- A receive that is posted after `n` equal fragments. -/
def lateReceive (n : Nat) (payload : List UInt8) (p : PostedRecv) : List RecvEvent :=
  List.replicate n (.arrive payload) ++ [.post p]

theorem posts_lateReceive (n : Nat) (payload : List UInt8) (p : PostedRecv) :
    posts (lateReceive n payload p) = [p] := by
  induction n with
  | zero => rfl
  | succ n ih => exact ih

theorem noCrossing_lateReceive {cfg : AppConfig} {payload : List UInt8} {p : PostedRecv}
    (n : Nat) (hsize : p.size cfg = payload.length) :
    NoCrossing cfg (lateReceive n payload p) := by
  have hmem : ∀ e ∈ lateReceive n payload p, e = .arrive payload ∨ e = .post p := by
    intro e he
    rcases List.mem_append.mp he with he | he
    · exact .inl (List.eq_of_mem_replicate he)
    · exact .inr (List.mem_singleton.mp he)
  intro bs payload' cs heq k
  have hbs : ∀ e ∈ bs, e = .arrive payload ∨ e = .post p := fun e he =>
    hmem e (heq ▸ List.mem_append_left _ he)
  obtain ⟨j, hj⟩ := stream_replicate_length hbs
  have hpayload : payload' = payload := by
    have h := hmem (.arrive payload') (heq ▸ List.mem_append_right _ List.mem_cons_self)
    simpa using h
  have hk := totalSize_take_singleton cfg p k
  rw [posts_lateReceive, hj, hpayload]
  rw [hsize] at hk
  rcases hk with hk | hk
  · rw [hk]
    omega
  · rw [hk]
    rcases Nat.eq_zero_or_pos j with rfl | hpos
    · omega
    · have hle := Nat.le_mul_of_pos_left payload.length hpos
      omega

/-- `2 ^ 22` fragments of 1024 bytes before the first receive are too many for the 32-bit count of
the unclaimed bytes. -/
theorem not_received :
    ¬ ∀ (cfg : AppConfig) (gpu : Nat) (memory : Memory) (es : List RecvEvent),
      (∀ p ∈ posts es, 1 ≤ p.count) → NoCrossing cfg es → ∀ bs cs, es = bs ++ cs →
        ∃ s, Run (Receiver.step cfg gpu) anyEvent (Receiver.initial memory) bs s ∧
          Received cfg memory bs s := by
  intro hall
  have hlen : (List.replicate 1024 (0 : UInt8)).length = 1024 := List.length_replicate
  have hsize : (receiveOf .recv 512).size smallBuffers = 1024 := by decide
  have hcount : ∀ p ∈ posts (lateReceive (2 ^ 22) (List.replicate 1024 0) (receiveOf .recv 512)),
      1 ≤ p.count := by
    intro p hp
    rw [posts_lateReceive, List.mem_singleton] at hp
    rw [hp]
    decide
  obtain ⟨s, hrun, -⟩ := hall smallBuffers 0 (fun _ _ => 0) _ hcount
    (noCrossing_lateReceive _ (hsize.trans hlen.symm)) _ _ rfl
  have hover := run_equal_arrivals rfl (by decide) hrun
  rw [hlen] at hover
  exact absurd hover (by decide)

end CollectiveSim.Msccl
