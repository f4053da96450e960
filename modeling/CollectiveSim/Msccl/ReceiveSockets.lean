import CollectiveSim.Msccl.Access
import CollectiveSim.Msccl.Dependency

/-!
# Receive sockets

A channel opens a socket for each thread block that receives from a peer, and every socket on a device
sees every packet of the device. A packet is handed on by those of the right peer and channel.
-/

namespace CollectiveSim.Msccl

open Framework

/-- The fields of `MscclHeader` that the receiver compares, and the size of the packet. -/
structure SocketPacket where
  srcGpu : UInt16
  dstGpu : UInt16
  channel : UInt16
  size : Nat
  deriving DecidableEq

/-- A socket that a channel receives on, with its entry in `m_recvSocketPeers`. -/
structure RecvSocket (D : Type) where
  device : D
  channelId : Int
  peer : Int

/-- What `Bootstrap` asks its node: the peers with an RDMA address, and the devices and addresses that
the links to a peer were given. -/
structure GpuNode (D A : Type) where
  id : Nat
  m_peerIpAddr : Int → Bool
  m_recvDevicePeer : Int → List D
  m_sendDevicePeer : Int → List D
  m_sendPeerAddr : Int → List A

/-- The attribute `RcvBufSize` of `PacketSocket`. -/
def rcvBufSize : Nat := 131072

/-- `m_algo->mscclChannels[i]`, which is undefined behind the array. -/
def MscclAlgorithm.channelInfo (algo : MscclAlgorithm) (i : Nat) : Option MscclChannelInfo :=
  if i < maxChannels then some (algo.mscclChannels i) else none

namespace GpuNode

variable {D A : Type} [DecidableEq D] (node : GpuNode D A)

def hasPeerIpAddr (peer : Int) : Bool := node.m_peerIpAddr peer

def getRecvDevicePeer (peer ind : Int) : Option D := atModSize (node.m_recvDevicePeer peer) ind

def getSendDevicePeer (peer ind : Int) : Option D := atModSize (node.m_sendDevicePeer peer) ind

def getPeerAddr (peer ind : Int) : Option A := atModSize (node.m_sendPeerAddr peer) ind

/-- `SetupRecvPeer`. -/
def setupRecvPeer (channelId peerId : Int) : Option (RecvSocket D) :=
  (node.getRecvDevicePeer peerId channelId).map fun device => ⟨device, channelId, peerId⟩

/-- `ConnectSendPeer`: the device and the address of a socket that nothing is received on. -/
def connectSendPeer (channelId peerId : Int) : Option (D × A) := do
  let device ← node.getSendDevicePeer peerId channelId
  let addr ← node.getPeerAddr peerId channelId
  return (device, addr)

/-- The peers that get a socket. -/
def socketPeers (peers : List Int) : List Int := peers.filter fun peer => !node.hasPeerIpAddr peer

/-- A round of `Bootstrap`. -/
def bootstrapChannel (algo : MscclAlgorithm) (i : Nat) : Option (List (RecvSocket D)) := do
  let chanInfo ← algo.channelInfo i
  let socks ← (node.socketPeers chanInfo.recvPeers).mapM (node.setupRecvPeer (i8 i))
  let _ ← (node.socketPeers chanInfo.sendPeers).mapM (node.connectSendPeer (i8 i))
  return socks

/-- The receive sockets that `Bootstrap` opens. -/
def bootstrap (algo : MscclAlgorithm) : Option (List (RecvSocket D)) := do
  let socks ← (List.range algo.nChannels.toNat).mapM (node.bootstrapChannel algo)
  return socks.flatten

/-- `RecvCallback`: the channel and the peer of its call of `OnBytesArrivedFromPeer`. -/
def recvCallback (packet : SocketPacket) (sock : RecvSocket D) : Option (Int × Int) :=
  let peerId : Int := sock.peer % 2 ^ 16
  if peerId ≠ packet.srcGpu.toNat ∨ node.id ≠ packet.dstGpu.toNat then none
  else if sock.channelId ≠ packet.channel.toNat then none
  else some (sock.channelId, i16 peerId)

/-- `PacketSocket::ForwardUp`; the callback has emptied the socket each time. -/
def forwardUp (packet : SocketPacket) (sock : RecvSocket D) : Option (Int × Int) :=
  if packet.size ≤ rcvBufSize then node.recvCallback packet sock else none

/-- `Node::ReceiveFromDevice`: the calls of `OnBytesArrivedFromPeer`. -/
def receiveFromDevice (socks : List (RecvSocket D)) (device : D) (packet : SocketPacket) :
    List (Int × Int) :=
  (socks.filter fun sock => sock.device = device).filterMap (node.forwardUp packet)

/-- The calls for a packet, which comes in at the device of its source and channel. -/
def deliveries (algo : MscclAlgorithm) (packet : SocketPacket) : Option (List (Int × Int)) := do
  let socks ← node.bootstrap algo
  let device ← node.getRecvDevicePeer packet.srcGpu.toNat packet.channel.toNat
  return node.receiveFromDevice socks device packet

end GpuNode

/-! ## The peers of a channel -/

/-- The peer that a `tb` element names for the channel, as it is stored. -/
def XmlNode.peerOn (prop : String) (channel : Nat) (tb : XmlNode) : Option Int := do
  let channelId ← (getPropInt tb "chan").toOption
  let peer ← (getPropInt tb prop).toOption
  if channelId = channel ∧ 0 ≤ i16 peer then some (i16 peer) else none

/-- The peers that the last element of a GPU names for a channel. -/
def xmlPeers (prop : String) (root : XmlNode) (gpuId channel : Nat) : List Int :=
  match (root.childElements "gpu").reverse.find? (XmlNode.hasId gpuId) with
  | some gpu => (gpu.childElements "tb").filterMap (XmlNode.peerOn prop channel)
  | none => []

def xmlRecvPeers : XmlNode → Nat → Nat → List Int := xmlPeers "recv"

def xmlSendPeers : XmlNode → Nat → Nat → List Int := xmlPeers "send"

def xmlChannels (root : XmlNode) : Int := (getPropInt root "nchannels").toOption.getD 0

/-- The channels have the peers of these elements. -/
structure PeersListed (tbs : List XmlNode) (channels : Nat → MscclChannelInfo) : Prop where
  recvPeers : ∀ c, (channels c).recvPeers = tbs.filterMap (XmlNode.peerOn "recv" c)
  sendPeers : ∀ c, (channels c).sendPeers = tbs.filterMap (XmlNode.peerOn "send" c)

theorem XmlNode.peerOn_eq {prop : String} {channel : Nat} {tb : XmlNode} {channelId peer : Int}
    (hchan : getPropInt tb "chan" = .ok channelId) (hpeer : getPropInt tb prop = .ok peer) :
    tb.peerOn prop channel =
      if channelId = channel ∧ 0 ≤ i16 peer then some (i16 peer) else none := by
  simp [peerOn, hchan, hpeer, Except.toOption]

theorem XmlNode.peerOn_range {prop : String} {channel : Nat} {tb : XmlNode} {peer : Int}
    (h : tb.peerOn prop channel = some peer) : 0 ≤ peer ∧ peer < 2 ^ 15 := by
  simp only [peerOn, Option.bind_eq_bind, Option.bind_eq_some_iff, Option.ite_none_right_eq_some]
    at h
  obtain ⟨channelId, -, stored, -, hpeer, hres⟩ := h
  cases hres
  have hlt : i16 stored < (2 ^ 16 + 1 : Int) / 2 := Int.bmod_lt (by decide)
  exact ⟨hpeer.2, by omega⟩

theorem PeersListed.step {ngpus gpuId : Int} {chunks : BufferChunks} {before : List XmlNode}
    {st st' : GpuState} {tb : XmlNode} (h : PeersListed before st.mscclChannels)
    (hstep : parseTb ngpus gpuId chunks st tb = .ok st') :
    PeersListed (before ++ [tb]) st'.mscclChannels := by
  simp only [parseTb, except_bind_ok, reject_ok] at hstep
  obtain ⟨bid, -, recvpeer, hrecv, sendpeer, hsend, channelId, hchan, -, -, -, -, -, -, -, -, -, -, -,
    -, -, hrange, sTB, -, hst⟩ := hstep
  cases hst
  constructor
  · intro c
    rw [List.filterMap_append, ← h.recvPeers c]
    by_cases hc : c = channelId.toNat
    · have hcast : channelId = (c : Int) := by omega
      subst hc
      by_cases hpos : 0 ≤ i16 recvpeer <;> simp [XmlNode.peerOn_eq hchan hrecv, ← hcast, hpos]
    · have hne : ¬ channelId = (c : Int) := by omega
      simp [XmlNode.peerOn_eq hchan hrecv, hne, hc]
  · intro c
    rw [List.filterMap_append, ← h.sendPeers c]
    by_cases hc : c = channelId.toNat
    · have hcast : channelId = (c : Int) := by omega
      subst hc
      by_cases hpos : 0 ≤ i16 sendpeer <;> simp [XmlNode.peerOn_eq hchan hsend, ← hcast, hpos]
    · have hne : ¬ channelId = (c : Int) := by omega
      simp [XmlNode.peerOn_eq hchan hsend, hne, hc]

theorem peersListed {ngpus gpuId : Int} {chunks : BufferChunks} {done tbs : List XmlNode}
    {st st' : GpuState} (h : PeersListed done st.mscclChannels)
    (hfold : tbs.foldlM (parseTb ngpus gpuId chunks) st = .ok st') :
    PeersListed (done ++ tbs) st'.mscclChannels := by
  induction tbs generalizing done st with
  | nil =>
      cases hfold
      rwa [List.append_nil]
  | cons tb tbs ih =>
      rw [List.foldlM_cons, except_bind_ok] at hfold
      obtain ⟨st₁, hstep, hrest⟩ := hfold
      have hwhole := ih (h.step hstep) hrest
      rwa [List.append_assoc] at hwhole

/-- What the document says about the peers of a GPU. -/
structure ChannelsParsed (root : XmlNode) (gpuId : Nat) (algo : MscclAlgorithm) : Prop where
  nChannels : algo.nChannels = xmlChannels root
  recvPeers : ∀ c, (algo.mscclChannels c).recvPeers = xmlRecvPeers root gpuId c
  sendPeers : ∀ c, (algo.mscclChannels c).sendPeers = xmlSendPeers root gpuId c

theorem channelsParsed {nRanks : Nat} {root : XmlNode} {algos : Nat → Option MscclAlgorithm}
    (h : parseAlgoXml nRanks (some (some root)) = .ok algos) {gpuId : Nat} {algo : MscclAlgorithm}
    (hgpu : algos gpuId = some algo) : ChannelsParsed root gpuId algo := by
  simp only [parseAlgoXml, except_bind_ok, failIf_ok] at h
  obtain ⟨-, -, name, -, ngpus, -, -, -, nChannels, hchannels, nChunks, -, coll, -, collType, -, h⟩ := h
  rcases parseGpu_of_foldlM h hgpu with ⟨gpu, hfind, hparse⟩ | ⟨-, hnone⟩
  · simp only [parseGpu, except_bind_ok, reject_ok] at hparse
    obtain ⟨z, -, iChunks, -, oChunks, -, sChunks, -, -, -, st, hfold, -, -, hres⟩ := hparse
    cases hres
    have hinitial : PeersListed [] fun _ => ⟨[], []⟩ := ⟨fun _ => rfl, fun _ => rfl⟩
    have hlisted := peersListed hinitial hfold
    rw [List.nil_append] at hlisted
    refine ⟨?_, fun c => ?_, fun c => ?_⟩
    · simp [xmlChannels, hchannels, Except.toOption]
    · simpa only [xmlRecvPeers, xmlPeers, hfind] using hlisted.recvPeers c
    · simpa only [xmlSendPeers, xmlPeers, hfind] using hlisted.sendPeers c
  · cases hnone

theorem xmlRecvPeers_range {root : XmlNode} {gpuId channel : Nat} {peer : Int}
    (h : peer ∈ xmlRecvPeers root gpuId channel) : 0 ≤ peer ∧ peer < 2 ^ 15 := by
  rw [xmlRecvPeers, xmlPeers] at h
  split at h
  · obtain ⟨tb, -, hpeer⟩ := List.mem_filterMap.mp h
    exact XmlNode.peerOn_range hpeer
  · cases h

/-! ## The calls for a packet -/

/-- `Bootstrap` gets through: the array has an entry for every channel, and every peer that gets a
socket has been given a device, and an address where it is sent to. -/
structure Boots {D A : Type} (root : XmlNode) (node : GpuNode D A) : Prop where
  channels_le : xmlChannels root ≤ maxChannels
  recv_device : ∀ c < (xmlChannels root).toNat, ∀ peer ∈ xmlRecvPeers root node.id c,
    node.hasPeerIpAddr peer = false → node.m_recvDevicePeer peer ≠ []
  send_device : ∀ c < (xmlChannels root).toNat, ∀ peer ∈ xmlSendPeers root node.id c,
    node.hasPeerIpAddr peer = false → node.m_sendDevicePeer peer ≠ [] ∧ node.m_sendPeerAddr peer ≠ []

/-- The parser and `Bootstrap` stay inside their arrays, and the receiver has one thread block for the
packet's source and channel, a channel that `Bootstrap` gets to, no RDMA connection to the source, and
room for the packet. -/
structure HasReceiver {D A : Type} (nRanks : Nat) (root : XmlNode) (node : GpuNode D A)
    (packet : SocketPacket) : Prop where
  index_safe : IndexSafe nRanks (some (some root))
  boots : Boots root node
  thread_block :
    (xmlRecvPeers root node.id packet.channel.toNat).count (packet.srcGpu.toNat : Int) = 1
  channel_lt : (packet.channel.toNat : Int) < xmlChannels root
  socket_peer : node.hasPeerIpAddr packet.srcGpu.toNat = false
  size_le : packet.size ≤ rcvBufSize

theorem flatMap_range_single {α : Type*} {f : Nat → List α} {c n : Nat}
    (h : ∀ i < n, i ≠ c → f i = []) :
    (List.range n).flatMap f = if c < n then f c else [] := by
  induction n with
  | zero => rfl
  | succ n ih =>
      have hbelow := ih fun i hi => h i (Nat.lt_succ_of_lt hi)
      rw [List.range_succ, List.flatMap_append, hbelow, List.flatMap_singleton]
      by_cases hc : n = c
      · subst hc
        simp
      · rw [h n (Nat.lt_succ_self n) hc, List.append_nil]
        exact if_congr (by omega) rfl rfl

theorem filterMap_eq_replicate {α β : Type*} [DecidableEq α] {f : α → Option β} {xs : List α} {a : α}
    {b : β} (h : ∀ x ∈ xs, f x = if x = a then some b else none) :
    xs.filterMap f = List.replicate (xs.count a) b := by
  induction xs with
  | nil => rfl
  | cons x xs ih =>
      have hxs := ih fun y hy => h y (List.mem_cons_of_mem x hy)
      rw [List.filterMap_cons, h x List.mem_cons_self, hxs, List.count_cons]
      by_cases hx : x = a <;> simp [hx, List.replicate_succ]

theorem mapM_eq_some_iff {α β : Type} {f : α → Option β} {xs : List α} {ys : List β} :
    xs.mapM f = some ys ↔ (∀ x ∈ xs, (f x).isSome = true) ∧ ys = xs.filterMap f := by
  induction xs generalizing ys with
  | nil =>
      rw [List.mapM_nil, Option.pure_def, Option.some_inj]
      exact ⟨fun h => ⟨by simp, h.symm⟩, fun h => h.2.symm⟩
  | cons x xs ih =>
      cases hx : f x with
      | none => simp [List.mapM_cons, hx]
      | some y =>
          simp only [List.mapM_cons, hx, Option.bind_eq_bind, Option.bind_some,
            Option.bind_eq_some_iff, ih, List.forall_mem_cons, Option.isSome_some, true_and,
            List.filterMap_cons, Option.pure_def, Option.some.injEq]
          constructor
          · rintro ⟨zs, ⟨hall, rfl⟩, rfl⟩
            exact ⟨hall, rfl⟩
          · rintro ⟨hall, rfl⟩
            exact ⟨_, ⟨hall, rfl⟩, rfl⟩

namespace GpuNode

variable {D A : Type} {node : GpuNode D A} {packet : SocketPacket} {algo : MscclAlgorithm}

theorem setupRecvPeer_isSome {channelId peer : Int} :
    (node.setupRecvPeer channelId peer).isSome = true ↔ node.m_recvDevicePeer peer ≠ [] := by
  rw [setupRecvPeer, Option.isSome_map, getRecvDevicePeer, atModSize_isSome]

theorem connectSendPeer_isSome {channelId peer : Int} :
    (node.connectSendPeer channelId peer).isSome = true ↔
      node.m_sendDevicePeer peer ≠ [] ∧ node.m_sendPeerAddr peer ≠ [] := by
  rw [← atModSize_isSome channelId, ← atModSize_isSome channelId]
  simp only [connectSendPeer, getSendDevicePeer, getPeerAddr]
  cases atModSize (node.m_sendDevicePeer peer) channelId with
  | none => simp
  | some device => cases atModSize (node.m_sendPeerAddr peer) channelId <;> simp

theorem mem_socketPeers {peers : List Int} {peer : Int} :
    peer ∈ node.socketPeers peers ↔ peer ∈ peers ∧ node.hasPeerIpAddr peer = false := by
  simp [socketPeers]

theorem bootstrapChannel_eq_some {i : Nat} {socks : List (RecvSocket D)} :
    node.bootstrapChannel algo i = some socks ↔ i < maxChannels ∧
      (∀ peer ∈ (algo.mscclChannels i).recvPeers, node.hasPeerIpAddr peer = false →
        node.m_recvDevicePeer peer ≠ []) ∧
      (∀ peer ∈ (algo.mscclChannels i).sendPeers, node.hasPeerIpAddr peer = false →
        node.m_sendDevicePeer peer ≠ [] ∧ node.m_sendPeerAddr peer ≠ []) ∧
      socks = (node.socketPeers (algo.mscclChannels i).recvPeers).filterMap
        (node.setupRecvPeer (i8 i)) := by
  simp only [bootstrapChannel, MscclAlgorithm.channelInfo, Option.bind_eq_bind,
    Option.bind_eq_some_iff, Option.ite_none_right_eq_some, mapM_eq_some_iff, mem_socketPeers,
    setupRecvPeer_isSome, connectSendPeer_isSome, and_imp, Option.pure_def, Option.some.injEq]
  constructor
  · rintro ⟨info, ⟨hi, rfl⟩, recv, ⟨hrecv, rfl⟩, send, ⟨hsend, -⟩, rfl⟩
    exact ⟨hi, hrecv, hsend, rfl⟩
  · rintro ⟨hi, hrecv, hsend, rfl⟩
    exact ⟨_, ⟨hi, rfl⟩, _, ⟨hrecv, rfl⟩, _, ⟨hsend, rfl⟩, rfl⟩

variable {root : XmlNode}

theorem boots_iff (h : ChannelsParsed root node.id algo) :
    Boots root node ↔
      ∀ i < algo.nChannels.toNat, (node.bootstrapChannel algo i).isSome = true := by
  simp only [Option.isSome_iff_exists, bootstrapChannel_eq_some, exists_and_left, exists_eq,
    and_true, h.recvPeers, h.sendPeers]
  rw [h.nChannels]
  constructor
  · intro hb i hi
    have hle := hb.channels_le
    exact ⟨by omega, hb.recv_device i hi, hb.send_device i hi⟩
  · intro hall
    refine ⟨?_, fun c hc => (hall c hc).2.1, fun c hc => (hall c hc).2.2⟩
    by_contra hlt
    exact absurd (hall maxChannels (by omega)).1 (lt_irrefl _)

theorem bootstrap_eq_some (h : ChannelsParsed root node.id algo) {socks : List (RecvSocket D)} :
    node.bootstrap algo = some socks ↔ Boots root node ∧
      socks = (List.range algo.nChannels.toNat).flatMap fun i =>
        (node.socketPeers (algo.mscclChannels i).recvPeers).filterMap
          (node.setupRecvPeer (i8 i)) := by
  simp only [bootstrap, Option.bind_eq_bind, Option.bind_eq_some_iff, mapM_eq_some_iff,
    List.mem_range, Option.pure_def, Option.some.injEq, ← boots_iff h]
  have hflat (hboots : Boots root node) :
      ((List.range algo.nChannels.toNat).filterMap (node.bootstrapChannel algo)).flatten =
        (List.range algo.nChannels.toNat).flatMap fun i =>
          (node.socketPeers (algo.mscclChannels i).recvPeers).filterMap
            (node.setupRecvPeer (i8 i)) := by
    rw [List.flatMap_def, ← List.filterMap_eq_map]
    congr 1
    apply List.filterMap_congr
    intro i hi
    obtain ⟨socks, hsocks⟩ :=
      Option.isSome_iff_exists.mp ((boots_iff h).mp hboots i (List.mem_range.mp hi))
    rw [hsocks, (bootstrapChannel_eq_some.mp hsocks).2.2.2]
    rfl
  constructor
  · rintro ⟨_, ⟨hboots, rfl⟩, rfl⟩
    exact ⟨hboots, hflat hboots⟩
  · rintro ⟨hboots, rfl⟩
    exact ⟨_, ⟨hboots, rfl⟩, hflat hboots⟩

theorem forwardUp_of_channel (device : D) {i : Nat} {peer : Int} (hi : i < maxChannels)
    (hpeer : 0 ≤ peer ∧ peer < 2 ^ 15) (hdst : packet.dstGpu.toNat = node.id)
    (hsize : packet.size ≤ rcvBufSize) :
    node.forwardUp packet ⟨device, i8 i, peer⟩ =
      if i = packet.channel.toNat ∧ peer = packet.srcGpu.toNat then
        some ((packet.channel.toNat : Int), (packet.srcGpu.toNat : Int)) else none := by
  have hchannel : i8 i = i := i8_of_mem (by omega) (by rw [maxChannels] at hi; omega)
  have hmod : peer % 2 ^ 16 = peer := Int.emod_eq_of_lt hpeer.1 (by omega)
  have hsigned : i16 peer = peer := i16_of_mem (by omega) hpeer.2
  simp only [forwardUp, hsize, if_true, recvCallback, hchannel, hmod, hdst, ne_eq,
    not_true_eq_false, or_false, hsigned, Nat.cast_inj]
  by_cases hsrc : peer = packet.srcGpu.toNat
  · by_cases hchan : i = packet.channel.toNat
    · simp [hsrc, hchan]
    · simp [hsrc, hchan]
  · simp [hsrc]

variable [DecidableEq D] {device : D}

/-- The call that a peer of channel `i` leads to, for a packet that comes in at the device. -/
def callOf (node : GpuNode D A) (device : D) (packet : SocketPacket) (i : Nat) (peer : Int) :
    Option (Int × Int) :=
  if node.hasPeerIpAddr peer then none
  else (node.setupRecvPeer (i8 i) peer).bind fun sock =>
    if sock.device = device then node.forwardUp packet sock else none

theorem receiveFromDevice_eq (channels : List Nat) (peers : Nat → List Int) :
    node.receiveFromDevice (channels.flatMap fun i =>
        (node.socketPeers (peers i)).filterMap (node.setupRecvPeer (i8 i))) device packet =
      channels.flatMap fun i => (peers i).filterMap (node.callOf device packet i) := by
  rw [receiveFromDevice, List.filterMap_filter, List.filterMap_flatMap]
  congr 1
  funext i
  rw [List.filterMap_filterMap, socketPeers, List.filterMap_filter]
  apply List.filterMap_congr
  intro peer _
  cases hrdma : node.hasPeerIpAddr peer with
  | true => simp [callOf, hrdma]
  | false => simp [callOf, hrdma]

theorem callOf_eq {i : Nat} {peer : Int} (hi : i < maxChannels) (hpeer : 0 ≤ peer ∧ peer < 2 ^ 15)
    (hdst : packet.dstGpu.toNat = node.id)
    (hdev : node.getRecvDevicePeer packet.srcGpu.toNat packet.channel.toNat = some device) :
    node.callOf device packet i peer =
      if i = packet.channel.toNat ∧ peer = packet.srcGpu.toNat ∧
          node.hasPeerIpAddr packet.srcGpu.toNat = false ∧ packet.size ≤ rcvBufSize then
        some ((packet.channel.toNat : Int), (packet.srcGpu.toNat : Int)) else none := by
  by_cases hmatch : i = packet.channel.toNat ∧ peer = packet.srcGpu.toNat
  · obtain ⟨rfl, rfl⟩ := hmatch
    have hchannel : i8 packet.channel.toNat = packet.channel.toNat :=
      i8_of_mem (by omega) (by rw [maxChannels] at hi; omega)
    rw [callOf, setupRecvPeer, hchannel, hdev]
    by_cases hsize : packet.size ≤ rcvBufSize
    · have hforward := forwardUp_of_channel device hi hpeer hdst hsize
      rw [hchannel] at hforward
      cases hrdma : node.hasPeerIpAddr packet.srcGpu.toNat <;> simp [hforward, hsize]
    · simp [forwardUp, hsize]
  · rw [if_neg fun h => hmatch ⟨h.1, h.2.1⟩, callOf, setupRecvPeer]
    cases node.getRecvDevicePeer peer (i8 i) with
    | none => simp
    | some other =>
        by_cases hsize : packet.size ≤ rcvBufSize
        · simp [forwardUp_of_channel other hi hpeer hdst hsize, hmatch]
        · simp [forwardUp, hsize]

/-- Every thread block of the source and the channel leads to a call. -/
theorem deliveries_eq_replicate (h : ChannelsParsed root node.id algo) (hboots : Boots root node)
    (hdst : packet.dstGpu.toNat = node.id)
    (hdev : node.getRecvDevicePeer packet.srcGpu.toNat packet.channel.toNat = some device) :
    node.deliveries algo packet = some
      (if (packet.channel.toNat : Int) < algo.nChannels ∧
          node.hasPeerIpAddr packet.srcGpu.toNat = false ∧ packet.size ≤ rcvBufSize then
        List.replicate ((xmlRecvPeers root node.id packet.channel.toNat).count
          (packet.srcGpu.toNat : Int)) ((packet.channel.toNat : Int), (packet.srcGpu.toNat : Int))
      else []) := by
  have hle : algo.nChannels ≤ maxChannels := h.nChannels ▸ hboots.channels_le
  have hcall : ∀ i < algo.nChannels.toNat, ∀ peer ∈ (algo.mscclChannels i).recvPeers,
      node.callOf device packet i peer =
        if i = packet.channel.toNat ∧ peer = packet.srcGpu.toNat ∧
            node.hasPeerIpAddr packet.srcGpu.toNat = false ∧ packet.size ≤ rcvBufSize then
          some ((packet.channel.toNat : Int), (packet.srcGpu.toNat : Int)) else none := by
    intro i hi peer hmem
    rw [h.recvPeers] at hmem
    exact callOf_eq (by omega) (xmlRecvPeers_range hmem) hdst hdev
  rw [deliveries, (bootstrap_eq_some h).mpr ⟨hboots, rfl⟩, hdev]
  simp only [Option.bind_eq_bind, Option.bind_some, Option.pure_def, Option.some.injEq]
  rw [receiveFromDevice_eq]
  by_cases hok : node.hasPeerIpAddr packet.srcGpu.toNat = false ∧ packet.size ≤ rcvBufSize
  · have hothers : ∀ i < algo.nChannels.toNat, i ≠ packet.channel.toNat →
        (algo.mscclChannels i).recvPeers.filterMap (node.callOf device packet i) = [] := by
      intro i hlt hi
      rw [List.filterMap_eq_nil_iff]
      intro peer hmem
      rw [hcall i hlt peer hmem, if_neg fun hmatch => hi hmatch.1]
    rw [flatMap_range_single hothers]
    by_cases hopen : (packet.channel.toNat : Int) < algo.nChannels
    · have hlt : packet.channel.toNat < algo.nChannels.toNat := by omega
      rw [if_pos hlt, if_pos ⟨hopen, hok⟩, ← h.recvPeers]
      apply filterMap_eq_replicate
      intro peer hmem
      rw [hcall _ hlt peer hmem]
      exact if_congr (by simp [hok]) rfl rfl
    · rw [if_neg (by omega), if_neg fun hall => hopen hall.1]
  · rw [if_neg fun hall => hok hall.2, List.flatMap_eq_nil_iff]
    intro i hi
    rw [List.filterMap_eq_nil_iff]
    intro peer hmem
    rw [hcall i (List.mem_range.mp hi) peer hmem, if_neg fun hmatch => hok hmatch.2.2]

/-- A packet for the GPU is handed on exactly once when it has a receiver, and only then. -/
theorem deliveries_once_iff {nRanks : Nat} {algos : Nat → Option MscclAlgorithm}
    (h : parseAlgoXml nRanks (some (some root)) = .ok algos) (hgpu : algos node.id = some algo)
    (hdst : packet.dstGpu.toNat = node.id) :
    (IndexSafe nRanks (some (some root)) ∧ node.deliveries algo packet =
        some [((packet.channel.toNat : Int), (packet.srcGpu.toNat : Int))]) ↔
      HasReceiver nRanks root node packet := by
  have hparsed := channelsParsed h hgpu
  constructor
  · rintro ⟨hsafe, honce⟩
    obtain ⟨socks, hsocks, hrest⟩ := Option.bind_eq_some_iff.mp honce
    obtain ⟨device, hdev, -⟩ := Option.bind_eq_some_iff.mp hrest
    have hboots := ((bootstrap_eq_some hparsed).mp hsocks).1
    rw [deliveries_eq_replicate hparsed hboots hdst hdev, Option.some_inj] at honce
    split at honce
    · next hopen =>
        have hlength := congrArg List.length honce
        rw [List.length_replicate] at hlength
        exact ⟨hsafe, hboots, hlength, hparsed.nChannels ▸ hopen.1, hopen.2.1, hopen.2.2⟩
    · cases honce
  · intro hreceiver
    have hmem : (packet.srcGpu.toNat : Int) ∈ xmlRecvPeers root node.id packet.channel.toNat :=
      List.count_pos_iff.mp (by rw [hreceiver.thread_block]; exact Nat.one_pos)
    have hopen := hreceiver.channel_lt
    have hdevice := hreceiver.boots.recv_device packet.channel.toNat (by omega) _ hmem
      hreceiver.socket_peer
    obtain ⟨device, hdev⟩ := Option.isSome_iff_exists.mp
      ((atModSize_isSome packet.channel.toNat).mpr hdevice)
    rw [deliveries_eq_replicate hparsed hreceiver.boots hdst hdev,
      if_pos ⟨hparsed.nChannels ▸ hopen, hreceiver.socket_peer, hreceiver.size_le⟩,
      hreceiver.thread_block, List.replicate_one]
    exact ⟨hreceiver.index_safe, rfl⟩

end GpuNode

/-! ## A document with two receivers -/

/-- A thread block that receives one chunk from GPU 0. -/
def receivingTb (id : String) : XmlNode :=
  .element "tb" [("id", id), ("send", "-1"), ("recv", "0"), ("chan", "0")] [stepElement "r" "0" "-1" "-1"]

/-- GPU 0 sends to GPU 1 on channel 0. -/
def receiving (tbs : List XmlNode) : XmlNode :=
  .element "algo" [("name", "send"), ("ngpus", "2"), ("nchannels", "1"), ("nchunksperloop", "1"),
    ("coll", "custom")]
    [.element "gpu" [("id", "0"), ("i_chunks", "1"), ("o_chunks", "1"), ("s_chunks", "0")]
      [.element "tb" [("id", "0"), ("send", "1"), ("recv", "-1"), ("chan", "0")]
        [stepElement "s" "0" "-1" "-1"]],
     .element "gpu" [("id", "1"), ("i_chunks", "1"), ("o_chunks", "1"), ("s_chunks", "0")] tbs]

/-- GPU 1 with one device for the links from and to GPU 0. -/
def oneDevice : GpuNode Unit Unit where
  id := 1
  m_peerIpAddr _ := false
  m_recvDevicePeer peer := if peer = 0 then [()] else []
  m_sendDevicePeer peer := if peer = 0 then [()] else []
  m_sendPeerAddr peer := if peer = 0 then [()] else []

/-- A fragment from GPU 0 to GPU 1. -/
def fragmentPacket : SocketPacket := ⟨0, 1, 0, 122⟩

theorem receiving_once : ∃ algos algo,
    parseAlgoXml 2 (some (some (receiving [receivingTb "0"]))) = .ok algos ∧ algos 1 = some algo ∧
      oneDevice.deliveries algo fragmentPacket = some [(0, 0)] := by
  have hparse : ∃ algo, algorithmOf 2 (receiving [receivingTb "0"]) 1 = some algo := by
    rw [← Option.isSome_iff_exists]
    decide +kernel
  obtain ⟨algo, halgo⟩ := hparse
  obtain ⟨algos, hok, hgpu⟩ := parse_of_algorithmOf halgo
  have hreceiver : HasReceiver 2 (receiving [receivingTb "0"]) oneDevice fragmentPacket := by
    refine ⟨?_, ⟨?_, ?_, ?_⟩, ?_, ?_, rfl, ?_⟩ <;> decide +kernel
  exact ⟨algos, algo, hok, hgpu, ((GpuNode.deliveries_once_iff hok hgpu rfl).mpr hreceiver).2⟩

/-- Both sockets hand the packet on. -/
theorem not_receiving_once : ∃ algos algo,
    parseAlgoXml 2 (some (some (receiving [receivingTb "0", receivingTb "1"]))) = .ok algos ∧
      algos 1 = some algo ∧
      IndexSafe 2 (some (some (receiving [receivingTb "0", receivingTb "1"]))) ∧
      oneDevice.deliveries algo fragmentPacket = some [(0, 0), (0, 0)] := by
  have heval : ((algorithmOf 2 (receiving [receivingTb "0", receivingTb "1"]) 1).any fun algo =>
      decide (oneDevice.deliveries algo fragmentPacket = some [(0, 0), (0, 0)])) = true := by
    decide +kernel
  obtain ⟨algo, halgo, hcalls⟩ := (Option.any_eq_true _ _).mp heval
  obtain ⟨algos, hok, hgpu⟩ := parse_of_algorithmOf halgo
  exact ⟨algos, algo, hok, hgpu, by decide +kernel, of_decide_eq_true hcalls⟩

end CollectiveSim.Msccl
