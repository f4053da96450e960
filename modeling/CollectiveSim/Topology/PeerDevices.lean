import CollectiveSim.Framework.MachineInt
import CollectiveSim.Topology.Naming

/-!
# Devices for peers

What the written program does with every link between two GPUs: each of them gets the link's device
on its side, for sending and for receiving, and the address of the other one, in lists that it keeps
by the number of the peer.
-/

namespace CollectiveSim.Topology

open Framework

/-- The container `devs{helper_id}_{link_id}`, of a link from `src` to `dst`. -/
structure Container where
  helper_id : Nat
  link_id : Nat
  src : NodeKind × Nat
  dst : NodeKind × Nat
deriving DecidableEq

/-- `Get(0)` or `Get(1)` of a container. -/
structure NetDevice where
  container : Container
  second : Bool
deriving DecidableEq

namespace NetDevice

def node (dev : NetDevice) : NodeKind × Nat :=
  if dev.second then dev.container.dst else dev.container.src

/-- The device at the other end of the link. -/
def far (dev : NetDevice) : NetDevice := { dev with second := !dev.second }

@[simp] theorem far_far (dev : NetDevice) : dev.far.far = dev := by
  simp [far]

end NetDevice

/-- A statement of the written program. -/
inductive Call
  | install (devs : Container)
  | pushSendPeerDevice (gpu peer : Nat) (dev : NetDevice)
  | pushRecvPeerDevice (gpu peer : Nat) (dev : NetDevice)
  | pushPeerAddr (gpu peer : Nat) (dev : NetDevice)
deriving DecidableEq

/-! ## The writer -/

namespace Generator

def emitLinkInstall (gen : Generator) (src dst : String) (helper_id link_id : Nat) :
    Option (List Call) := do
  let src_node ← gen.resolveNode src
  let dst_node ← gen.resolveNode dst
  let devs : Container := ⟨helper_id, link_id, src_node, dst_node⟩
  if src_node.1 = .gpu ∧ dst_node.1 = .gpu then
    return [.install devs,
      .pushSendPeerDevice src_node.2 dst_node.2 ⟨devs, false⟩,
      .pushRecvPeerDevice dst_node.2 src_node.2 ⟨devs, true⟩,
      .pushSendPeerDevice dst_node.2 src_node.2 ⟨devs, true⟩,
      .pushRecvPeerDevice src_node.2 dst_node.2 ⟨devs, false⟩,
      .pushPeerAddr src_node.2 dst_node.2 ⟨devs, true⟩,
      .pushPeerAddr dst_node.2 src_node.2 ⟨devs, false⟩]
  else return [.install devs]

/-- What the writer makes of an instruction, as far as links are concerned. -/
def handleInsn (gen : Generator) : NS3Insn → Option (List Call)
  | .installLink src dst helper_id link_id => gen.emitLinkInstall src dst helper_id link_id
  | _ => some []

/-- The statements of the written program; `none` when a link has an end that is no node. -/
def write (gen : Generator) : Option (List Call) :=
  (gen.insns.mapM gen.handleInsn).map List.flatten

end Generator

/-! ## The GPUs of the written program -/

/-- The devices and addresses that a GPU keeps for its peers. -/
structure GPU (α : Type*) where
  m_sendDevicePeer : Int16 → List NetDevice
  m_recvDevicePeer : Int16 → List NetDevice
  m_sendPeerAddr : Int16 → List α

namespace GPU

variable {α : Type*}

def new : GPU α := ⟨fun _ => [], fun _ => [], fun _ => []⟩

def getSendDevicePeer (gpu : GPU α) (peer : Int16) (ind : Int) : Option NetDevice :=
  atModSize (gpu.m_sendDevicePeer peer) ind

def getRecvDevicePeer (gpu : GPU α) (peer : Int16) (ind : Int) : Option NetDevice :=
  atModSize (gpu.m_recvDevicePeer peer) ind

def getPeerAddr (gpu : GPU α) (peer : Int16) (ind : Int) : Option α :=
  atModSize (gpu.m_sendPeerAddr peer) ind

def pushRecvPeerDevice (peer : Int16) (dev : NetDevice) (gpu : GPU α) : GPU α :=
  { gpu with m_recvDevicePeer :=
      Function.update gpu.m_recvDevicePeer peer (gpu.m_recvDevicePeer peer ++ [dev]) }

def pushSendPeerDevice (peer : Int16) (dev : NetDevice) (gpu : GPU α) : GPU α :=
  { gpu with m_sendDevicePeer :=
      Function.update gpu.m_sendDevicePeer peer (gpu.m_sendDevicePeer peer ++ [dev]) }

def pushPeerAddr (peer : Int16) (addr : α) (gpu : GPU α) : GPU α :=
  { gpu with m_sendPeerAddr :=
      Function.update gpu.m_sendPeerAddr peer (gpu.m_sendPeerAddr peer ++ [addr]) }

end GPU

section

variable {α : Type*} (address : NetDevice → α)

/-- The numbers of peers are converted to `int16_t`. -/
def Call.exec (gpus : Nat → GPU α) : Call → Nat → GPU α
  | .install _ => gpus
  | .pushSendPeerDevice gpu peer dev =>
      Function.update gpus gpu ((gpus gpu).pushSendPeerDevice (.ofNat peer) dev)
  | .pushRecvPeerDevice gpu peer dev =>
      Function.update gpus gpu ((gpus gpu).pushRecvPeerDevice (.ofNat peer) dev)
  | .pushPeerAddr gpu peer dev =>
      Function.update gpus gpu ((gpus gpu).pushPeerAddr (.ofNat peer) (address dev))

def execAll (calls : List Call) : Nat → GPU α := calls.foldl (Call.exec address) fun _ => .new

end

/-! ## What a GPU has for a peer -/

namespace Call

variable (gpu : Nat) (peer : Int16)

/-- The device that a statement adds for sending to a peer. -/
def sent : Call → List NetDevice
  | .pushSendPeerDevice gpu' peer' dev => if gpu' = gpu ∧ .ofNat peer' = peer then [dev] else []
  | _ => []

def received : Call → List NetDevice
  | .pushRecvPeerDevice gpu' peer' dev => if gpu' = gpu ∧ .ofNat peer' = peer then [dev] else []
  | _ => []

/-- The device whose address a statement adds. -/
def addressed : Call → List NetDevice
  | .pushPeerAddr gpu' peer' dev => if gpu' = gpu ∧ .ofNat peer' = peer then [dev] else []
  | _ => []

def container : Call → Option Container
  | .install devs => some devs
  | _ => none

end Call

theorem update_append_apply {ι β : Type*} [DecidableEq ι] (f : ι → List β) (i j : ι) (x : β) :
    Function.update f i (f i ++ [x]) j = f j ++ if i = j then [x] else [] := by
  by_cases h : i = j
  · subst h
    simp
  · simp [Function.update_of_ne (Ne.symm h), h]

section

variable {α : Type*} (address : NetDevice → α)

theorem exec_eq (gpus : Nat → GPU α) (call : Call) (gpu : Nat) (peer : Int16) :
    (call.exec address gpus gpu).m_sendDevicePeer peer =
        (gpus gpu).m_sendDevicePeer peer ++ call.sent gpu peer ∧
      (call.exec address gpus gpu).m_recvDevicePeer peer =
        (gpus gpu).m_recvDevicePeer peer ++ call.received gpu peer ∧
      (call.exec address gpus gpu).m_sendPeerAddr peer =
        (gpus gpu).m_sendPeerAddr peer ++ (call.addressed gpu peer).map address := by
  cases call with
  | install devs => simp [Call.exec, Call.sent, Call.received, Call.addressed]
  | pushSendPeerDevice gpu' peer' dev =>
      by_cases h : gpu' = gpu
      · subst h
        simp [Call.exec, Call.sent, Call.received, Call.addressed, GPU.pushSendPeerDevice,
          update_append_apply]
      · have hsame := Function.update_of_ne (f := gpus) (Ne.symm h)
        simp [Call.exec, Call.sent, Call.received, Call.addressed, hsame, h]
  | pushRecvPeerDevice gpu' peer' dev =>
      by_cases h : gpu' = gpu
      · subst h
        simp [Call.exec, Call.sent, Call.received, Call.addressed, GPU.pushRecvPeerDevice,
          update_append_apply]
      · have hsame := Function.update_of_ne (f := gpus) (Ne.symm h)
        simp [Call.exec, Call.sent, Call.received, Call.addressed, hsame, h]
  | pushPeerAddr gpu' peer' dev =>
      by_cases h : gpu' = gpu
      · subst h
        simp [Call.exec, Call.sent, Call.received, Call.addressed, GPU.pushPeerAddr,
          update_append_apply, apply_ite (List.map address)]
      · have hsame := Function.update_of_ne (f := gpus) (Ne.symm h)
        simp [Call.exec, Call.sent, Call.received, Call.addressed, hsame, h]

theorem execAll_eq (calls : List Call) (gpu : Nat) (peer : Int16) :
    (execAll address calls gpu).m_sendDevicePeer peer = calls.flatMap (Call.sent gpu peer) ∧
      (execAll address calls gpu).m_recvDevicePeer peer = calls.flatMap (Call.received gpu peer) ∧
      (execAll address calls gpu).m_sendPeerAddr peer =
        (calls.flatMap (Call.addressed gpu peer)).map address := by
  induction calls using List.reverseRecOn with
  | nil => exact ⟨rfl, rfl, rfl⟩
  | append_singleton calls call ih =>
      rw [execAll, List.foldl_append, ← execAll]
      obtain ⟨hsent, hreceived, haddressed⟩ := exec_eq address (execAll address calls) call gpu peer
      obtain ⟨ihsent, ihreceived, ihaddressed⟩ := ih
      simp only [List.foldl_cons, List.foldl_nil, hsent, hreceived, haddressed, ihsent, ihreceived,
        ihaddressed, List.flatMap_append, List.flatMap_singleton, List.map_append, and_self]

end

/-- Both devices of every container. -/
def bothEnds (containers : List Container) : List NetDevice :=
  containers.flatMap fun devs => [⟨devs, false⟩, ⟨devs, true⟩]

/-- The device is on this GPU and its link leads to a GPU whose number has this key. -/
def NetDevice.Faces (gpu : Nat) (peer : Int16) (dev : NetDevice) : Prop :=
  dev.node = (.gpu, gpu) ∧ dev.far.node.1 = .gpu ∧ .ofNat dev.far.node.2 = peer

instance (gpu : Nat) (peer : Int16) (dev : NetDevice) : Decidable (dev.Faces gpu peer) :=
  inferInstanceAs (Decidable (_ ∧ _ ∧ _))

theorem NetDevice.filter_pair (gpu : Nat) (peer : Int16) (dev dev' : NetDevice) :
    [dev, dev'].filter (NetDevice.Faces gpu peer) =
      (if dev.Faces gpu peer then [dev] else []) ++ if dev'.Faces gpu peer then [dev'] else [] := by
  by_cases h : dev.Faces gpu peer <;> by_cases h' : dev'.Faces gpu peer <;> simp [h, h']

theorem NetDevice.Faces.gpus {gpu : Nat} {peer : Int16} {dev : NetDevice} (h : dev.Faces gpu peer) :
    dev.container.src.1 = .gpu ∧ dev.container.dst.1 = .gpu := by
  obtain ⟨hnode, hfar, -⟩ := h
  obtain ⟨devs, second⟩ := dev
  cases second with
  | false => exact ⟨congrArg Prod.fst hnode, hfar⟩
  | true => exact ⟨hfar, congrArg Prod.fst hnode⟩

/-- Statements that add, for every peer, the devices that face it, those that these lead to, and
the addresses of the latter, in one order. -/
structure InStep (calls : List Call) : Prop where
  sent : ∀ gpu peer, calls.flatMap (Call.sent gpu peer) =
    (bothEnds (calls.filterMap Call.container)).filter (NetDevice.Faces gpu peer)
  received : ∀ gpu peer, calls.flatMap (Call.received gpu peer) =
    ((bothEnds (calls.filterMap Call.container)).map NetDevice.far).filter
      (NetDevice.Faces gpu peer)
  addressed : ∀ gpu peer, calls.flatMap (Call.addressed gpu peer) =
    ((bothEnds (calls.filterMap Call.container)).filter (NetDevice.Faces gpu peer)).map
      NetDevice.far

theorem InStep.nil : InStep [] := ⟨fun _ _ => rfl, fun _ _ => rfl, fun _ _ => rfl⟩

theorem InStep.append {calls calls' : List Call} (h : InStep calls) (h' : InStep calls') :
    InStep (calls ++ calls') where
  sent gpu peer := by
    simp [bothEnds, h.sent, h'.sent]
  received gpu peer := by
    simp [bothEnds, h.received, h'.received]
  addressed gpu peer := by
    simp [bothEnds, h.addressed, h'.addressed]

section

variable {gen : Generator} {src dst : String} {helper_id link_id : Nat} {calls : List Call}

theorem inStep_emitLinkInstall (h : gen.emitLinkInstall src dst helper_id link_id = some calls) :
    InStep calls := by
  rw [Generator.emitLinkInstall] at h
  obtain ⟨src_node, -, h⟩ := Option.bind_eq_some_iff.mp h
  obtain ⟨dst_node, -, h⟩ := Option.bind_eq_some_iff.mp h
  dsimp only at h
  split at h
  · next hgpus =>
      obtain ⟨src_kind, a⟩ := src_node
      obtain ⟨dst_kind, b⟩ := dst_node
      obtain ⟨rfl, rfl⟩ := hgpus
      cases h
      have hfirst (gpu : Nat) (peer : Int16) :
          NetDevice.Faces gpu peer ⟨⟨helper_id, link_id, (.gpu, a), (.gpu, b)⟩, false⟩ ↔
            a = gpu ∧ .ofNat b = peer := by
        simp [NetDevice.Faces, NetDevice.node, NetDevice.far]
      have hsecond (gpu : Nat) (peer : Int16) :
          NetDevice.Faces gpu peer ⟨⟨helper_id, link_id, (.gpu, a), (.gpu, b)⟩, true⟩ ↔
            b = gpu ∧ .ofNat a = peer := by
        simp [NetDevice.Faces, NetDevice.node, NetDevice.far]
      constructor
      · intro gpu peer
        change _ = [_, _].filter _
        simp only [NetDevice.filter_pair, hfirst, hsecond]
        simp [Call.sent]
      · intro gpu peer
        change _ = [_, _].filter _
        simp only [NetDevice.filter_pair, NetDevice.far, Bool.not_false, Bool.not_true, hfirst,
          hsecond]
        simp [Call.received]
      · intro gpu peer
        change _ = ([_, _].filter _).map _
        simp only [NetDevice.filter_pair, hfirst, hsecond]
        simp [Call.addressed, NetDevice.far, apply_ite (List.map _)]
  · next hgpus =>
      cases h
      have hnone (gpu : Nat) (peer : Int16) (second : Bool) :
          ¬ NetDevice.Faces gpu peer ⟨⟨helper_id, link_id, src_node, dst_node⟩, second⟩ :=
        fun hfaces => hgpus hfaces.gpus
      constructor
      · intro gpu peer
        simp [Call.sent, Call.container, bothEnds, hnone]
      · intro gpu peer
        simp [Call.received, Call.container, bothEnds, NetDevice.far, hnone]
      · intro gpu peer
        simp [Call.addressed, Call.container, bothEnds, hnone]

/-- The container of a link whose ends are nodes. -/
def Generator.container (gen : Generator) : NS3Insn → Option Container
  | .installLink src dst helper_id link_id => do
      let src_node ← gen.resolveNode src
      let dst_node ← gen.resolveNode dst
      return ⟨helper_id, link_id, src_node, dst_node⟩
  | _ => none

theorem handleInsn_some {insn : NS3Insn} (h : gen.handleInsn insn = some calls) :
    InStep calls ∧ calls.filterMap Call.container = (gen.container insn).toList ∧
      (gen.container insn).map Container.link_id = insn.linkId := by
  have hother (hnil : some [] = some calls) (hcontainer : gen.container insn = none)
      (hid : insn.linkId = none) : InStep calls ∧
        calls.filterMap Call.container = (gen.container insn).toList ∧
          (gen.container insn).map Container.link_id = insn.linkId := by
    cases hnil
    rw [hcontainer, hid]
    exact ⟨.nil, rfl, rfl⟩
  cases insn with
  | installLink src dst helper_id link_id =>
      apply And.intro (inStep_emitLinkInstall h)
      obtain ⟨src_node, hsrc, h⟩ := Option.bind_eq_some_iff.mp h
      obtain ⟨dst_node, hdst, h⟩ := Option.bind_eq_some_iff.mp h
      have hcontainer : gen.container (.installLink src dst helper_id link_id) =
          some ⟨helper_id, link_id, src_node, dst_node⟩ := by
        rw [Generator.container, hsrc, hdst]
        rfl
      rw [hcontainer]
      dsimp only at h
      split at h <;> cases h <;> exact ⟨rfl, rfl⟩
  | makeGPUs n => exact hother h rfl rfl
  | makeRegSwitches n => exact hother h rfl rfl
  | makeNVSwitches n => exact hother h rfl rfl
  | makeLinkHelper id attrs => exact hother h rfl rfl
  | buildRdmaFabric rdma_attrs => exact hother h rfl rfl

/-- The containers that are installed. -/
def Generator.containers (gen : Generator) : List Container := gen.insns.filterMap gen.container

theorem write_some (h : gen.write = some calls) :
    InStep calls ∧ calls.filterMap Call.container = gen.containers ∧
      gen.containers.map Container.link_id = gen.linkIds := by
  obtain ⟨chunks, hchunks, rfl⟩ := Option.map_eq_some_iff.mp h
  clear h
  rw [Generator.containers, Generator.linkIds]
  generalize gen.insns = insns at hchunks ⊢
  induction insns generalizing chunks with
  | nil =>
      cases hchunks
      exact ⟨.nil, rfl, rfl⟩
  | cons insn insns ih =>
      rw [List.mapM_cons] at hchunks
      obtain ⟨first, hfirst, hchunks⟩ := Option.bind_eq_some_iff.mp hchunks
      obtain ⟨rest, hrest, hchunks⟩ := Option.bind_eq_some_iff.mp hchunks
      cases hchunks
      obtain ⟨hstep, hcontainer, hid⟩ := handleInsn_some hfirst
      obtain ⟨hsteps, hcontainers, hids⟩ := ih rest hrest
      refine ⟨hstep.append hsteps, ?_, ?_⟩
      · rw [List.flatten_cons, List.filterMap_append, hcontainer, hcontainers, List.filterMap_cons]
        cases gen.container insn <;> rfl
      · rw [List.filterMap_cons, List.filterMap_cons, ← hid, ← hids]
        cases gen.container insn <;> rfl

theorem container_eq_some_iff {insn : NS3Insn} {devs : Container} :
    gen.container insn = some devs ↔
      ∃ src dst, insn = .installLink src dst devs.helper_id devs.link_id ∧
        gen.resolveNode src = some devs.src ∧ gen.resolveNode dst = some devs.dst := by
  constructor
  · intro h
    cases insn with
    | installLink src dst helper_id link_id =>
        obtain ⟨src_node, hsrc, h⟩ := Option.bind_eq_some_iff.mp h
        obtain ⟨dst_node, hdst, h⟩ := Option.bind_eq_some_iff.mp h
        cases h
        exact ⟨src, dst, rfl, hsrc, hdst⟩
    | _ => cases h
  · rintro ⟨src, dst, rfl, hsrc, hdst⟩
    rw [Generator.container, hsrc, hdst]
    rfl

theorem mem_bothEnds {containers : List Container} {dev : NetDevice} :
    dev ∈ bothEnds containers ↔ dev.container ∈ containers := by
  obtain ⟨devs, second⟩ := dev
  cases second <;> simp [bothEnds]

/-! ## Pairs of devices -/

/-- A link between these two GPUs, in either direction. -/
def Generator.Linked (gen : Generator) (gpu peer : Nat) : Prop :=
  ∃ ends ∈ gen.installed,
    (gen.resolveNode ends.1 = some (.gpu, gpu) ∧ gen.resolveNode ends.2 = some (.gpu, peer)) ∨
    (gen.resolveNode ends.1 = some (.gpu, peer) ∧ gen.resolveNode ends.2 = some (.gpu, gpu))

theorem linked_iff {gpu peer : Nat} : gen.Linked gpu peer ↔
    ∃ dev : NetDevice, dev.container ∈ gen.containers ∧ dev.node = (.gpu, gpu) ∧
      dev.far.node = (.gpu, peer) := by
  constructor
  · rintro ⟨ends, hends, hnodes⟩
    obtain ⟨insn, hinsn, hsome⟩ := List.mem_filterMap.mp hends
    cases insn with
    | installLink src dst helper_id link_id =>
        cases hsome
        rcases hnodes with ⟨hsrc, hdst⟩ | ⟨hsrc, hdst⟩
        · refine ⟨⟨⟨helper_id, link_id, (.gpu, gpu), (.gpu, peer)⟩, false⟩, ?_, rfl, rfl⟩
          exact List.mem_filterMap.mpr
            ⟨_, hinsn, container_eq_some_iff.mpr ⟨src, dst, rfl, hsrc, hdst⟩⟩
        · refine ⟨⟨⟨helper_id, link_id, (.gpu, peer), (.gpu, gpu)⟩, true⟩, ?_, rfl, rfl⟩
          exact List.mem_filterMap.mpr
            ⟨_, hinsn, container_eq_some_iff.mpr ⟨src, dst, rfl, hsrc, hdst⟩⟩
    | _ => cases hsome
  · rintro ⟨⟨devs, second⟩, hmem, hnode, hfar⟩
    obtain ⟨insn, hinsn, hcontainer⟩ := List.mem_filterMap.mp hmem
    obtain ⟨src, dst, rfl, hsrc, hdst⟩ := container_eq_some_iff.mp hcontainer
    refine ⟨(src, dst), List.mem_filterMap.mpr ⟨_, hinsn, rfl⟩, ?_⟩
    cases second with
    | false => exact .inl ⟨hsrc.trans (congrArg some hnode), hdst.trans (congrArg some hfar)⟩
    | true => exact .inr ⟨hsrc.trans (congrArg some hfar), hdst.trans (congrArg some hnode)⟩

theorem Generator.Linked.symm {gpu peer : Nat} (h : gen.Linked gpu peer) : gen.Linked peer gpu := by
  obtain ⟨ends, hends, hnodes⟩ := h
  exact ⟨ends, hends, hnodes.symm⟩

/-- The device at a sender and the one at its peer are the two ends of a link between them, and the
address is that of the far end. -/
def PairedAt {α : Type*} (gen : Generator) (address : NetDevice → α) (gpus : Nat → GPU α)
    (gpu peer : Nat) (ind : Int) : Prop :=
  ∃ dev : NetDevice, dev.container ∈ gen.containers ∧ dev.node = (.gpu, gpu) ∧
    dev.far.node = (.gpu, peer) ∧
    (gpus gpu).getSendDevicePeer (.ofNat peer) ind = some dev ∧
    (gpus peer).getRecvDevicePeer (.ofNat gpu) ind = some dev.far ∧
    (gpus gpu).getPeerAddr (.ofNat peer) ind = some (address dev.far)

/-- On every channel, for every two GPUs with a link; no two links have containers of one name. -/
structure Paired {α : Type*} (gen : Generator) (address : NetDevice → α) (gpus : Nat → GPU α) :
    Prop where
  named : (gen.containers.map Container.link_id).Nodup
  paired : ∀ gpu peer, gen.Linked gpu peer → ∀ ind, PairedAt gen address gpus gpu peer ind

/-- No GPU has links to two GPUs with one key. -/
def KeysDiffer (gen : Generator) : Prop :=
  ∀ gpu peer peer', gen.Linked gpu peer → gen.Linked gpu peer' → Int16.ofNat peer = .ofNat peer' →
    peer = peer'

theorem KeysDiffer.faces_iff {gpu peer : Nat} {dev : NetDevice} (hkeys : KeysDiffer gen)
    (hlinked : gen.Linked gpu peer) (hdev : dev.container ∈ gen.containers) :
    dev.Faces gpu (.ofNat peer) ↔ dev.node = (.gpu, gpu) ∧ dev.far.node = (.gpu, peer) := by
  constructor
  · rintro ⟨hnode, hkind, hkey⟩
    have hfar : dev.far.node = (.gpu, dev.far.node.2) := Prod.ext hkind rfl
    have hlinked' : gen.Linked gpu dev.far.node.2 := linked_iff.mpr ⟨dev, hdev, hnode, hfar⟩
    rw [hkeys gpu _ peer hlinked' hlinked hkey] at hfar
    exact ⟨hnode, hfar⟩
  · rintro ⟨hnode, hfar⟩
    refine ⟨hnode, ?_, ?_⟩ <;> rw [hfar]

theorem KeysDiffer.pairedAt {α : Type*} {gpu peer : Nat} (hkeys : KeysDiffer gen)
    (address : NetDevice → α) (hwrite : gen.write = some calls) (hlinked : gen.Linked gpu peer)
    (ind : Int) : PairedAt gen address (execAll address calls) gpu peer ind := by
  obtain ⟨hstep, hcontainers, -⟩ := write_some hwrite
  obtain ⟨hsent, -, haddressed⟩ := execAll_eq address calls gpu (.ofNat peer)
  obtain ⟨-, hreceived, -⟩ := execAll_eq address calls peer (.ofNat gpu)
  rw [hstep.sent, hcontainers] at hsent
  rw [hstep.received, hcontainers, List.filter_map] at hreceived
  rw [hstep.addressed, hcontainers] at haddressed
  -- the devices that the peer has for receiving are those at the other ends of the sender's
  have hfaces : (bothEnds gen.containers).filter (NetDevice.Faces peer (.ofNat gpu) ∘ NetDevice.far) =
      (bothEnds gen.containers).filter (NetDevice.Faces gpu (.ofNat peer)) := by
    apply List.filter_congr
    intro dev hdev
    have hmem := mem_bothEnds.mp hdev
    have hmemFar : dev.far.container ∈ gen.containers := hmem
    have hfar : dev.far.Faces peer (.ofNat gpu) ↔ dev.Faces gpu (.ofNat peer) := by
      rw [hkeys.faces_iff hlinked.symm hmemFar, hkeys.faces_iff hlinked hmem, NetDevice.far_far]
      exact and_comm
    simp [hfar]
  have hne : (bothEnds gen.containers).filter (NetDevice.Faces gpu (.ofNat peer)) ≠ [] := by
    obtain ⟨dev, hmem, hends⟩ := linked_iff.mp hlinked
    have hdev : dev ∈ (bothEnds gen.containers).filter (NetDevice.Faces gpu (.ofNat peer)) := by
      rw [List.mem_filter, mem_bothEnds, decide_eq_true_iff, hkeys.faces_iff hlinked hmem]
      exact ⟨hmem, hends⟩
    exact List.ne_nil_of_mem hdev
  obtain ⟨dev, hdev, hind⟩ := exists_atModSize hne ind
  rw [List.mem_filter, mem_bothEnds, decide_eq_true_iff] at hdev
  obtain ⟨hnode, hfar⟩ := (hkeys.faces_iff hlinked hdev.1).mp hdev.2
  refine ⟨dev, hdev.1, hnode, hfar, ?_, ?_, ?_⟩
  · rw [GPU.getSendDevicePeer, hsent, hind]
  · rw [GPU.getRecvDevicePeer, hreceived, hfaces, atModSize_map, hind]
    rfl
  · rw [GPU.getPeerAddr, haddressed, atModSize_map, atModSize_map, hind]
    rfl

theorem keysDiffer_of_pairedAt {α : Type*} {address : NetDevice → α} {gpus : Nat → GPU α}
    (h : ∀ gpu peer, gen.Linked gpu peer → ∀ ind, PairedAt gen address gpus gpu peer ind) :
    KeysDiffer gen := by
  intro gpu peer peer' hlinked hlinked' hkey
  obtain ⟨dev, -, -, hfar, hsend, -⟩ := h gpu peer hlinked 0
  obtain ⟨dev', -, -, hfar', hsend', -⟩ := h gpu peer' hlinked' 0
  rw [hkey, hsend'] at hsend
  cases hsend
  exact congrArg Prod.snd (hfar.symm.trans hfar')

end

/-- The devices and addresses of linked GPUs belong together on every channel if and only if no GPU
has links to two GPUs whose numbers have one key. -/
theorem paired_iff {α : Type*} {program : Program} {limit : Nat} {gen : Generator}
    {calls : List Call} (h : Generate program limit = .ok gen) (hwrite : gen.write = some calls)
    (address : NetDevice → α) :
    Paired gen address (execAll address calls) ↔ KeysDiffer gen := by
  constructor
  · exact fun hpaired => keysDiffer_of_pairedAt hpaired.paired
  · intro hkeys
    obtain ⟨-, -, hids⟩ := write_some hwrite
    constructor
    · rw [hids, (recorded_declarations h).ids]
      exact List.nodup_range
    · exact fun gpu peer hlinked ind => hkeys.pairedAt address hwrite hlinked ind

/-! ## Numbers with one key -/

theorem int16_ofNat_eq_iff {m n : Nat} : Int16.ofNat m = Int16.ofNat n ↔ m % 2 ^ 16 = n % 2 ^ 16 := by
  rw [← Int16.toBitVec_inj, Int16.toBitVec_ofNat', Int16.toBitVec_ofNat', ← BitVec.toNat_inj,
    BitVec.toNat_ofNat, BitVec.toNat_ofNat]

section

variable {gen : Generator}

theorem lt_of_linked {gpu peer : Nat} {ds : List Declaration} (h : Recorded gen ds)
    (hlinked : gen.Linked gpu peer) : peer < gen.gpu_counter := by
  have hresolved : ∃ name, gen.resolveNode name = some (.gpu, peer) := by
    obtain ⟨ends, -, ⟨-, hpeer⟩ | ⟨hpeer, -⟩⟩ := hlinked
    · exact ⟨ends.2, hpeer⟩
    · exact ⟨ends.1, hpeer⟩
  obtain ⟨name, hname⟩ := hresolved
  have hget : Dict.get? (gen.nodes .gpu) name = some peer := by
    rw [Generator.resolveNode] at hname
    change Dict.get? gen.gpus name = some peer
    cases hgpu : Dict.get? gen.gpus name with
    | some n =>
        rw [hgpu] at hname
        cases hname
        rfl
    | none =>
        rw [hgpu] at hname
        cases hswitch : Dict.get? gen.switches name <;> simp [hswitch] at hname
  obtain ⟨path, hnode, -⟩ := h.declared hget
  obtain ⟨hlt, -⟩ := List.getElem?_eq_some_iff.mp hnode
  exact hlt.trans_eq (h.counter .gpu).symm

theorem keysDiffer_of_le {ds : List Declaration} (h : Recorded gen ds)
    (hle : gen.gpu_counter ≤ 2 ^ 16) : KeysDiffer gen := by
  intro gpu peer peer' hlinked hlinked' hkey
  have hlt := lt_of_linked h hlinked
  have hlt' := lt_of_linked h hlinked'
  rw [int16_ofNat_eq_iff] at hkey
  omega

end

/-! ## A link to the first GPU and one to the last -/

def linkAttrs : List (String × AttrValue) :=
  [("latency", .quantity 1 "us"), ("bandwidth", .quantity 400 "Gbps")]

/-- GPUs `a` and `h`, `n` more, a GPU `b`, and links from `h` to `a` and to `b`. -/
def fleet (n : Nat) : Program where
  modules := [("main", 0)]
  blocks :=
    [⟨[], [.newNode ⟨"a", none⟩ "gpu", .newNode ⟨"h", none⟩ "gpu",
        .loop (.expr (.num 1)) (.expr (.num n)) 1, .newNode ⟨"b", none⟩ "gpu",
        .newLink ⟨⟨"h", none⟩, []⟩ ⟨⟨"a", none⟩, []⟩ linkAttrs,
        .newLink ⟨⟨"h", none⟩, []⟩ ⟨⟨"b", none⟩, []⟩ linkAttrs]⟩,
      ⟨["i"], [.newNode ⟨"g", some "i"⟩ "gpu"]⟩]
  modules_not_bodies := by simp [Insn.bodies]

section

variable {s : State} {n : Nat}

/-- The main module has no prefix. -/
def State.AtTop (s : State) : Prop :=
  (s.scopes 0).parent = none ∧ (s.scopes 0).nodeNamePrefix = .empty

/-- Nor has the loop in it. -/
def State.InLoop (s : State) : Prop :=
  (s.scopes 1).parent = some 0 ∧ (s.scopes 1).nodeNamePrefix = .empty

theorem scopes_setParams (scope x : Nat) (params : List String) (args : List Int) :
    ((s.setParams scope params args).scopes x).parent = (s.scopes x).parent ∧
      ((s.setParams scope params args).scopes x).nodeNamePrefix = (s.scopes x).nodeNamePrefix := by
  by_cases h : x = scope
  · subst h
    simp [State.setParams]
  · simp [State.setParams, Function.update_of_ne h]

theorem getNodeNamePrefix_atTop (h : s.AtTop) (limit : Nat) :
    Scope.getNodeNamePrefix s.scopes (limit + 1) 0 = .ok "" := by
  rw [Scope.getNodeNamePrefix, h.1, h.2]
  rfl

theorem getNodeNamePrefix_inLoop (htop : s.AtTop) (h : s.InLoop) (limit : Nat) :
    Scope.getNodeNamePrefix s.scopes (limit + 2) 1 = .ok "" := by
  rw [Scope.getNodeNamePrefix, h.1, h.2]
  simp only [getNodeNamePrefix_atTop htop]
  rfl

/-- A GPU more. -/
def Generator.addGpu (gen : Generator) (name : String) : Generator :=
  { gen with
    gpus := Dict.set gen.gpus name gen.gpu_counter
    gpu_counter := gen.gpu_counter + 1 }

theorem newNode_atTop (h : s.AtTop) (name : String) :
    GenNewNode 5 0 ⟨name, none⟩ "gpu" s = .ok { s with gen := s.gen.addGpu name } := by
  rw [GenNewNode, getNodeNamePrefix_atTop h]
  rfl

theorem newLink_atTop (h : s.AtTop) (src dst : String) :
    ∃ gen, GenNewLink 5 0 ⟨⟨src, none⟩, []⟩ ⟨⟨dst, none⟩, []⟩ linkAttrs s = .ok { s with gen } ∧
      gen.nodes = s.gen.nodes ∧ gen.counter = s.gen.counter ∧
      gen.installed = s.gen.installed ++ [(src, dst)] := by
  have hlink : ∃ gen, s.gen.addLink src dst linkAttrs = .ok gen := ⟨_, rfl⟩
  obtain ⟨gen, hgen⟩ := hlink
  obtain ⟨hnodes, hcounter, -, helper_id, hinsns⟩ := addLink_ok hgen
  refine ⟨gen, ?_, hnodes, hcounter, ?_⟩
  · rw [GenNewLink, getNodeNamePrefix_atTop h]
    change (s.gen.addLink (withPrefix "" src) (withPrefix "" dst) linkAttrs >>= fun gen =>
      pure { s with gen }) = _
    simp only [withPrefix, ne_eq, not_true_eq_false, if_false, hgen]
    rfl
  · rw [Generator.installed, hinsns, List.filterMap_append]
    rfl

theorem fleet_pass (htop : s.AtTop) (hloop : s.InLoop) (i : Int) :
    ∃ s', GenerateModule (fleet n) 5 4 1 [i] s = .ok s' ∧ s'.AtTop ∧ s'.InLoop ∧
      s'.gen = s.gen.addGpu ("g" ++ toString i) := by
  have hscopes (x : Nat) := scopes_setParams (s := s) 1 x ["i"] [i]
  have htop' : (s.setParams 1 ["i"] [i]).AtTop := by
    rw [State.AtTop, (hscopes 0).1, (hscopes 0).2]
    exact htop
  have hloop' : (s.setParams 1 ["i"] [i]).InLoop := by
    rw [State.InLoop, (hscopes 1).1, (hscopes 1).2]
    exact hloop
  have hlookup : Scope.lookup (s.setParams 1 ["i"] [i]).scopes 5 1 "i" = .ok i := by
    simp [Scope.lookup, State.setParams, Dict.setAll, Dict.get?_set]
  have hnode : GenNewNode 5 1 ⟨"g", some "i"⟩ "gpu" (s.setParams 1 ["i"] [i]) =
      .ok { s.setParams 1 ["i"] [i] with gen := s.gen.addGpu ("g" ++ toString i) } := by
    simp only [GenNewNode, getNodeNamePrefix_inLoop htop' hloop', Name.resolve, hlookup]
    rfl
  have hmodule : GenerateModule (fleet n) 5 4 1 [i] s =
      GenNewNode 5 1 ⟨"g", some "i"⟩ "gpu" (s.setParams 1 ["i"] [i]) >>= pure := rfl
  rw [hmodule, hnode]
  exact ⟨_, rfl, htop', hloop', rfl⟩

theorem fleet_loop (htop : s.AtTop) (hloop : s.InLoop) (is : List Int) :
    ∃ s', is.foldlM (fun s i => GenerateModule (fleet n) 5 4 1 [i] s) s = .ok s' ∧ s'.AtTop ∧
      s'.gen.gpu_counter = s.gen.gpu_counter + is.length ∧ s'.gen.insns = s.gen.insns ∧
      ∀ name, (∀ i : Int, "g" ++ toString i ≠ name) →
        Dict.get? s'.gen.gpus name = Dict.get? s.gen.gpus name := by
  induction is generalizing s with
  | nil => exact ⟨s, rfl, htop, rfl, rfl, fun _ _ => rfl⟩
  | cons i is ih =>
      obtain ⟨s₁, hs₁, htop₁, hloop₁, hgen⟩ := fleet_pass (n := n) htop hloop i
      obtain ⟨s', hs', htop', hcounter, hinsns, hget⟩ := ih htop₁ hloop₁
      rw [List.foldlM_cons, hs₁]
      refine ⟨s', hs', htop', ?_, ?_, ?_⟩
      · rw [hcounter, hgen, List.length_cons]
        change s.gen.gpu_counter + 1 + is.length = _
        omega
      · rw [hinsns, hgen]
        rfl
      · intro name hname
        rw [hget name hname, hgen]
        change Dict.get? (Dict.set _ _ _) name = _
        rw [Dict.get?_set, if_neg (hname i)]

theorem fleet_generated (n : Nat) : ∃ gen, Generate (fleet n) 5 = .ok gen ∧
    gen.gpu_counter = n + 3 ∧ gen.installed = [("h", "a"), ("h", "b")] ∧
    Dict.get? gen.gpus "a" = some 0 ∧ Dict.get? gen.gpus "h" = some 1 ∧
    Dict.get? gen.gpus "b" = some (n + 2) := by
  have hother (name : String) (hname : name.toList.head? ≠ some 'g') (i : Int) :
      "g" ++ toString i ≠ name := by
    rintro rfl
    simp at hname
  let s₂ : State := ⟨(State.new.setParams 0 [] []).scopes, (Generator.new.addGpu "a").addGpu "h"⟩
  have hloop : (s₂.setParent 1 0).InLoop := ⟨rfl, rfl⟩
  obtain ⟨s₃, hs₃, htop, hcounter, hinsns, hget⟩ :=
    fleet_loop (s := s₂.setParent 1 0) (n := n) ⟨rfl, rfl⟩ hloop (iterations 1 n)
  obtain ⟨gen₁, hgen₁, hnodes₁, hcounter₁, hinstalled₁⟩ :=
    newLink_atTop (s := { s₃ with gen := s₃.gen.addGpu "b" }) htop "h" "a"
  obtain ⟨gen₂, hgen₂, hnodes₂, hcounter₂, hinstalled₂⟩ :=
    newLink_atTop (s := { s₃ with gen := gen₁ }) htop "h" "b"
  have hmodule : GenerateModule (fleet n) 5 5 0 [] .new = (do
      let s₃ ← (iterations 1 n).foldlM (fun s i => GenerateModule (fleet n) 5 4 1 [i] s)
        (s₂.setParent 1 0)
      let s₄ ← GenNewNode 5 0 ⟨"b", none⟩ "gpu" s₃
      let s₅ ← GenNewLink 5 0 ⟨⟨"h", none⟩, []⟩ ⟨⟨"a", none⟩, []⟩ linkAttrs s₄
      GenNewLink 5 0 ⟨⟨"h", none⟩, []⟩ ⟨⟨"b", none⟩, []⟩ linkAttrs s₅ >>= pure) := rfl
  have hgenerate : Generate (fleet n) 5 = .ok gen₂.finish := by
    rw [hs₃] at hmodule
    change GenerateModule (fleet n) 5 5 0 [] .new = GenNewNode 5 0 ⟨"b", none⟩ "gpu" s₃ >>= _ at hmodule
    rw [newNode_atTop htop] at hmodule
    change GenerateModule (fleet n) 5 5 0 [] .new = GenNewLink 5 0 _ _ _ _ >>= _ at hmodule
    rw [hgen₁] at hmodule
    change GenerateModule (fleet n) 5 5 0 [] .new = GenNewLink 5 0 _ _ _ _ >>= _ at hmodule
    rw [hgen₂] at hmodule
    change GenerateModule (fleet n) 5 5 0 [] .new >>= _ = _
    rw [hmodule]
    rfl
  have hlength : (iterations 1 n).length = n := by simp [iterations]
  have hgpus : gen₂.gpus = (s₃.gen.addGpu "b").gpus :=
    congrFun (hnodes₂.trans hnodes₁) .gpu
  have hgpu_counter : gen₂.gpu_counter = n + 3 := by
    have hgpu : gen₂.gpu_counter = s₃.gen.gpu_counter + 1 :=
      congrFun (hcounter₂.trans hcounter₁) .gpu
    have htwo : (s₂.setParent 1 0).gen.gpu_counter = 2 := rfl
    omega
  have hb : s₃.gen.gpu_counter = n + 2 := by
    have htwo : (s₂.setParent 1 0).gen.gpu_counter = 2 := rfl
    omega
  have hnames (name : String) (hname : name.toList.head? ≠ some 'g') :
      Dict.get? gen₂.finish.gpus name =
        if "b" = name then some (n + 2) else Dict.get? s₂.gen.gpus name := by
    change Dict.get? gen₂.gpus name = _
    rw [hgpus, Generator.addGpu, Dict.get?_set, hget name (hother name hname), hb]
    rfl
  refine ⟨gen₂.finish, hgenerate, hgpu_counter, ?_, ?_, ?_, ?_⟩
  · have hnone : ({ s₃ with gen := s₃.gen.addGpu "b" } : State).gen.installed = [] := by
      change s₃.gen.insns.filterMap NS3Insn.ends = []
      rw [hinsns]
      rfl
    rw [installed_finish, hinstalled₂, hinstalled₁, hnone]
    rfl
  · rw [hnames "a" (by decide)]
    rfl
  · rw [hnames "h" (by decide)]
    rfl
  · rw [hnames "b" (by decide)]
    rfl

/-- The writer succeeds where every end of a link is a node. -/
theorem exists_write {gen : Generator} (h : ∀ ends ∈ gen.installed,
    (gen.resolveNode ends.1).isSome ∧ (gen.resolveNode ends.2).isSome) :
    ∃ calls, gen.write = some calls := by
  have hinsn : ∀ insn ∈ gen.insns, ∃ calls, gen.handleInsn insn = some calls := by
    intro insn hmem
    cases insn with
    | installLink src dst helper_id link_id =>
        obtain ⟨hsrc, hdst⟩ := h (src, dst) (List.mem_filterMap.mpr ⟨_, hmem, rfl⟩)
        obtain ⟨src_node, hsrc⟩ := Option.isSome_iff_exists.mp hsrc
        obtain ⟨dst_node, hdst⟩ := Option.isSome_iff_exists.mp hdst
        rw [Generator.handleInsn, Generator.emitLinkInstall, hsrc, hdst]
        by_cases hgpus : src_node.1 = .gpu ∧ dst_node.1 = .gpu <;> simp [hgpus]
    | _ => exact ⟨[], rfl⟩
  have hchunks : ∃ chunks, gen.insns.mapM gen.handleInsn = some chunks := by
    generalize gen.insns = insns at hinsn ⊢
    induction insns with
    | nil => exact ⟨[], rfl⟩
    | cons insn insns ih =>
        rw [List.forall_mem_cons] at hinsn
        obtain ⟨calls, hcalls⟩ := hinsn.1
        obtain ⟨chunks, hchunks⟩ := ih hinsn.2
        exact ⟨calls :: chunks, by simp [hcalls, hchunks]⟩
  obtain ⟨chunks, hchunks⟩ := hchunks
  exact ⟨chunks.flatten, by rw [Generator.write, hchunks]; rfl⟩

theorem fleet_written (n : Nat) : ∃ gen calls, Generate (fleet n) 5 = .ok gen ∧
    gen.write = some calls ∧ gen.gpu_counter = n + 3 ∧ gen.Linked 1 0 ∧ gen.Linked 1 (n + 2) := by
  obtain ⟨gen, hgen, hcounter, hinstalled, ha, hh, hb⟩ := fleet_generated n
  have hresolve {name : String} {number : Nat} (hget : Dict.get? gen.gpus name = some number) :
      gen.resolveNode name = some (.gpu, number) := by rw [Generator.resolveNode, hget]
  have hwrite : ∃ calls, gen.write = some calls := by
    apply exists_write
    rw [hinstalled]
    simp [hresolve ha, hresolve hh, hresolve hb]
  obtain ⟨calls, hcalls⟩ := hwrite
  refine ⟨gen, calls, hgen, hcalls, hcounter, ⟨("h", "a"), ?_, ?_⟩, ⟨("h", "b"), ?_, ?_⟩⟩
  · simp [hinstalled]
  · exact .inl ⟨hresolve hh, hresolve ha⟩
  · simp [hinstalled]
  · exact .inl ⟨hresolve hh, hresolve hb⟩

end

/-- Two GPUs with links in both directions. -/
def parallelLinks : Program where
  modules := [("main", 0)]
  blocks :=
    [⟨[], [.newNode ⟨"x", none⟩ "gpu", .newNode ⟨"y", none⟩ "gpu",
        .newLink ⟨⟨"x", none⟩, []⟩ ⟨⟨"y", none⟩, []⟩ linkAttrs,
        .newLink ⟨⟨"y", none⟩, []⟩ ⟨⟨"x", none⟩, []⟩ linkAttrs,
        .newLink ⟨⟨"x", none⟩, []⟩ ⟨⟨"y", none⟩, []⟩ linkAttrs]⟩]
  modules_not_bodies := by simp [Insn.bodies]

/-- Every link has a device of its own at both GPUs. -/
theorem parallelLinks_paired : ∃ gen calls, Generate parallelLinks 5 = .ok gen ∧
    gen.write = some calls ∧ Paired gen id (execAll id calls) ∧
    ((execAll id calls 0).m_sendDevicePeer 1).map NetDevice.second = [false, true, false] := by
  have heval : (Generate parallelLinks 5).toOption.any (fun gen => gen.gpu_counter = 2 ∧
      gen.write.any fun calls => ((execAll id calls 0).m_sendDevicePeer 1).map NetDevice.second =
        [false, true, false]) = true := by
    decide +kernel
  cases hgen : Generate parallelLinks 5 with
  | error e => simp [hgen, Except.toOption] at heval
  | ok gen =>
      simp only [hgen, Except.toOption, Option.any_some, decide_eq_true_eq] at heval
      obtain ⟨hcounter, hdevices⟩ := heval
      obtain ⟨calls, hcalls, hdevices⟩ := (Option.any_eq_true _ _).mp hdevices
      have hkeys : KeysDiffer gen := keysDiffer_of_le (recorded_declarations hgen) (by omega)
      exact ⟨gen, calls, rfl, hcalls, (paired_iff hgen hcalls id).mpr hkeys, of_decide_eq_true hdevices⟩

/-- The last of 65537 GPUs has the key of the first. -/
theorem fleet_not_paired : ∃ gen calls, Generate (fleet 65534) 5 = .ok gen ∧
    gen.write = some calls ∧ ¬ ∀ gpu peer, gen.Linked gpu peer →
      ∀ ind, PairedAt gen id (execAll id calls) gpu peer ind := by
  obtain ⟨gen, calls, hgen, hcalls, -, hfirst, hlast⟩ := fleet_written 65534
  refine ⟨gen, calls, hgen, hcalls, fun hpaired => ?_⟩
  have hkeys := keysDiffer_of_pairedAt hpaired
  have heq := hkeys 1 0 (65534 + 2) hfirst hlast (int16_ofNat_eq_iff.mpr (by norm_num))
  omega

end CollectiveSim.Topology
