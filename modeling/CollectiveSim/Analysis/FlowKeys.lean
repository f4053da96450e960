import CollectiveSim.Fabric.Identity

/-!
# Keys of flows in the analysis

The analysis of a trace tells flows apart by an integer that it packs from bits 8 to 23 of both
addresses and from both ports. The addresses of the fabric differ in their last octet only.
-/

namespace CollectiveSim.Analysis

open Framework Fabric

/-- A source and a destination port. -/
structure Ports where
  sport : UInt16
  dport : UInt16
deriving DecidableEq

/-- The fields of `TraceFormat` that a key is made of; the members of the union that have ports have
them in the same place. -/
structure TraceFormat where
  sip : UInt32
  dip : UInt32
  l3Prot : UInt8
  ports : Ports
deriving DecidableEq

namespace TraceFormat

def data (tr : TraceFormat) : Ports := tr.ports
def ack (tr : TraceFormat) : Ports := tr.ports
def qp (tr : TraceFormat) : Ports := tr.ports

end TraceFormat

/-- `GetFlowInt` on addresses and ports. -/
def getFlowInt (sip dip : UInt32) (sport dport : UInt16) : UInt64 :=
  let src := ((sip >>> 8) &&& 0xffff).toUInt64
  let dst := ((dip >>> 8) &&& 0xffff).toUInt64
  let res := (src <<< 16) ||| dst
  (((res <<< 16) ||| sport.toUInt64) <<< 16) ||| dport.toUInt64

namespace TraceFormat

def getFlowInt (tr : TraceFormat) : UInt64 :=
  match tr.l3Prot with
  | 0x6 | 0x11 => Analysis.getFlowInt tr.sip tr.dip tr.data.sport tr.data.dport
  | 0xFC | 0xFD => Analysis.getFlowInt tr.sip tr.dip tr.ack.sport tr.ack.dport
  | 0x0 => Analysis.getFlowInt tr.sip tr.dip tr.qp.sport tr.qp.dport
  | _ => Analysis.getFlowInt tr.sip tr.dip 0 0

def getReverseFlowInt (tr : TraceFormat) : UInt64 :=
  match tr.l3Prot with
  | 0x6 | 0x11 => Analysis.getFlowInt tr.dip tr.sip tr.data.dport tr.data.sport
  | 0xFC | 0xFD => Analysis.getFlowInt tr.dip tr.sip tr.ack.dport tr.ack.sport
  | 0x0 => Analysis.getFlowInt tr.dip tr.sip tr.qp.dport tr.qp.sport
  | _ => Analysis.getFlowInt tr.dip tr.sip 0 0

/-- The key of the data for data, and of what it answers for an ACK or a NACK. -/
def getStandardFlowInt (tr : TraceFormat) : UInt64 :=
  if tr.l3Prot = 0xFC ∨ tr.l3Prot = 0xFD then tr.getReverseFlowInt else tr.getFlowInt

end TraceFormat

/-! ## The packets of a flow -/

/-- The addresses, the protocol and the ports in the headers of a packet. -/
structure Header where
  sip : UInt32
  dip : UInt32
  l3Prot : UInt8
  ports : Ports
deriving DecidableEq

/-- `GetTraceFromPacket` for a packet with ports. -/
def Header.getTraceFromPacket (hdr : Header) : TraceFormat := ⟨hdr.sip, hdr.dip, hdr.l3Prot, hdr.ports⟩

/-- The ACK that `ReceiveUdp` answers a packet with, or the NACK. -/
def Header.answer (ch : Header) (nack : Bool) : Header where
  sip := ch.dip
  dip := ch.sip
  l3Prot := if nack then 0xFD else 0xFC
  ports := ⟨ch.ports.dport, ch.ports.sport⟩

/-- A flow between two GPUs, named by their positions. -/
structure Flow where
  src : Nat
  dst : Nat
  ports : Ports
deriving DecidableEq

def gpuAddress (i : Nat) : UInt32 := .ofNat (gpuIp i)

namespace Flow

/-- The data packets that `GetNxtPacket` makes for a flow. -/
def dataHeader (f : Flow) : Header := ⟨gpuAddress f.src, gpuAddress f.dst, 0x11, f.ports⟩

/-- What is traced of a flow: data packets, ACKs and NACKs. -/
def traces (f : Flow) : List TraceFormat :=
  [f.dataHeader, f.dataHeader.answer false, f.dataHeader.answer true].map Header.getTraceFromPacket

def key (f : Flow) : UInt64 :=
  getFlowInt (gpuAddress f.src) (gpuAddress f.dst) f.ports.sport f.ports.dport

end Flow

/-- Keys tell these flows apart, and all packets of a flow have its key. -/
structure Identified (flows : Set Flow) : Prop where
  injective : Set.InjOn Flow.key flows
  standard : ∀ f ∈ flows, ∀ tr ∈ f.traces, tr.getStandardFlowInt = f.key
  different : ∀ f ∈ flows, ∀ g ∈ flows, f ≠ g →
    ∀ tr ∈ f.traces, ∀ tr' ∈ g.traces, tr.getStandardFlowInt ≠ tr'.getStandardFlowInt

/-! ## What a key consists of -/

theorem ipToNodeId_lt (ip : Nat) : ipToNodeId ip < 2 ^ 16 :=
  Nat.lt_of_le_of_lt Nat.and_le_right (by decide)

theorem toNat_shiftLeft_or {x y : UInt64} (hx : x.toNat < 2 ^ 48) (hy : y.toNat < 2 ^ 16) :
    ((x <<< 16) ||| y).toNat = x.toNat * 2 ^ 16 + y.toNat := by
  have hlt : x.toNat <<< 16 < 2 ^ 64 := by
    rw [Nat.shiftLeft_eq]
    omega
  have hshift : (x <<< 16).toNat = x.toNat <<< 16 := by
    rw [UInt64.toNat_shiftLeft]
    exact Nat.mod_eq_of_lt hlt
  rw [UInt64.toNat_or, hshift, ← Nat.shiftLeft_add_eq_or_of_lt hy, Nat.shiftLeft_eq]

theorem getFlowInt_toNat (sip dip : UInt32) (sport dport : UInt16) :
    (getFlowInt sip dip sport dport).toNat =
      ((ipToNodeId sip.toNat * 2 ^ 16 + ipToNodeId dip.toNat) * 2 ^ 16 + sport.toNat) * 2 ^ 16 +
        dport.toNat := by
  have hslice (ip : UInt32) : ((ip >>> 8) &&& 0xffff).toUInt64.toNat = ipToNodeId ip.toNat := by
    simp [ipToNodeId]
  have hsrc := ipToNodeId_lt sip.toNat
  have hdst := ipToNodeId_lt dip.toNat
  have hsport : sport.toUInt64.toNat = sport.toNat := UInt16.toNat_toUInt64 sport
  have hdport : dport.toUInt64.toNat = dport.toNat := UInt16.toNat_toUInt64 dport
  have hsport_lt := sport.toNat_lt
  have hdport_lt := dport.toNat_lt
  rw [getFlowInt]
  generalize hs : ((sip >>> 8) &&& 0xffff).toUInt64 = src
  generalize hd : ((dip >>> 8) &&& 0xffff).toUInt64 = dst
  rw [← hslice, hs] at hsrc ⊢
  rw [← hslice, hd] at hdst ⊢
  have hnodes := toNat_shiftLeft_or (x := src) (y := dst) (by omega) hdst
  have hthree : ((((src <<< 16) ||| dst) <<< 16) ||| sport.toUInt64).toNat = _ :=
    toNat_shiftLeft_or (by omega) (by omega)
  rw [toNat_shiftLeft_or (by omega) (by omega), hthree, hnodes, hsport, hdport]

@[simp] theorem ipToNodeId_gpuAddress (i : Nat) : ipToNodeId (gpuAddress i).toNat = 0 := by
  have hlt := u8_lt (i + 1)
  have hip : (gpuAddress i).toNat = gpuIp i := by
    rw [gpuAddress, UInt32.toNat_ofNat']
    apply Nat.mod_eq_of_lt
    rw [gpuIp_eq]
    omega
  rw [hip, ipToNodeId_gpuIp]

theorem Flow.key_toNat (f : Flow) :
    f.key.toNat = f.ports.sport.toNat * 2 ^ 16 + f.ports.dport.toNat := by
  rw [Flow.key, getFlowInt_toNat]
  simp

theorem Flow.key_eq_iff (f g : Flow) : f.key = g.key ↔ f.ports = g.ports := by
  constructor
  · intro h
    have hnat := congrArg UInt64.toNat h
    rw [Flow.key_toNat, Flow.key_toNat] at hnat
    have hf := f.ports.dport.toNat_lt
    have hg := g.ports.dport.toNat_lt
    have hsport : f.ports.sport = g.ports.sport := UInt16.toNat_inj.mp (by omega)
    have hdport : f.ports.dport = g.ports.dport := UInt16.toNat_inj.mp (by omega)
    obtain ⟨src, dst, ⟨sport, dport⟩⟩ := f
    cases hsport
    cases hdport
    rfl
  · intro h
    apply UInt64.toNat_inj.mp
    rw [Flow.key_toNat, Flow.key_toNat, h]

theorem Flow.getStandardFlowInt_traces (f : Flow) {tr : TraceFormat} (h : tr ∈ f.traces) :
    tr.getStandardFlowInt = f.key := by
  simp only [Flow.traces, List.map_cons, List.map_nil, List.mem_cons, List.not_mem_nil, or_false] at h
  rcases h with rfl | rfl | rfl <;> rfl

/-- Keys identify flows if and only if no two of these have both ports in common. -/
theorem identified_iff (flows : Set Flow) : Identified flows ↔ flows.InjOn Flow.ports := by
  constructor
  · intro h f hf g hg hports
    exact h.injective hf hg ((f.key_eq_iff g).mpr hports)
  · intro h
    constructor
    · exact fun f hf g hg hkey => h hf hg ((f.key_eq_iff g).mp hkey)
    · exact fun f _ tr htr => f.getStandardFlowInt_traces htr
    · intro f hf g hg hne tr htr tr' htr' hkey
      rw [f.getStandardFlowInt_traces htr, g.getStandardFlowInt_traces htr', f.key_eq_iff] at hkey
      exact hne (h hf hg hkey)

/-! ## The flows of the persistent connections -/

def MSCCL_RDMA_DPORT : Nat := 21000

def connectionFlow (c : PeerConnection) : Flow :=
  ⟨c.sender, c.receiver, ⟨.ofNat c.sport, .ofNat MSCCL_RDMA_DPORT⟩⟩

/-- The flows of the connections that these setups open. -/
def setupFlows (setups : List (Nat × Nat)) : Set Flow :=
  {f | ∃ c ∈ setupRdmaPeers setups, connectionFlow c = f}

theorem exists_setup (counter : Nat → Nat) {setups : List (Nat × Nat)} {x : Nat × Nat}
    (h : x ∈ setups) : ∃ c ∈ setupRdmaPeersFrom counter setups, c.sender = x.1 ∧
      c.sport = u16 (MSCCL_RDMA_SPORT_BASE + counter x.1) := by
  induction setups generalizing counter with
  | nil => cases h
  | cons y setups ih =>
      obtain ⟨sender, peer⟩ := y
      rw [setupRdmaPeersFrom]
      by_cases hx : x.1 = sender
      · subst hx
        exact ⟨_, List.mem_cons_self, rfl, rfl⟩
      · have hmem : x ∈ setups := by
          rcases List.mem_cons.mp h with rfl | hmem
          · exact absurd rfl hx
          · exact hmem
        obtain ⟨c, hc, hsender, hsport⟩ := ih (Function.update counter sender _) hmem
        rw [Function.update_of_ne hx] at hsport
        exact ⟨c, List.mem_cons_of_mem _ hc, hsender, hsport⟩

/-- As soon as two GPUs have opened connections, the first one of each has the same key. -/
theorem not_identified_of_two_senders {setups : List (Nat × Nat)} {x y : Nat × Nat}
    (hx : x ∈ setups) (hy : y ∈ setups) (hne : x.1 ≠ y.1) : ¬ Identified (setupFlows setups) := by
  intro h
  obtain ⟨c, hc, hsender, hsport⟩ := exists_setup (fun _ => 0) hx
  obtain ⟨c', hc', hsender', hsport'⟩ := exists_setup (fun _ => 0) hy
  have hports : (connectionFlow c).ports = (connectionFlow c').ports := by
    rw [connectionFlow, connectionFlow, hsport, hsport']
  have heq := h.injective ⟨c, hc, rfl⟩ ⟨c', hc', rfl⟩ ((Flow.key_eq_iff _ _).mpr hports)
  have hsrc : c.sender = c'.sender := congrArg Flow.src heq
  rw [hsender, hsender'] at hsrc
  exact hne hsrc

/-- Two GPUs that send to each other. -/
theorem twoSenders_not_identified : ¬ Identified (setupFlows [(0, 1), (1, 0)]) :=
  not_identified_of_two_senders (x := (0, 1)) (y := (1, 0)) (by decide) (by decide) (by decide)

end CollectiveSim.Analysis
