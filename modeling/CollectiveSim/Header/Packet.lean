import Mathlib
import CollectiveSim.Header.IntHeader

/-!
# The headers of a data packet

The bytes that `RdmaHw::GetNxtPacket` puts in front of the payload: PPP, IPv4, UDP, sequence number
with the INT field, and the MSCCL flow id.
-/

namespace CollectiveSim.Header

open Framework

/-- `PppHeader::Serialize`: the protocol and 12 bytes of padding. -/
def pppBytes (protocol : Nat) : List UInt8 := encodeBE 2 protocol ++ List.replicate 12 0

structure Ipv4Header where
  tos : Nat
  payloadSize : Nat
  identification : Nat
  dontFragment : Bool
  moreFragments : Bool
  fragmentOffset : Nat
  ttl : Nat
  protocol : Nat
  source : Nat
  destination : Nat
  deriving DecidableEq

namespace Ipv4Header

/-- `Ipv4Header::Serialize` without checksum calculation. -/
def bytes (h : Ipv4Header) : List UInt8 :=
  [0x45, UInt8.ofNat h.tos] ++ encodeBE 2 (h.payloadSize + 5 * 4) ++ encodeBE 2 h.identification ++
    [UInt8.ofNat (h.fragmentOffset / 8 / 2 ^ 8 % 2 ^ 5 + (if h.dontFragment then 2 ^ 6 else 0) +
      (if h.moreFragments then 2 ^ 5 else 0)), UInt8.ofNat (h.fragmentOffset / 8)] ++
    [UInt8.ofNat h.ttl, UInt8.ofNat h.protocol] ++ encodeBE 2 0 ++
    encodeBE 4 h.source ++ encodeBE 4 h.destination

/-- `Ipv4Header::Deserialize` on a buffer that starts with the header; `none` when the version is
not 4. -/
def parse (buf : List UInt8) : Option Ipv4Header := do
  let verIhl := decodeBE (← readAt buf 0 1)
  if verIhl / 2 ^ 4 ≠ 4 then none
  let tos := decodeBE (← readAt buf 1 1)
  let size := decodeBE (← readAt buf 2 2)
  let identification := decodeBE (← readAt buf 4 2)
  let flags := decodeBE (← readAt buf 6 1)
  let frag := decodeBE (← readAt buf 7 1)
  let ttl := decodeBE (← readAt buf 8 1)
  let protocol := decodeBE (← readAt buf 9 1)
  let _checksum ← readAt buf 10 2
  let source := decodeBE (← readAt buf 12 4)
  let destination := decodeBE (← readAt buf 16 4)
  return {
    tos := tos
    payloadSize := u16 (size + (2 ^ 16 - verIhl % 2 ^ 4 * 4))
    identification := identification
    dontFragment := flags / 2 ^ 6 % 2 = 1
    moreFragments := flags / 2 ^ 5 % 2 = 1
    fragmentOffset := u16 ((flags % 2 ^ 5 * 2 ^ 8 + frag) * 2 ^ 3)
    ttl := ttl
    protocol := protocol
    source := source
    destination := destination }

/-- `Ipv4Header::SetEcn`. -/
def setEcn (h : Ipv4Header) (ecn : Nat) : Ipv4Header :=
  { h with tos := h.tos / 2 ^ 2 % 2 ^ 6 * 2 ^ 2 + ecn }

@[simp] theorem bytes_length (h : Ipv4Header) : h.bytes.length = 20 := by
  simp [bytes]

end Ipv4Header

/-- `UdpHeader::Serialize` with neither payload size nor checksum set: `size` is that of the buffer. -/
def udpBytes (sport dport size : Nat) : List UInt8 :=
  encodeBE 2 sport ++ encodeBE 2 dport ++ encodeBE 2 size ++ [0, 0]

/-- `SimpleSeqTsHeader::Serialize`. -/
def seqTsBytes (seq pg : Nat) (int : List UInt8) : List UInt8 := encodeBE 8 seq ++ encodeBE 2 pg ++ int

/-- What `GetNxtPacket` takes from the queue pair, and the simulation time. -/
structure PacketFields where
  sip : UInt32
  dip : UInt32
  sport : UInt16
  dport : UInt16
  pg : UInt16
  ipid : UInt16
  nvlsEnable : Bool
  seq : UInt64
  mscclFlowId : UInt32
  now : UInt64
  payload : List UInt8

namespace PacketFields

variable (cfg : IntConfig) (stale : UInt8) (f : PacketFields)

def intField : List UInt8 := IntHeader.serialize cfg (IntHeader.initial cfg f.now.toNat) stale

/-- The sequence number header and what follows it. -/
def seqTsAndPayload : List UInt8 :=
  seqTsBytes f.seq.toNat f.pg.toNat (f.intField cfg stale) ++
    encodeBE 4 f.mscclFlowId.toNat ++ f.payload

def udpAndPayload : List UInt8 :=
  udpBytes f.sport.toNat f.dport.toNat (8 + (f.seqTsAndPayload cfg stale).length) ++
    f.seqTsAndPayload cfg stale

def ipv4Header : Ipv4Header where
  tos := if f.nvlsEnable then 4 else 0
  payloadSize := u16 (f.udpAndPayload cfg stale).length
  identification := f.ipid.toNat
  dontFragment := false
  moreFragments := false
  fragmentOffset := 0
  ttl := 64
  protocol := 0x11
  source := f.sip.toNat
  destination := f.dip.toNat

/-- A packet with these fields behind any IPv4 header. -/
def packetWith (ip : Ipv4Header) : List UInt8 :=
  pppBytes 0x0021 ++ ip.bytes ++ f.udpAndPayload cfg stale

/-- The packet of `RdmaHw::GetNxtPacket`. -/
def packet : List UInt8 := f.packetWith cfg stale (f.ipv4Header cfg stale)

/-- The number of bytes in front of the payload. -/
def headerLength : Nat := (f.packet cfg stale).length - f.payload.length

@[simp] theorem intField_length : (f.intField cfg stale).length = IntHeader.getStaticSize cfg := by
  simp [intField]

theorem packetWith_length (ip : Ipv4Header) : (f.packetWith cfg stale ip).length =
    56 + IntHeader.getStaticSize cfg + f.payload.length := by
  simp [packetWith, udpAndPayload, seqTsAndPayload, seqTsBytes, udpBytes, pppBytes]
  omega

section Slices

variable (ip : Ipv4Header)

theorem slice_ppp : SliceAt (f.packetWith cfg stale ip) 0 (encodeBE 2 0x0021) :=
  ⟨[], _, by
    rw [packetWith, pppBytes, List.nil_append, List.append_assoc, List.append_assoc], rfl⟩

theorem slice_ip : SliceAt (f.packetWith cfg stale ip) 14 ip.bytes :=
  ⟨pppBytes 0x0021, f.udpAndPayload cfg stale, rfl, by simp [pppBytes]⟩

theorem slice_udp : SliceAt (f.packetWith cfg stale ip) 34 (f.udpAndPayload cfg stale) :=
  ⟨pppBytes 0x0021 ++ ip.bytes, [], by simp [packetWith], by simp [pppBytes]⟩

theorem slice_sport : SliceAt (f.packetWith cfg stale ip) 34 (encodeBE 2 f.sport.toNat) :=
  (f.slice_udp cfg stale ip).trans (j := 0) ⟨[], _, by
    rw [udpAndPayload, udpBytes, List.nil_append, List.append_assoc, List.append_assoc,
      List.append_assoc], rfl⟩

theorem slice_dport : SliceAt (f.packetWith cfg stale ip) 36 (encodeBE 2 f.dport.toNat) :=
  (f.slice_udp cfg stale ip).trans (j := 2) ⟨encodeBE 2 f.sport.toNat, _, by
    rw [udpAndPayload, udpBytes, List.append_assoc, List.append_assoc], by simp⟩

theorem slice_seqTs : SliceAt (f.packetWith cfg stale ip) 42 (f.seqTsAndPayload cfg stale) :=
  (f.slice_udp cfg stale ip).trans (j := 8) ⟨_, [], by
    rw [udpAndPayload, List.append_nil], by simp [udpBytes]⟩

theorem slice_seq : SliceAt (f.packetWith cfg stale ip) 42 (encodeBE 8 f.seq.toNat) :=
  (f.slice_seqTs cfg stale ip).trans (j := 0) ⟨[], _, by
    rw [seqTsAndPayload, seqTsBytes, List.nil_append, List.append_assoc, List.append_assoc,
      List.append_assoc], rfl⟩

theorem slice_pg : SliceAt (f.packetWith cfg stale ip) 50 (encodeBE 2 f.pg.toNat) :=
  (f.slice_seqTs cfg stale ip).trans (j := 8) ⟨encodeBE 8 f.seq.toNat, _, by
    rw [seqTsAndPayload, seqTsBytes, List.append_assoc, List.append_assoc], by simp⟩

theorem slice_int : SliceAt (f.packetWith cfg stale ip) 52
    (f.intField cfg stale ++ encodeBE 4 f.mscclFlowId.toNat ++ f.payload) :=
  (f.slice_seqTs cfg stale ip).trans (j := 10) ⟨encodeBE 8 f.seq.toNat ++ encodeBE 2 f.pg.toNat, [],
    by simp [seqTsAndPayload, seqTsBytes], by simp⟩

theorem slice_flowId : SliceAt (f.packetWith cfg stale ip) (52 + IntHeader.getStaticSize cfg)
    (encodeBE 4 f.mscclFlowId.toNat) :=
  (f.slice_int cfg stale ip).trans ⟨f.intField cfg stale, f.payload, rfl, by simp⟩

end Slices

end PacketFields

end CollectiveSim.Header
