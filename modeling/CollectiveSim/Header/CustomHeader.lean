import Mathlib
import CollectiveSim.Header.Packet

/-!
# Reading a data packet

`CustomHeader::Deserialize` with L2, L3 and L4 parsing on a UDP packet. The iterator is passed to
`IntHeader::Deserialize` by value, so with the get-INT flag the flow id is read where the INT field
starts.
-/

namespace CollectiveSim.Header

open Framework

/-- The fields that the UDP branch reads; `ih` holds the bytes read of the INT field. -/
structure CustomHeader where
  pppProto : Nat
  tos : Nat
  ipid : Nat
  l3Prot : Nat
  sip : Nat
  dip : Nat
  sport : Nat
  dport : Nat
  seq : Nat
  pg : Nat
  ih : Option (List UInt8)
  mscclFlowId : Nat
  deriving DecidableEq

namespace CustomHeader

/-- `CustomHeader::Deserialize` on a whole packet, for UDP over IPv4 and with `brief` set; `none` for
other packets and past the end of the buffer. -/
def deserialize (cfg : IntConfig) (getInt : Bool) (bytes : List UInt8) : Option CustomHeader := do
  -- L2
  let pppProto ← readAt bytes 0 2
  let l2Size := 14
  -- L3
  let verIhl ← readAt bytes l2Size 1
  let l3Size := decodeBE verIhl % 2 ^ 4 * 4
  if decodeBE verIhl / 2 ^ 4 ≠ 4 then none else
  let tos ← readAt bytes (l2Size + 1) 1
  let ipid ← readAt bytes (l2Size + 4) 2
  let l3Prot ← readAt bytes (l2Size + 9) 1
  let sip ← readAt bytes (l2Size + 12) 4
  let dip ← readAt bytes (l2Size + 16) 4
  -- L4
  if decodeBE l3Prot ≠ 0x11 then none else
  let l4 := l2Size + l3Size
  let sport ← readAt bytes l4 2
  let dport ← readAt bytes (l4 + 2) 2
  let seq ← readAt bytes (l4 + 8) 8
  let pg ← readAt bytes (l4 + 16) 2
  let int := l4 + 18
  let ih ← if getInt then (IntHeader.deserialize cfg bytes int).map some else some none
  let flowId ← readAt bytes (if getInt then int else int + IntHeader.getStaticSize cfg) 4
  return {
    pppProto := decodeBE pppProto
    tos := decodeBE tos
    ipid := decodeBE ipid
    l3Prot := decodeBE l3Prot
    sip := decodeBE sip
    dip := decodeBE dip
    sport := decodeBE sport
    dport := decodeBE dport
    seq := decodeBE seq
    pg := decodeBE pg
    ih := ih
    mscclFlowId := decodeBE flowId }

/-- `CustomHeader::GetSerializedSize` with all three layers of a UDP packet. -/
def getSerializedSize (cfg : IntConfig) : Nat :=
  14 + 5 * 4 + (8 + 2 + 8 + IntHeader.getStaticSize cfg + 4)

theorem deserialize_ih {cfg : IntConfig} {bytes : List UInt8} {ch : CustomHeader}
    (h : CustomHeader.deserialize cfg true bytes = some ch) (hver : bytes[14]? = some 0x45) :
    ch.ih = IntHeader.deserialize cfg bytes 52 := by
  obtain ⟨hlen, hbyte⟩ := List.getElem?_eq_some_iff.mp hver
  have hread : readAt bytes 14 1 = some [0x45] := by
    rw [readAt, if_pos (by omega)]
    simp [List.take_one, hver]
  have hversion : ¬ decodeBE [0x45] / 2 ^ 4 ≠ 4 := by decide
  rw [CustomHeader.deserialize] at h
  obtain ⟨ppp, -, h⟩ := Option.bind_eq_some_iff.mp h
  obtain ⟨ver, hv, h⟩ := Option.bind_eq_some_iff.mp h
  obtain rfl := Option.some_inj.mp (hread.symm.trans hv)
  rw [if_neg hversion] at h
  obtain ⟨tos, -, h⟩ := Option.bind_eq_some_iff.mp h
  obtain ⟨ipid, -, h⟩ := Option.bind_eq_some_iff.mp h
  obtain ⟨l3Prot, -, h⟩ := Option.bind_eq_some_iff.mp h
  obtain ⟨sip, -, h⟩ := Option.bind_eq_some_iff.mp h
  obtain ⟨dip, -, h⟩ := Option.bind_eq_some_iff.mp h
  by_cases hudp : decodeBE l3Prot = 0x11
  · rw [if_neg (not_not.mpr hudp)] at h
    obtain ⟨sport, -, h⟩ := Option.bind_eq_some_iff.mp h
    obtain ⟨dport, -, h⟩ := Option.bind_eq_some_iff.mp h
    obtain ⟨seq, -, h⟩ := Option.bind_eq_some_iff.mp h
    obtain ⟨pg, -, h⟩ := Option.bind_eq_some_iff.mp h
    obtain ⟨ih, hih, h⟩ := Option.bind_eq_some_iff.mp h
    obtain ⟨flow, -, h⟩ := Option.bind_eq_some_iff.mp h
    obtain ⟨int, hint, rfl⟩ := Option.map_eq_some_iff.mp hih
    obtain rfl := Option.some_inj.mp h
    exact hint.symm
  · rw [if_pos hudp] at h
    cases h
end CustomHeader

namespace PacketFields

variable (cfg : IntConfig) (getInt : Bool) (stale : UInt8) (f : PacketFields)

/-- The bytes in which the flow id is looked for. -/
def flowIdBytes : List UInt8 :=
  if getInt then (f.intField cfg stale ++ encodeBE 4 f.mscclFlowId.toNat).take 4
  else encodeBE 4 f.mscclFlowId.toNat

/-- What the receiver reads from the packet behind some IPv4 header of the same addresses. -/
def received (tos : Nat) : CustomHeader where
  pppProto := 0x0021
  tos := tos
  ipid := f.ipid.toNat
  l3Prot := 0x11
  sip := f.sip.toNat
  dip := f.dip.toNat
  sport := f.sport.toNat
  dport := f.dport.toNat
  seq := f.seq.toNat
  pg := f.pg.toNat
  ih := if getInt then some ((f.intField cfg stale).take (IntHeader.wireBytes cfg)) else none
  mscclFlowId := decodeBE (f.flowIdBytes cfg getInt stale)

/-- The receiver recovers the addresses, ports and ids, and the payload size is exact. -/
structure Recovered (ch : CustomHeader) : Prop where
  sip : ch.sip = f.sip.toNat
  dip : ch.dip = f.dip.toNat
  sport : ch.sport = f.sport.toNat
  dport : ch.dport = f.dport.toNat
  seq : ch.seq = f.seq.toNat
  pg : ch.pg = f.pg.toNat
  mscclFlowId : ch.mscclFlowId = f.mscclFlowId.toNat
  headerSize : CustomHeader.getSerializedSize cfg = f.headerLength cfg stale
  payloadSize : (f.packet cfg stale).length - CustomHeader.getSerializedSize cfg = f.payload.length

/-- The packet is readable and everything is recovered from it. -/
def CodecAgrees : Prop :=
  ∃ ch, CustomHeader.deserialize cfg getInt (f.packet cfg stale) = some ch ∧
    f.Recovered cfg stale ch

/-- The values of the flow id that survive being read from the start of the INT field. -/
def FlowIdReadable : Prop :=
  getInt = true →
    match cfg.mode with
    | .none => True
    | .normal => f.mscclFlowId = 0
    | .ts => f.mscclFlowId.toNat = decodeBE ((encodeLE 8 f.now.toNat).take 4)
    | .pint =>
        if cfg.pintOneByte then f.mscclFlowId.toNat = stale.toNat * (2 ^ 16 + 1)
        else f.mscclFlowId = 0

theorem slice_flowIdBytes (ip : Ipv4Header) :
    SliceAt (f.packetWith cfg stale ip)
      (if getInt then 52 else 52 + IntHeader.getStaticSize cfg)
      (f.flowIdBytes cfg getInt stale) := by
  cases getInt with
  | false => exact f.slice_flowId cfg stale ip
  | true =>
      have hint := f.slice_int cfg stale ip
      have hsplit := List.take_append_drop 4
        (f.intField cfg stale ++ encodeBE 4 f.mscclFlowId.toNat)
      refine hint.trans (j := 0) ⟨[], (f.intField cfg stale ++ encodeBE 4 f.mscclFlowId.toNat).drop 4
        ++ f.payload, ?_, rfl⟩
      rw [List.nil_append, ← List.append_assoc, flowIdBytes, if_pos rfl, hsplit]

@[simp] theorem flowIdBytes_length : (f.flowIdBytes cfg getInt stale).length = 4 := by
  cases getInt with
  | false => simp [flowIdBytes]
  | true => simp [flowIdBytes]

theorem slice_ihBytes (ip : Ipv4Header) : SliceAt (f.packetWith cfg stale ip) 52
    ((f.intField cfg stale).take (IntHeader.wireBytes cfg)) := by
  have hsplit := List.take_append_drop (IntHeader.wireBytes cfg) (f.intField cfg stale)
  refine (f.slice_int cfg stale ip).trans (j := 0) ⟨[],
    (f.intField cfg stale).drop (IntHeader.wireBytes cfg) ++ encodeBE 4 f.mscclFlowId.toNat ++
      f.payload, ?_, rfl⟩
  rw [List.nil_append, ← List.append_assoc, ← List.append_assoc, hsplit]

theorem slice_ipField (ip : Ipv4Header) {i : Nat} {xs : List UInt8} (h : SliceAt ip.bytes i xs) :
    SliceAt (f.packetWith cfg stale ip) (14 + i) xs :=
  (f.slice_ip cfg stale ip).trans h

end PacketFields

theorem Ipv4Header.slices (ip : Ipv4Header) :
    SliceAt ip.bytes 0 [0x45] ∧ SliceAt ip.bytes 1 [UInt8.ofNat ip.tos] ∧
    SliceAt ip.bytes 4 (encodeBE 2 ip.identification) ∧
    SliceAt ip.bytes 9 [UInt8.ofNat ip.protocol] ∧
    SliceAt ip.bytes 12 (encodeBE 4 ip.source) ∧
    SliceAt ip.bytes 16 (encodeBE 4 ip.destination) := by
  refine ⟨⟨[], ip.bytes.drop 1, rfl, rfl⟩, ⟨[0x45], ip.bytes.drop 2, rfl, rfl⟩, ?_, ?_, ?_, ?_⟩
  · exact ⟨ip.bytes.take 4, ip.bytes.drop 6, rfl, rfl⟩
  · exact ⟨ip.bytes.take 9, ip.bytes.drop 10, rfl, rfl⟩
  · exact ⟨ip.bytes.take 12, ip.bytes.drop 16, rfl, rfl⟩
  · exact ⟨ip.bytes.take 16, [], rfl, rfl⟩

namespace PacketFields

variable (cfg : IntConfig) (getInt : Bool) (stale : UInt8) (f : PacketFields)

/-- Reading succeeds on every such packet, and yields what was written except for the flow id. -/
theorem deserialize_packetWith (ip : Ipv4Header) (hident : ip.identification = f.ipid.toNat)
    (hprot : ip.protocol = 0x11) (hsrc : ip.source = f.sip.toNat)
    (hdst : ip.destination = f.dip.toNat) :
    CustomHeader.deserialize cfg getInt (f.packetWith cfg stale ip) =
      some (f.received cfg getInt stale (UInt8.ofNat ip.tos).toNat) := by
  obtain ⟨hver, htos, hid, hproto, hsip, hdip⟩ := ip.slices
  have hppp := (f.slice_ppp cfg stale ip).readAt_eq
  have hver := (f.slice_ipField cfg stale ip hver).readAt_eq
  have htos := (f.slice_ipField cfg stale ip htos).readAt_eq
  have hid := (f.slice_ipField cfg stale ip hid).readAt_eq
  have hproto := (f.slice_ipField cfg stale ip hproto).readAt_eq
  have hsip := (f.slice_ipField cfg stale ip hsip).readAt_eq
  have hdip := (f.slice_ipField cfg stale ip hdip).readAt_eq
  have hsport := (f.slice_sport cfg stale ip).readAt_eq
  have hdport := (f.slice_dport cfg stale ip).readAt_eq
  have hseq := (f.slice_seq cfg stale ip).readAt_eq
  have hpg := (f.slice_pg cfg stale ip).readAt_eq
  have hflow := (f.slice_flowIdBytes cfg getInt stale ip).readAt_eq
  have hih := (f.slice_ihBytes cfg stale ip).readAt_eq
  have hihlen : ((f.intField cfg stale).take (IntHeader.wireBytes cfg)).length =
      IntHeader.wireBytes cfg := by
    rw [List.length_take, intField_length]
    exact Nat.min_eq_left (IntHeader.wireBytes_le cfg)
  have hver' : decodeBE [0x45] = 0x45 := by decide
  have hprot' : decodeBE [UInt8.ofNat ip.protocol] = 0x11 := by rw [hprot]; decide
  rw [hihlen] at hih
  simp only [List.length_singleton, encodeBE_length, flowIdBytes_length] at *
  simp only [CustomHeader.deserialize, IntHeader.deserialize, hppp, hver, htos, hid, hproto, hsip,
    hdip, hver', hprot', Option.bind_eq_bind, Option.bind_some, Option.pure_def]
  have hseq8 : decodeBE (encodeBE 8 f.seq.toNat) = f.seq.toNat :=
    decodeBE_encodeBE_of_lt f.seq.toNat_lt
  have h4 : ∀ x : UInt32, decodeBE (encodeBE 4 x.toNat) = x.toNat := fun x =>
    decodeBE_encodeBE_of_lt x.toNat_lt
  have h2 : ∀ x : UInt16, decodeBE (encodeBE 2 x.toNat) = x.toNat := fun x =>
    decodeBE_encodeBE_of_lt x.toNat_lt
  have h1 : decodeBE [UInt8.ofNat ip.tos] = (UInt8.ofNat ip.tos).toNat := by
    simp [decodeBE, decodeLE]
  have hprotocol : decodeBE (encodeBE 2 0x0021) = 0x0021 := by decide
  cases getInt with
  | false =>
      simp only [Bool.false_eq_true, if_false] at hflow
      simp [hsport, hdport, hseq, hpg, hseq8, h4, h2, h1, hprotocol, hident, hsrc, hdst, hflow,
        received]
  | true =>
      simp only [if_true] at hflow
      simp [hsport, hdport, hseq, hpg, hseq8, h4, h2, h1, hprotocol, hident, hsrc, hdst, hflow, hih,
        received]

/-! ### The flow id -/

theorem intField_eq : f.intField cfg stale =
    match cfg.mode with
    | .none => []
    | .normal => List.replicate 42 0
    | .ts => encodeLE 8 f.now.toNat
    | .pint => [0, if cfg.pintOneByte then stale else 0] := by
  obtain ⟨mode, pintOneByte, multi⟩ := cfg
  cases mode with
  | none => rfl
  | normal => rfl
  | ts =>
      simp [intField, IntHeader.serialize, IntHeader.initial, IntHeader.wireBytes,
        IntHeader.getStaticSize]
  | pint => cases pintOneByte <;> rfl

theorem decodeBE_shifted (b : UInt8) {n : Nat} (h : n < 2 ^ 32) :
    decodeBE (([0, b] ++ encodeBE 4 n).take 4) = b.toNat * 2 ^ 16 + n / 2 ^ 16 := by
  have hhigh : n / 2 ^ 16 < 2 ^ 16 := Nat.div_lt_of_lt_mul h
  simp [encodeBE, encodeLE, decodeBE, decodeLE]
  omega

theorem flowId_readable_iff :
    decodeBE (f.flowIdBytes cfg getInt stale) = f.mscclFlowId.toNat ↔
      f.FlowIdReadable cfg getInt stale := by
  have hlt := f.mscclFlowId.toNat_lt
  have hself : decodeBE (encodeBE 4 f.mscclFlowId.toNat) = f.mscclFlowId.toNat :=
    decodeBE_encodeBE_of_lt hlt
  have hzero : f.mscclFlowId = 0 ↔ f.mscclFlowId.toNat = 0 := by
    rw [← UInt32.toNat_inj]
    rfl
  cases getInt with
  | false =>
      rw [flowIdBytes, if_neg Bool.false_ne_true]
      exact iff_of_true hself fun h => absurd h Bool.false_ne_true
  | true =>
      rw [flowIdBytes, if_pos rfl, FlowIdReadable, intField_eq, forall_prop_of_true rfl]
      cases cfg.mode with
      | none =>
          rw [List.nil_append, List.take_of_length_le (by simp)]
          exact iff_of_true hself trivial
      | normal =>
          have hread : decodeBE ((List.replicate 42 0 ++ encodeBE 4 f.mscclFlowId.toNat).take 4) =
              0 := by
            rw [List.take_append_of_le_length (by simp)]
            decide
          show decodeBE ((List.replicate 42 0 ++ encodeBE 4 f.mscclFlowId.toNat).take 4) = _ ↔ _
          rw [hread, hzero]
          exact eq_comm
      | ts =>
          show decodeBE ((encodeLE 8 f.now.toNat ++ encodeBE 4 f.mscclFlowId.toNat).take 4) = _ ↔ _
          rw [List.take_append_of_le_length (by simp)]
          exact eq_comm
      | pint =>
          show decodeBE (([0, if cfg.pintOneByte then stale else 0] ++
            encodeBE 4 f.mscclFlowId.toNat).take 4) = _ ↔ _
          have hstale := stale.toNat_lt
          rw [decodeBE_shifted _ hlt]
          by_cases hone : cfg.pintOneByte = true
          · rw [if_pos hone, if_pos hone]
            omega
          · rw [if_neg hone, if_neg hone, hzero, UInt8.toNat_zero]
            omega

/-- What the receiver recovers is what was sent exactly when the flow id can be read where the INT
field starts. -/
theorem codecAgrees_iff :
    f.CodecAgrees cfg getInt stale ↔ f.FlowIdReadable cfg getInt stale := by
  have hread := f.deserialize_packetWith cfg getInt stale (f.ipv4Header cfg stale) rfl rfl rfl rfl
  rw [← flowId_readable_iff]
  constructor
  · rintro ⟨ch, hch, hrec⟩
    have hrec := hrec.mscclFlowId
    rw [packet, hread, Option.some_inj] at hch
    rwa [← hch] at hrec
  · intro hflow
    have hlen := f.packetWith_length cfg stale (f.ipv4Header cfg stale)
    have hheader : CustomHeader.getSerializedSize cfg = 56 + IntHeader.getStaticSize cfg := by
      rw [CustomHeader.getSerializedSize]
      omega
    refine ⟨_, hread, rfl, rfl, rfl, rfl, rfl, rfl, hflow, ?_, ?_⟩
    · rw [headerLength, packet, hlen, hheader]
      omega
    · rw [packet, hlen, hheader]
      omega

/-- A packet of flow 7 whose INT field is in mode NORMAL is read as one of flow 0. -/
theorem normalFlow_not_codecAgrees :
    ¬ (∀ (cfg : IntConfig) (getInt : Bool) (stale : UInt8) (f : PacketFields),
      f.CodecAgrees cfg getInt stale) := by
  intro hall
  have hagrees := hall ⟨.normal, false, 1⟩ true 0
    ⟨1, 2, 10000, 100, 3, 0, false, 0, 7, 0, []⟩
  obtain ⟨ch, hch, hrec⟩ := hagrees
  have hsome : (CustomHeader.deserialize ⟨.normal, false, 1⟩ true
      (packet ⟨.normal, false, 1⟩ 0 ⟨1, 2, 10000, 100, 3, 0, false, 0, 7, 0, []⟩)).map
        (·.mscclFlowId) = some 0 := by decide
  rw [hch, Option.map_some, Option.some_inj, hrec.mscclFlowId] at hsome
  exact absurd hsome (by decide)

end PacketFields

end CollectiveSim.Header
