import Mathlib
import CollectiveSim.Header.CustomHeader

/-!
# Telemetry on the path

`SwitchNode::SwitchNotifyDequeue` casts the packet memory behind the PPP, IP and UDP headers and six
bytes of the sequence header to an `IntHeader`, and the receiver reads the INT field behind ten.
-/

namespace CollectiveSim.Header

open Framework

/-- What one switch brings to the update: whether it marks congestion, the arguments of `PushHop`, and
the power that `Pint::encode_u` returns. -/
structure SwitchHop where
  congested : Bool
  time : UInt64
  txBytes : UInt64
  qlen : UInt32
  rate : UInt64
  power : UInt16

/-- Take off the PPP and IPv4 headers, set the ECN bits, and put both on again. -/
def markCongestion (buf : List UInt8) : Option (List UInt8) := do
  let ppp ← readAt buf 0 2
  let h ← Ipv4Header.parse (buf.drop 14)
  return pppBytes (decodeBE ppp) ++ (h.setEcn 0x03).bytes ++ buf.drop (14 + 20)

section

variable (cfg : IntConfig) (ccMode : Nat)

/-- The update by congestion control mode, on the `IntHeader` at position `base`. -/
def updateInt (base : Nat) (hop : SwitchHop) (buf : List UInt8) : List UInt8 :=
  if ccMode = 3 then
    IntHeader.pushHop cfg base hop.time.toNat hop.txBytes.toNat hop.qlen.toNat hop.rate.toNat buf
  else if ccMode = 10 then
    if hop.power.toNat > IntHeader.getPower cfg base buf then
      IntHeader.setPower cfg base hop.power.toNat buf
    else buf
  else buf

/-- `SwitchNode::SwitchNotifyDequeue` on the packet memory. -/
def switchNotifyDequeue (hop : SwitchHop) (buf : List UInt8) : Option (List UInt8) := do
  let buf ← if hop.congested then markCongestion buf else some buf
  let l3Prot ← readAt buf (14 + 9) 1
  return if decodeBE l3Prot = 0x11 then updateInt cfg ccMode (14 + 20 + 8 + 6) hop buf else buf

/-- The packet memory behind the switches of a path. -/
def traverse (path : List SwitchHop) (buf : List UInt8) : Option (List UInt8) :=
  path.foldlM (fun buf hop => switchNotifyDequeue cfg ccMode hop buf) buf

/-- Only the INT field and the ECN bits, which are the low two of byte 15, may differ. -/
structure Undisturbed (sent arrived : List UInt8) : Prop where
  length : arrived.length = sent.length
  bytes : ∀ i, i < 52 ∨ 52 + IntHeader.getStaticSize cfg ≤ i → i ≠ 15 → arrived[i]? = sent[i]?
  dscp : arrived[15]?.map (·.toNat / 2 ^ 2) = sent[15]?.map (·.toNat / 2 ^ 2)

namespace PacketFields

variable (stale : UInt8) (f : PacketFields)

/-- What the switches wrote: an `IntHeader` of its own to which the same updates are made. -/
def recorded (path : List SwitchHop) : List UInt8 :=
  path.foldl (fun memory hop => updateInt cfg ccMode 0 hop memory)
    (IntHeader.initial cfg f.now.toNat)

/-- The path changes nothing but telemetry, and the receiver decodes what was recorded. -/
def TelemetryOnly (path : List SwitchHop) : Prop :=
  ∃ arrived, traverse cfg ccMode path (f.packet cfg stale) = some arrived ∧
    Undisturbed cfg (f.packet cfg stale) arrived ∧
    ∃ ch, CustomHeader.deserialize cfg true arrived = some ch ∧
      ch.ih = some ((f.recorded cfg ccMode path).take (IntHeader.wireBytes cfg))

/-- The switch has nothing to write: no hop record in mode NORMAL, and in mode PINT either power zero
or a one-byte power that is zero after truncation, over a zero byte of the sequence number. -/
def Quiet (hop : SwitchHop) : Prop :=
  (ccMode = 3 → cfg.mode ≠ .normal) ∧
  (ccMode = 10 → cfg.mode = .pint → hop.power.toNat = 0 ∨
    (cfg.pintOneByte = true ∧ hop.power.toNat % 2 ^ 8 = 0 ∧ f.seq.toNat / 2 ^ 8 % 2 ^ 8 = 0))

end PacketFields

end

/-! ### The ECN mark -/

/-- The fields fit their widths and the header is not of a fragment. -/
structure Ipv4Header.Fits (ip : Ipv4Header) : Prop where
  tos : ip.tos < 2 ^ 8
  payloadSize : ip.payloadSize < 2 ^ 16
  identification : ip.identification < 2 ^ 16
  dontFragment : ip.dontFragment = false
  moreFragments : ip.moreFragments = false
  fragmentOffset : ip.fragmentOffset = 0
  ttl : ip.ttl < 2 ^ 8
  protocol : ip.protocol < 2 ^ 8
  source : ip.source < 2 ^ 32
  destination : ip.destination < 2 ^ 32

theorem Ipv4Header.parse_bytes {ip : Ipv4Header} (h : ip.Fits) (rest : List UInt8) :
    Ipv4Header.parse (ip.bytes ++ rest) = some ip := by
  obtain ⟨tos, payloadSize, identification, df, mf, fragmentOffset, ttl, protocol, src, dst⟩ := ip
  have htos := h.tos
  have hsize := h.payloadSize
  have hid := h.identification
  have hdf := h.dontFragment
  have hmf := h.moreFragments
  have hfrag := h.fragmentOffset
  have httl := h.ttl
  have hprot := h.protocol
  have hsrc := h.source
  have hdst := h.destination
  simp only at htos hsize hid hdf hmf hfrag httl hprot hsrc hdst
  subst hdf hmf hfrag
  simp [Ipv4Header.parse, Ipv4Header.bytes, readAt, encodeBE, encodeLE, decodeBE, decodeLE, u16]
  omega

namespace PacketFields

variable (cfg : IntConfig) (stale : UInt8) (f : PacketFields)

/-- The packet with another type of service. -/
def packetTos (tos : Nat) : List UInt8 :=
  f.packetWith cfg stale { f.ipv4Header cfg stale with tos := tos }

theorem packet_eq_packetTos :
    f.packet cfg stale = f.packetTos cfg stale (if f.nvlsEnable then 4 else 0) := rfl

theorem packetTos_fits {tos : Nat} (h : tos < 2 ^ 8) :
    Ipv4Header.Fits { f.ipv4Header cfg stale with tos := tos } where
  tos := h
  payloadSize := Nat.mod_lt _ (Nat.two_pow_pos 16)
  identification := f.ipid.toNat_lt
  dontFragment := rfl
  moreFragments := rfl
  fragmentOffset := rfl
  ttl := by
    show 64 < 2 ^ 8
    decide
  protocol := by
    show 0x11 < 2 ^ 8
    decide
  source := f.sip.toNat_lt
  destination := f.dip.toNat_lt

theorem exists_packetTos_eq : ∃ pre post : List UInt8, pre.length = 15 ∧
    ∀ tos, f.packetTos cfg stale tos = pre ++ UInt8.ofNat tos :: post := by
  refine ⟨pppBytes 0x0021 ++ [0x45], (Ipv4Header.bytes (f.ipv4Header cfg stale)).drop 2 ++
    f.udpAndPayload cfg stale, by simp [pppBytes], fun tos => ?_⟩
  simp [packetTos, packetWith, Ipv4Header.bytes]

@[simp] theorem packetTos_length (tos : Nat) : (f.packetTos cfg stale tos).length =
    56 + IntHeader.getStaticSize cfg + f.payload.length :=
  f.packetWith_length cfg stale _

theorem packetTos_getElem? {i : Nat} (h : i ≠ 15) (tos tos' : Nat) :
    (f.packetTos cfg stale tos)[i]? = (f.packetTos cfg stale tos')[i]? := by
  obtain ⟨pre, post, hlen, heq⟩ := f.exists_packetTos_eq cfg stale
  rw [heq, heq]
  apply getElem?_append_cons_of_ne
  rwa [hlen]

theorem packetTos_tos (tos : Nat) : (f.packetTos cfg stale tos)[15]? = some (UInt8.ofNat tos) := by
  obtain ⟨pre, post, hlen, heq⟩ := f.exists_packetTos_eq cfg stale
  rw [heq, ← hlen]
  simp

theorem markCongestion_packetTos {tos : Nat} (h : tos < 2 ^ 8) :
    markCongestion (f.packetTos cfg stale tos) =
      some (f.packetTos cfg stale (tos / 2 ^ 2 % 2 ^ 6 * 2 ^ 2 + 3)) := by
  have hppp := (f.slice_ppp cfg stale { f.ipv4Header cfg stale with tos := tos }).readAt_eq
  have hdrop : ((f.packetTos cfg stale tos).drop 14) =
      Ipv4Header.bytes { f.ipv4Header cfg stale with tos := tos } ++ f.udpAndPayload cfg stale := by
    rw [packetTos, packetWith, List.append_assoc, List.drop_left' (by simp [pppBytes])]
  have hrest : ((f.packetTos cfg stale tos).drop (14 + 20)) = f.udpAndPayload cfg stale := by
    rw [← List.drop_drop, hdrop, List.drop_left' (by simp)]
  have hparse := Ipv4Header.parse_bytes (f.packetTos_fits cfg stale h) (f.udpAndPayload cfg stale)
  rw [encodeBE_length] at hppp
  have hproto : decodeBE (encodeBE 2 0x0021) = 0x0021 := by decide
  rw [markCongestion, hdrop, hrest, hparse, packetTos, hppp]
  simp only [Option.bind_eq_bind, Option.bind_some, Option.pure_def, hproto]
  rfl

theorem switchNotifyDequeue_packetTos (ccMode : Nat) (hop : SwitchHop) {tos : Nat}
    (h : tos < 2 ^ 8) :
    switchNotifyDequeue cfg ccMode hop (f.packetTos cfg stale tos) =
      some (updateInt cfg ccMode 48 hop (f.packetTos cfg stale
        (if hop.congested then tos / 2 ^ 2 % 2 ^ 6 * 2 ^ 2 + 3 else tos))) := by
  have hl3 (tos : Nat) : readAt (f.packetTos cfg stale tos) (14 + 9) 1 = some [0x11] :=
    (f.slice_ipField cfg stale _ (Ipv4Header.slices _).2.2.2.1).readAt_eq
  have hudp : decodeBE [0x11] = 0x11 := by decide
  rw [switchNotifyDequeue]
  by_cases hmark : hop.congested = true
  · rw [if_pos hmark, if_pos hmark, markCongestion_packetTos cfg stale f h]
    simp only [Option.bind_eq_bind, Option.bind_some, Option.pure_def, hl3, hudp, if_true]
  · rw [if_neg hmark, if_neg hmark]
    simp only [Option.bind_eq_bind, Option.bind_some, Option.pure_def, hl3, hudp, if_true]

/-! ### Quiet updates -/

section

variable (ccMode : Nat)

theorem packetTos_seqByte (tos : Nat) :
    (f.packetTos cfg stale tos)[48]? = some (UInt8.ofNat (f.seq.toNat / 2 ^ 8)) := by
  have hseq := (f.slice_seq cfg stale { f.ipv4Header cfg stale with tos := tos }).readAt_eq
  have hbyte := readAt_getElem? hseq (i := 6) (by simp)
  rw [packetTos, ← hbyte, encodeBE, List.getElem?_reverse (by simp)]
  simp [encodeLE]

theorem packetTos_int {i : Nat} (hi : i < IntHeader.getStaticSize cfg) (tos : Nat) :
    (f.packetTos cfg stale tos)[52 + i]? = (f.intField cfg stale)[i]? := by
  have hint := (f.slice_int cfg stale { f.ipv4Header cfg stale with tos := tos }).readAt_eq
  have hbyte := readAt_getElem? hint (i := i) (by simp; omega)
  rw [packetTos, ← hbyte, List.append_assoc, List.getElem?_append_left (by simpa)]

theorem updateInt_eq_self {base : Nat} {hop : SwitchHop} {buf : List UInt8}
    (hnormal : ccMode = 3 → cfg.mode ≠ .normal)
    (hpower : ccMode = 10 → cfg.mode = .pint → hop.power.toNat = 0 ∨
      (cfg.pintOneByte = true ∧ hop.power.toNat % 2 ^ 8 = 0 ∧ buf[base]? = some 0)) :
    updateInt cfg ccMode base hop buf = buf := by
  rw [updateInt]
  by_cases hhpcc : ccMode = 3
  · have hmode := hnormal hhpcc
    rw [if_pos hhpcc, IntHeader.pushHop]
    cases hcfg : cfg.mode with
    | normal => exact absurd hcfg hmode
    | _ => rfl
  rw [if_neg hhpcc]
  by_cases hpint : ccMode = 10
  · rw [if_pos hpint]
    by_cases hgt : hop.power.toNat > IntHeader.getPower cfg base buf
    · rw [if_pos hgt, IntHeader.setPower]
      cases hcfg : cfg.mode with
      | pint =>
          rcases hpower hpint hcfg with hzero | ⟨hone, hlow, hbyte⟩
          · omega
          · have hwire : IntHeader.wireBytes cfg = 1 := by
              rw [IntHeader.wireBytes_of_pint hcfg, if_pos hone]
            have hbyteZero : UInt8.ofNat hop.power.toNat = 0 := by
              rw [← UInt8.toNat_inj, UInt8.toNat_ofNat', hlow]
              rfl
            have hzero : encodeLE 1 hop.power.toNat = [0] := by
              rw [encodeLE, encodeLE, hbyteZero]
            rw [hwire, hzero]
            apply patch_eq_self
            intro i hi
            obtain rfl : i = 0 := Nat.lt_one_iff.mp hi
            exact hbyte
      | _ => rfl
    · rw [if_neg hgt]
  · rw [if_neg hpint]

theorem Quiet.updateInt_packetTos {hop : SwitchHop} (h : f.Quiet cfg ccMode hop) (tos : Nat) :
    updateInt cfg ccMode 48 hop (f.packetTos cfg stale tos) = f.packetTos cfg stale tos := by
  apply updateInt_eq_self cfg ccMode h.1
  intro hpint hcfg
  refine (h.2 hpint hcfg).imp_right fun ⟨hone, hlow, hbyte⟩ => ⟨hone, hlow, ?_⟩
  rw [packetTos_seqByte, Option.some_inj, ← UInt8.toNat_inj, UInt8.toNat_ofNat', hbyte]
  rfl

theorem Quiet.updateInt_initial {hop : SwitchHop} (h : f.Quiet cfg ccMode hop) (now : Nat) :
    updateInt cfg ccMode 0 hop (IntHeader.initial cfg now) = IntHeader.initial cfg now := by
  apply updateInt_eq_self cfg ccMode h.1
  intro hpint hcfg
  refine (h.2 hpint hcfg).imp_right fun ⟨hone, hlow, _⟩ => ⟨hone, hlow, ?_⟩
  rw [IntHeader.initial, hcfg]
  rfl

theorem initial_power (hcfg : cfg.mode = .pint) (now : Nat) :
    decodeLE ((IntHeader.initial cfg now).take (IntHeader.wireBytes cfg)) = 0 := by
  rw [IntHeader.initial, IntHeader.wireBytes_of_pint hcfg, hcfg]
  cases cfg.pintOneByte <;> rfl

theorem updateInt_initial_power (hcfg : cfg.mode = .pint) (hop : SwitchHop) (now : Nat) :
    decodeLE ((updateInt cfg 10 0 hop (IntHeader.initial cfg now)).take (IntHeader.wireBytes cfg)) =
      hop.power.toNat % 2 ^ (8 * IntHeader.wireBytes cfg) := by
  have hzero := initial_power cfg hcfg now
  have hpower : IntHeader.getPower cfg 0 (IntHeader.initial cfg now) = 0 := by
    rw [IntHeader.getPower, hcfg]
    exact hzero
  rw [updateInt, if_neg (by decide), if_pos rfl, hpower]
  by_cases hgt : hop.power.toNat > 0
  · have htake : ((IntHeader.setPower cfg 0 hop.power.toNat (IntHeader.initial cfg now)).take
        (IntHeader.wireBytes cfg)) = encodeLE (IntHeader.wireBytes cfg) hop.power.toNat := by
      have hle := IntHeader.wireBytes_le cfg
      have hmax := IntHeader.getStaticSize_le cfg
      rw [IntHeader.setPower, hcfg]
      apply take_patch_zero (encodeLE_length _ _)
      rw [IntHeader.initial_length]
      omega
    rw [if_pos hgt, htake, decodeLE_encodeLE]
  · have hpower : hop.power.toNat = 0 := by omega
    rw [if_neg hgt, hzero, hpower, Nat.zero_mod]

theorem intField_take : (f.intField cfg stale).take (IntHeader.wireBytes cfg) =
    (IntHeader.initial cfg f.now.toNat).take (IntHeader.wireBytes cfg) := by
  have hle := IntHeader.wireBytes_le cfg
  have hmax := IntHeader.getStaticSize_le cfg
  have hlen : ((IntHeader.initial cfg f.now.toNat).take (IntHeader.wireBytes cfg)).length =
      IntHeader.wireBytes cfg := by
    rw [List.length_take, IntHeader.initial_length]
    omega
  rw [intField, IntHeader.serialize, List.take_left' hlen]

theorem recorded_concat (path : List SwitchHop) (hop : SwitchHop) :
    f.recorded cfg ccMode (path ++ [hop]) = updateInt cfg ccMode 0 hop (f.recorded cfg ccMode path) := by
  rw [recorded, List.foldl_append]
  rfl

theorem traverse_of_quiet {path : List SwitchHop} (h : ∀ hop ∈ path, f.Quiet cfg ccMode hop) :
    f.recorded cfg ccMode path = IntHeader.initial cfg f.now.toNat ∧
    ∃ tos, tos < 2 ^ 8 ∧ tos / 2 ^ 2 = (if f.nvlsEnable then 4 else 0) / 2 ^ 2 ∧
      traverse cfg ccMode path (f.packet cfg stale) = some (f.packetTos cfg stale tos) := by
  induction path using List.reverseRecOn with
  | nil =>
      refine ⟨rfl, _, ?_, rfl, rfl⟩
      cases f.nvlsEnable <;> decide
  | append_singleton path hop ih =>
      obtain ⟨hrec, tos, htos, hdscp, htrav⟩ := ih fun hop hmem => h hop (by simp [hmem])
      have hquiet := h hop (by simp)
      have hmark : tos / 2 ^ 2 % 2 ^ 6 * 2 ^ 2 + 3 < 2 ^ 8 ∧
          (tos / 2 ^ 2 % 2 ^ 6 * 2 ^ 2 + 3) / 2 ^ 2 = tos / 2 ^ 2 := by omega
      refine ⟨?_, if hop.congested then tos / 2 ^ 2 % 2 ^ 6 * 2 ^ 2 + 3 else tos, ?_, ?_, ?_⟩
      · rw [recorded_concat, hrec, hquiet.updateInt_initial]
      · by_cases hc : hop.congested = true
        · rw [if_pos hc]
          exact hmark.1
        · rwa [if_neg hc]
      · by_cases hc : hop.congested = true
        · rw [if_pos hc, hmark.2, hdscp]
        · rwa [if_neg hc]
      · rw [traverse, List.foldlM_append]
        rw [traverse] at htrav
        rw [htrav]
        simp only [Option.bind_eq_bind, Option.bind_some, List.foldlM_cons, List.foldlM_nil,
          switchNotifyDequeue_packetTos cfg stale f ccMode hop htos,
          hquiet.updateInt_packetTos, Option.pure_def]

theorem undisturbed_packetTos {tos : Nat} (htos : tos < 2 ^ 8)
    (hdscp : tos / 2 ^ 2 = (if f.nvlsEnable then 4 else 0) / 2 ^ 2) :
    Undisturbed cfg (f.packet cfg stale) (f.packetTos cfg stale tos) where
  length := by rw [packet_eq_packetTos, packetTos_length, packetTos_length]
  bytes i _ hi := by
    rw [packet_eq_packetTos]
    exact f.packetTos_getElem? cfg stale hi _ _
  dscp := by
    have hsent : (if f.nvlsEnable then 4 else 0) < 2 ^ 8 := by
      cases f.nvlsEnable <;> decide
    rw [packet_eq_packetTos, packetTos_tos, packetTos_tos, Option.map_some, Option.map_some,
      UInt8.toNat_ofNat', UInt8.toNat_ofNat', Nat.mod_eq_of_lt htos, Nat.mod_eq_of_lt hsent, hdscp]

theorem telemetryOnly_of_quiet {path : List SwitchHop} (h : ∀ hop ∈ path, f.Quiet cfg ccMode hop) :
    f.TelemetryOnly cfg ccMode stale path := by
  obtain ⟨hrec, tos, htos, hdscp, htrav⟩ := f.traverse_of_quiet cfg stale ccMode h
  have hread := f.deserialize_packetWith cfg true stale
    { f.ipv4Header cfg stale with tos := tos } rfl rfl rfl rfl
  refine ⟨_, htrav, f.undisturbed_packetTos cfg stale htos hdscp, _, hread, ?_⟩
  rw [hrec, ← f.intField_take cfg stale]
  rfl

/-! ### Updates with something to write -/

theorem updateInt_getElem?_of_le (hop : SwitchHop) (buf : List UInt8) {base i : Nat}
    (hi : base + (if cfg.mode = .normal then 42 else 2) ≤ i) :
    (updateInt cfg ccMode base hop buf)[i]? = buf[i]? := by
  rw [updateInt]
  by_cases hhpcc : ccMode = 3
  · rw [if_pos hhpcc, IntHeader.pushHop]
    cases hcfg : cfg.mode with
    | normal =>
        rw [if_pos hcfg] at hi
        have hslot (n : Nat) : n % maxHop < 5 := Nat.mod_lt _ (by decide)
        have hidx := hslot (decodeLE ((buf.drop (base + 40)).take 2))
        show (patch (patch _ _ _) _ _)[i]? = _
        rw [patch_getElem?_of_not_mem, patch_getElem?_of_not_mem]
        · right
          rw [encodeLE_length]
          omega
        · right
          rw [encodeLE_length]
          omega
    | _ => rfl
  rw [if_neg hhpcc]
  by_cases hpint : ccMode = 10
  · rw [if_pos hpint]
    by_cases hgt : hop.power.toNat > IntHeader.getPower cfg base buf
    · rw [if_pos hgt, IntHeader.setPower]
      cases hcfg : cfg.mode with
      | pint =>
          rw [hcfg, if_neg (by decide)] at hi
          have hwire : IntHeader.wireBytes cfg ≤ 2 := by
            rw [IntHeader.wireBytes_of_pint hcfg]
            cases cfg.pintOneByte <;> decide
          apply patch_getElem?_of_not_mem
          right
          rw [encodeLE_length]
          omega
      | _ => rfl
    · rw [if_neg hgt]
  · rw [if_neg hpint]

theorem updateInt_initial_nhop (hcfg : cfg.mode = .normal) (hop : SwitchHop) (now : Nat) :
    (updateInt cfg 3 0 hop (IntHeader.initial cfg now))[40]? = some 1 := by
  have hnhop : decodeLE (((IntHeader.initial cfg now).drop (0 + 40)).take 2) = 0 := by
    rw [IntHeader.initial, hcfg]
    rfl
  rw [updateInt, if_pos rfl, IntHeader.pushHop, hcfg]
  simp only [hnhop]
  have hpatch (buf : List UInt8) (hbuf : buf.length = 42) :
      (patch buf (0 + 40) (encodeLE 2 (0 + 1)))[0 + 40 + 0]? = (encodeLE 2 (0 + 1))[0]? :=
    patch_getElem?_of_mem (by decide) (by omega)
  exact hpatch _ (by simp)

/-- A one-byte power of zero after truncation exceeds every byte, and clears the one it is compared
with. -/
theorem updateInt_power_overwrites (hcfg : cfg.mode = .pint) (hone : cfg.pintOneByte = true)
    {hop : SwitchHop} (hlow : hop.power.toNat % 2 ^ 8 = 0) (hzero : hop.power.toNat ≠ 0) {tos : Nat} :
    (updateInt cfg 10 48 hop (f.packetTos cfg stale tos))[48]? = some 0 := by
  have hwire : IntHeader.wireBytes cfg = 1 := by
    rw [IntHeader.wireBytes_of_pint hcfg, if_pos hone]
  have hlt : IntHeader.getPower cfg 48 (f.packetTos cfg stale tos) < 2 ^ 8 := by
    have hbound := decodeLE_lt (((f.packetTos cfg stale tos).drop 48).take 1)
    have hlen : (((f.packetTos cfg stale tos).drop 48).take 1).length = 1 := by
      simp
      omega
    rw [hlen] at hbound
    rw [IntHeader.getPower, hcfg, hwire]
    exact hbound
  have hgt : hop.power.toNat > IntHeader.getPower cfg 48 (f.packetTos cfg stale tos) := by omega
  have hpatch : (patch (f.packetTos cfg stale tos) 48 (encodeLE 1 hop.power.toNat))[48 + 0]? =
      (encodeLE 1 hop.power.toNat)[0]? := patch_getElem?_of_mem (by simp) (by simp; omega)
  rw [updateInt, if_neg (by decide), if_pos rfl, if_pos hgt, IntHeader.setPower, hcfg, hwire]
  refine hpatch.trans ?_
  simp only [encodeLE, List.getElem?_cons_zero, Option.some_inj]
  rw [← UInt8.toNat_inj, UInt8.toNat_ofNat', hlow]
  rfl

theorem ih_getElem? {hop : SwitchHop} {tos : Nat} {ch : CustomHeader} {int : List UInt8}
    (hundist : Undisturbed cfg (f.packet cfg stale)
      (updateInt cfg ccMode 48 hop (f.packetTos cfg stale tos)))
    (hch : CustomHeader.deserialize cfg true
      (updateInt cfg ccMode 48 hop (f.packetTos cfg stale tos)) = some ch)
    (hih : ch.ih = some int) {i : Nat} (hi : i < IntHeader.wireBytes cfg)
    (hlow : cfg.mode = .normal → 38 ≤ i) :
    int[i]? = (IntHeader.initial cfg f.now.toNat)[i]? := by
  have hle := IntHeader.wireBytes_le cfg
  have hver : (updateInt cfg ccMode 48 hop (f.packetTos cfg stale tos))[14]? = some 0x45 := by
    rw [hundist.bytes 14 (by omega) (by decide)]
    have hread := (f.slice_ipField cfg stale _ (Ipv4Header.slices (f.ipv4Header cfg stale)).1).readAt_eq
    exact (readAt_getElem? hread (i := 0) (by decide)).symm
  have hread := (CustomHeader.deserialize_ih hch hver).symm.trans hih
  rw [readAt_getElem? hread hi, updateInt_getElem?_of_le, packetTos_int cfg stale f (by omega)]
  · rw [← List.getElem?_take_of_lt hi, intField_take, List.getElem?_take_of_lt hi]
  · by_cases hcfg : cfg.mode = .normal
    · have hlow := hlow hcfg
      rw [if_pos hcfg]
      omega
    · rw [if_neg hcfg]
      omega

/-- The first switch of a path that has something to write leaves its mark in the wrong place. -/
theorem quiet_of_telemetryOnly_concat {path : List SwitchHop} {hop : SwitchHop}
    (hpath : ∀ hop ∈ path, f.Quiet cfg ccMode hop)
    (h : f.TelemetryOnly cfg ccMode stale (path ++ [hop])) : f.Quiet cfg ccMode hop := by
  obtain ⟨hrec, tos, htos, -, htrav⟩ := f.traverse_of_quiet cfg stale ccMode hpath
  obtain ⟨arrived, harr, hundist, ch, hch, hih⟩ := h
  rw [traverse] at htrav
  rw [traverse, List.foldlM_append, htrav] at harr
  simp only [Option.bind_eq_bind, Option.bind_some, List.foldlM_cons, List.foldlM_nil,
    switchNotifyDequeue_packetTos cfg stale f ccMode hop htos, Option.pure_def,
    Option.some_inj] at harr
  subst harr
  generalize (if hop.congested then tos / 2 ^ 2 % 2 ^ 6 * 2 ^ 2 + 3 else tos) = marked at *
  rw [recorded_concat, hrec] at hih
  have hread {i : Nat} (hi : i < IntHeader.wireBytes cfg) (hlow : cfg.mode = .normal → 38 ≤ i) :
      (updateInt cfg ccMode 0 hop (IntHeader.initial cfg f.now.toNat))[i]? =
        (IntHeader.initial cfg f.now.toNat)[i]? := by
    rw [← f.ih_getElem? cfg stale ccMode hundist hch hih hi hlow, List.getElem?_take_of_lt hi]
  constructor
  · rintro rfl hcfg
    have hnhop : (IntHeader.initial cfg f.now.toNat)[40]? = some 0 := by
      rw [IntHeader.initial, hcfg]
      rfl
    have hwire : 40 < IntHeader.wireBytes cfg := by
      rw [IntHeader.wireBytes_of_normal hcfg]
      decide
    have hone := updateInt_initial_nhop cfg hcfg hop f.now.toNat
    rw [hread hwire (by omega), hnhop] at hone
    exact absurd hone (by decide)
  · rintro rfl hcfg
    have hsame : (updateInt cfg 10 0 hop (IntHeader.initial cfg f.now.toNat)).take
        (IntHeader.wireBytes cfg) =
        (IntHeader.initial cfg f.now.toNat).take (IntHeader.wireBytes cfg) := by
      apply List.ext_getElem?
      intro i
      rw [List.getElem?_take, List.getElem?_take]
      by_cases hi : i < IntHeader.wireBytes cfg
      · rw [if_pos hi, if_pos hi, hread hi (by simp [hcfg])]
      · rw [if_neg hi, if_neg hi]
    have hpower := updateInt_initial_power cfg hcfg hop f.now.toNat
    rw [hsame, initial_power cfg hcfg] at hpower
    by_cases hzero : hop.power.toNat = 0
    · exact Or.inl hzero
    right
    have hlt := hop.power.toNat_lt
    by_cases hone : cfg.pintOneByte = true
    · -- the truncated power is zero, and it overwrites the byte of the sequence number
      have hwire : IntHeader.wireBytes cfg = 1 := by
        rw [IntHeader.wireBytes_of_pint hcfg, if_pos hone]
      rw [hwire] at hpower
      refine ⟨hone, hpower.symm, ?_⟩
      have hbyte := hundist.bytes 48 (by omega) (by decide)
      rw [updateInt_power_overwrites cfg stale f hcfg hone hpower.symm hzero,
        packet_eq_packetTos, packetTos_seqByte, Option.some_inj, ← UInt8.toNat_inj,
        UInt8.toNat_ofNat'] at hbyte
      exact hbyte.symm
    · rw [IntHeader.wireBytes_of_pint hcfg, if_neg hone] at hpower
      omega

/-- Along every path, telemetry is all that changes and all of it arrives exactly when the switches
have nothing to write. -/
theorem telemetryOnly_iff (path : List SwitchHop) :
    (∀ n, f.TelemetryOnly cfg ccMode stale (path.take n)) ↔
      ∀ hop ∈ path, f.Quiet cfg ccMode hop := by
  constructor
  · intro h
    induction path using List.reverseRecOn with
    | nil => simp
    | append_singleton path hop ih =>
        have hpath : ∀ hop ∈ path, f.Quiet cfg ccMode hop := by
          apply ih
          intro n
          by_cases hn : n ≤ path.length
          · have hprefix := h n
            rwa [List.take_append_of_le_length hn] at hprefix
          · have hprefix := h path.length
            rw [List.take_append_of_le_length (Nat.le_refl _), List.take_length] at hprefix
            rwa [List.take_of_length_le (by omega)]
        have hwhole := h (path ++ [hop]).length
        rw [List.take_length] at hwhole
        intro hop' hmem
        rcases List.mem_append.mp hmem with hmem | hmem
        · exact hpath hop' hmem
        · rw [List.mem_singleton.mp hmem]
          exact f.quiet_of_telemetryOnly_concat cfg stale ccMode hpath hwhole
  · intro h n
    exact f.telemetryOnly_of_quiet cfg stale ccMode fun hop hmem => h hop (List.mem_of_mem_take hmem)

/-- One HPCC switch in mode NORMAL. -/
theorem oneSwitch_not_telemetryOnly :
    ¬ (∀ (cfg : IntConfig) (ccMode : Nat) (stale : UInt8) (f : PacketFields)
      (path : List SwitchHop), ccMode = 3 ∨ ccMode = 10 →
        ∀ n, f.TelemetryOnly cfg ccMode stale (path.take n)) := by
  intro hall
  have hone := hall ⟨.normal, false, 1⟩ 3 0 ⟨1, 2, 10000, 100, 3, 0, false, 0, 7, 0, []⟩
    [⟨false, 1000, 0, 0, 100000000000, 0⟩] (Or.inl rfl) 1
  have hnone (f : PacketFields) : ∀ hop ∈ ([] : List SwitchHop), f.Quiet ⟨.normal, false, 1⟩ 3 hop := by
    simp
  have hquiet := quiet_of_telemetryOnly_concat _ _ _ _ (hnone _) hone
  exact hquiet.1 rfl rfl

end

end PacketFields

end CollectiveSim.Header
