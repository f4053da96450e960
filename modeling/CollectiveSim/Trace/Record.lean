import CollectiveSim.Trace.File

/-!
# What is recorded of packets

`QbbHelper::GetTraceFromPacket` fills a record on the stack from the headers of a packet. Bytes that
it does not assign keep what was in this memory before.
-/

namespace CollectiveSim.Trace

open Framework

/-- Members of `CustomHeader`; the one for the protocol of the packet is read. -/
structure PacketHeader where
  sip : UInt32
  dip : UInt32
  tos : UInt8
  l3Prot : UInt8
  tcpSport : UInt16
  tcpDport : UInt16
  udpSport : UInt16
  udpDport : UInt16
  udpPg : UInt16
  udpSeq : UInt64
  udpTs : UInt64
  ackSport : UInt16
  ackDport : UInt16
  ackFlags : UInt16
  ackPg : UInt16
  ackSeq : UInt64
  ackTs : UInt64
  pfcTime : UInt32
  pfcQlen : UInt32
  pfcQIndex : UInt8
  cnpFid : UInt16
  cnpQIndex : UInt8
  cnpQfb : UInt16
  cnpEcnBits : UInt8
  cnpTotal : UInt16

/-- One call: the packet, the device with its node and the bytes in the queue, and the memory of the
record. -/
structure PacketEvent where
  hdr : PacketHeader
  packetSize : Nat
  headerSize : Nat
  now : Nat
  nodeId : Nat
  nodeType : Nat
  ifIndex : Nat
  qidx : Nat
  nBytes : Nat
  event : Nat
  memory : TraceFormat

/-- Assignments to members, one after the other. -/
def assign (tr : TraceFormat) (assignments : List (Member × Nat)) : TraceFormat :=
  assignments.foldl (fun tr a => tr.set a.1 a.2) tr

/-- The switch on `l3Prot`. -/
def unionAssignments (e : PacketEvent) : List (Member × Nat) :=
  if e.hdr.l3Prot = 0x6 then
    [(.dataSport, e.hdr.tcpSport.toNat), (.dataDport, e.hdr.tcpDport.toNat)]
  else if e.hdr.l3Prot = 0x11 then
    [(.dataSport, e.hdr.udpSport.toNat), (.dataDport, e.hdr.udpDport.toNat),
      (.dataPayload, sub32 e.packetSize e.headerSize), (.dataSeq, e.hdr.udpSeq.toNat),
      (.dataTs, e.hdr.udpTs.toNat), (.dataPg, e.hdr.udpPg.toNat)]
  else if e.hdr.l3Prot = 0xFC ∨ e.hdr.l3Prot = 0xFD then
    [(.ackSport, e.hdr.ackSport.toNat), (.ackDport, e.hdr.ackDport.toNat),
      (.ackFlags, e.hdr.ackFlags.toNat), (.ackPg, e.hdr.ackPg.toNat),
      (.ackSeq, e.hdr.ackSeq.toNat), (.ackTs, e.hdr.ackTs.toNat)]
  else if e.hdr.l3Prot = 0xFE then
    [(.pfcTime, e.hdr.pfcTime.toNat), (.pfcQlen, e.hdr.pfcQlen.toNat),
      (.pfcQIndex, e.hdr.pfcQIndex.toNat)]
  else if e.hdr.l3Prot = 0xFF then
    [(.cnpFid, e.hdr.cnpFid.toNat), (.cnpQIndex, e.hdr.cnpQIndex.toNat),
      (.cnpQfb, e.hdr.cnpQfb.toNat), (.cnpEcnBits, e.hdr.cnpEcnBits.toNat),
      (.cnpTotal, e.hdr.cnpTotal.toNat)]
  else []

def commonAssignments (e : PacketEvent) : List (Member × Nat) :=
  [(.event, e.event), (.node, e.nodeId), (.nodeType, e.nodeType), (.intf, e.ifIndex),
    (.qidx, e.qidx), (.time, e.now), (.sip, e.hdr.sip.toNat), (.dip, e.hdr.dip.toNat),
    (.l3Prot, e.hdr.l3Prot.toNat), (.ecn, e.hdr.tos.toNat % 2 ^ 2)]

def getTraceFromPacket (e : PacketEvent) : TraceFormat :=
  assign e.memory (commonAssignments e ++ unionAssignments e ++
    [(.size, e.packetSize), (.qlen, e.nBytes)])

/-! ## Reading a member back -/

theorem assign_append (tr : TraceFormat) (as as' : List (Member × Nat)) :
    assign tr (as ++ as') = assign (assign tr as) as' :=
  List.foldl_append

theorem get_assign_of_disjoint {m : Member} {as : List (Member × Nat)}
    (h : ∀ a ∈ as, a.1.Disjoint m) (tr : TraceFormat) : (assign tr as).get m = tr.get m := by
  induction as generalizing tr with
  | nil => rfl
  | cons a as ih =>
      rw [assign, List.foldl_cons, ← assign, ih fun b hb => h b (List.mem_cons_of_mem a hb),
        tr.get_set_of_disjoint a.2 (h a List.mem_cons_self)]

theorem get_assign {m : Member} {x : Nat} {as : List (Member × Nat)} (hm : m.offset + m.width ≤ 56)
    (h : ∀ a ∈ as, a.1.Disjoint m) (tr : TraceFormat) :
    (assign tr ((m, x) :: as)).get m = x % 2 ^ (8 * m.width) := by
  rw [assign, List.foldl_cons, ← assign, get_assign_of_disjoint h, tr.get_set x hm]

theorem union_offset (e : PacketEvent) : ∀ a ∈ unionAssignments e, 32 ≤ a.1.offset := by
  rw [unionAssignments]
  split_ifs <;> simp [Member.dataSport, Member.dataDport, Member.dataPayload, Member.dataSeq,
    Member.dataTs, Member.dataPg, Member.ackSport, Member.ackDport, Member.ackFlags, Member.ackPg,
    Member.ackSeq, Member.ackTs, Member.pfcTime, Member.pfcQlen, Member.pfcQIndex, Member.cnpFid,
    Member.cnpQIndex, Member.cnpQfb, Member.cnpEcnBits, Member.cnpTotal]

theorem disjoint_union (e : PacketEvent) {m : Member} (hm : m.offset + m.width ≤ 32) :
    ∀ a ∈ unionAssignments e, a.1.Disjoint m := by
  intro a ha
  have hoffset := union_offset e a ha
  right
  omega

section Members

variable (e : PacketEvent)

theorem get_common {m : Member} {x : Nat} {before behind : List (Member × Nat)}
    (hsplit : commonAssignments e = before ++ (m, x) :: behind) (hm : m.offset + m.width ≤ 32)
    (hbehind : ∀ a ∈ behind, a.1.Disjoint m) (hsize : Member.size.Disjoint m)
    (hqlen : Member.qlen.Disjoint m) :
    (getTraceFromPacket e).get m = x % 2 ^ (8 * m.width) := by
  have hall : ∀ a ∈ behind ++ unionAssignments e ++ [(.size, e.packetSize), (.qlen, e.nBytes)],
      a.1.Disjoint m := by
    simp only [List.forall_mem_append, List.forall_mem_cons, List.not_mem_nil, false_implies,
      implies_true, and_true]
    exact ⟨⟨hbehind, disjoint_union e hm⟩, hsize, hqlen⟩
  rw [getTraceFromPacket, hsplit, List.append_assoc, List.append_assoc, assign_append,
    List.cons_append, ← List.append_assoc]
  exact get_assign (by omega) hall _

theorem get_sip : (getTraceFromPacket e).get .sip = e.hdr.sip.toNat := by
  have hsplit : commonAssignments e = (commonAssignments e).take 6 ++
      (.sip, e.hdr.sip.toNat) :: (commonAssignments e).drop 7 := rfl
  rw [get_common e hsplit (by decide) (by simp [commonAssignments]; decide) (by decide) (by decide)]
  exact Nat.mod_eq_of_lt e.hdr.sip.toNat_lt

theorem get_dip : (getTraceFromPacket e).get .dip = e.hdr.dip.toNat := by
  have hsplit : commonAssignments e = (commonAssignments e).take 7 ++
      (.dip, e.hdr.dip.toNat) :: (commonAssignments e).drop 8 := rfl
  rw [get_common e hsplit (by decide) (by simp [commonAssignments]; decide) (by decide) (by decide)]
  exact Nat.mod_eq_of_lt e.hdr.dip.toNat_lt

theorem get_l3Prot : (getTraceFromPacket e).get .l3Prot = e.hdr.l3Prot.toNat := by
  have hsplit : commonAssignments e = (commonAssignments e).take 8 ++
      (.l3Prot, e.hdr.l3Prot.toNat) :: (commonAssignments e).drop 9 := rfl
  rw [get_common e hsplit (by decide) (by simp [commonAssignments]; decide) (by decide) (by decide)]
  exact Nat.mod_eq_of_lt e.hdr.l3Prot.toNat_lt

theorem get_union {m : Member} {x : Nat} {before behind : List (Member × Nat)}
    (hsplit : unionAssignments e = before ++ (m, x) :: behind) (hm : m.offset + m.width ≤ 56)
    (hbehind : ∀ a ∈ behind, a.1.Disjoint m) (hsize : Member.size.Disjoint m)
    (hqlen : Member.qlen.Disjoint m) :
    (getTraceFromPacket e).get m = x % 2 ^ (8 * m.width) := by
  have hall : ∀ a ∈ behind ++ [(.size, e.packetSize), (.qlen, e.nBytes)], a.1.Disjoint m := by
    simp only [List.forall_mem_append, List.forall_mem_cons, List.not_mem_nil, false_implies,
      implies_true, and_true]
    exact ⟨hbehind, hsize, hqlen⟩
  rw [getTraceFromPacket, hsplit, List.append_assoc, assign_append, List.append_assoc,
    assign_append, List.cons_append]
  exact get_assign hm hall _

theorem unionAssignments_udp (h : e.hdr.l3Prot = 0x11) : unionAssignments e =
    [(.dataSport, e.hdr.udpSport.toNat), (.dataDport, e.hdr.udpDport.toNat),
      (.dataPayload, sub32 e.packetSize e.headerSize), (.dataSeq, e.hdr.udpSeq.toNat),
      (.dataTs, e.hdr.udpTs.toNat), (.dataPg, e.hdr.udpPg.toNat)] := by
  rw [unionAssignments, h, if_neg (by decide), if_pos rfl]

theorem unionAssignments_ack (h : e.hdr.l3Prot = 0xFC ∨ e.hdr.l3Prot = 0xFD) : unionAssignments e =
    [(.ackSport, e.hdr.ackSport.toNat), (.ackDport, e.hdr.ackDport.toNat),
      (.ackFlags, e.hdr.ackFlags.toNat), (.ackPg, e.hdr.ackPg.toNat),
      (.ackSeq, e.hdr.ackSeq.toNat), (.ackTs, e.hdr.ackTs.toNat)] := by
  have hne : e.hdr.l3Prot ≠ 0x6 ∧ e.hdr.l3Prot ≠ 0x11 := by
    rcases h with h | h <;> rw [h] <;> decide
  rw [unionAssignments, if_neg hne.1, if_neg hne.2, if_pos h]

theorem get_ports_udp (h : e.hdr.l3Prot = 0x11) :
    (getTraceFromPacket e).get .dataSport = e.hdr.udpSport.toNat ∧
      (getTraceFromPacket e).get .dataDport = e.hdr.udpDport.toNat := by
  have hunion := unionAssignments_udp e h
  constructor
  · rw [get_union e (hunion.trans (List.nil_append _).symm) (by decide) (by simp; decide) (by decide)
      (by decide)]
    exact Nat.mod_eq_of_lt e.hdr.udpSport.toNat_lt
  · have hsplit := hunion.trans (List.singleton_append).symm
    rw [get_union e hsplit (by decide) (by simp; decide) (by decide) (by decide)]
    exact Nat.mod_eq_of_lt e.hdr.udpDport.toNat_lt

theorem get_ports_ack (h : e.hdr.l3Prot = 0xFC ∨ e.hdr.l3Prot = 0xFD) :
    (getTraceFromPacket e).get .dataSport = e.hdr.ackSport.toNat ∧
      (getTraceFromPacket e).get .dataDport = e.hdr.ackDport.toNat := by
  have hunion := unionAssignments_ack e h
  constructor
  · show (getTraceFromPacket e).get .ackSport = _
    rw [get_union e (hunion.trans (List.nil_append _).symm) (by decide) (by simp; decide) (by decide)
      (by decide)]
    exact Nat.mod_eq_of_lt e.hdr.ackSport.toNat_lt
  · show (getTraceFromPacket e).get .ackDport = _
    have hsplit := hunion.trans (List.singleton_append).symm
    rw [get_union e hsplit (by decide) (by simp; decide) (by decide) (by decide)]
    exact Nat.mod_eq_of_lt e.hdr.ackDport.toNat_lt

end Members

/-! ## The packets of a flow -/

/-- Data packets of a flow, and ACKs and NACKs that go its way. -/
structure PacketHeader.InFlow (hdr : PacketHeader) (sip dip sport dport : Nat) : Prop where
  sip : hdr.sip.toNat = sip
  dip : hdr.dip.toNat = dip
  ports : (hdr.l3Prot = 0x11 ∧ hdr.udpSport.toNat = sport ∧ hdr.udpDport.toNat = dport) ∨
    ((hdr.l3Prot = 0xFC ∨ hdr.l3Prot = 0xFD) ∧ hdr.ackSport.toNat = sport ∧
      hdr.ackDport.toNat = dport)

theorem PacketHeader.inFlow_iff (hdr : PacketHeader) (sip dip sport dport : Nat) :
    (hdr.sip.toNat = sip ∧ hdr.dip.toNat = dip ∧
      ((hdr.l3Prot = 0x11 ∧ hdr.udpSport.toNat = sport ∧ hdr.udpDport.toNat = dport) ∨
        ((hdr.l3Prot = 0xFC ∨ hdr.l3Prot = 0xFD) ∧ hdr.ackSport.toNat = sport ∧
          hdr.ackDport.toNat = dport))) ↔ hdr.InFlow sip dip sport dport :=
  ⟨fun h => ⟨h.1, h.2.1, h.2.2⟩, fun h => ⟨h.sip, h.dip, h.ports⟩⟩

instance (hdr : PacketHeader) (sip dip sport dport : Nat) :
    Decidable (hdr.InFlow sip dip sport dport) :=
  decidable_of_iff _ (hdr.inFlow_iff sip dip sport dport)

theorem l3Prot_toNat_eq {p : UInt8} {n : Nat} (hn : n < 2 ^ 8) : p.toNat = n ↔ p = .ofNat n := by
  rw [← UInt8.toNat_inj, UInt8.toNat_ofNat', Nat.mod_eq_of_lt hn]

theorem ofFlow_iff (e : PacketEvent) (hprot : e.hdr.l3Prot ≠ 0) (sip dip sport dport : Nat) :
    OfFlow sip dip sport dport (getTraceFromPacket e) ↔ e.hdr.InFlow sip dip sport dport := by
  constructor
  · rintro ⟨hsip, hdip, hkind, hsport, hdport⟩
    rw [get_sip] at hsip
    rw [get_dip] at hdip
    simp only [List.mem_cons, List.not_mem_nil, or_false, get_l3Prot] at hkind
    refine ⟨hsip, hdip, ?_⟩
    rcases hkind with hudp | hack | hnack | hqp
    · have hudp := (l3Prot_toNat_eq (by decide)).mp hudp
      obtain ⟨hs, hd⟩ := get_ports_udp e hudp
      exact .inl ⟨hudp, hs ▸ hsport, hd ▸ hdport⟩
    · have hack := (l3Prot_toNat_eq (by decide)).mp hack
      obtain ⟨hs, hd⟩ := get_ports_ack e (.inl hack)
      exact .inr ⟨.inl hack, hs ▸ hsport, hd ▸ hdport⟩
    · have hnack := (l3Prot_toNat_eq (by decide)).mp hnack
      obtain ⟨hs, hd⟩ := get_ports_ack e (.inr hnack)
      exact .inr ⟨.inr hnack, hs ▸ hsport, hd ▸ hdport⟩
    · exact absurd ((l3Prot_toNat_eq (by decide)).mp hqp) hprot
  · rintro ⟨hsip, hdip, ⟨hudp, hsport, hdport⟩ | ⟨hanswer, hsport, hdport⟩⟩
    · obtain ⟨hs, hd⟩ := get_ports_udp e hudp
      refine ⟨(get_sip e).trans hsip, (get_dip e).trans hdip, ?_, hs.trans hsport, hd.trans hdport⟩
      rw [get_l3Prot, hudp]
      decide
    · obtain ⟨hs, hd⟩ := get_ports_ack e hanswer
      refine ⟨(get_sip e).trans hsip, (get_dip e).trans hdip, ?_, hs.trans hsport, hd.trans hdport⟩
      rw [get_l3Prot]
      rcases hanswer with h | h <;> rw [h] <;> decide

/-- The packets that the three shorthands for flows ask for. -/
inductive AsksFor : List Char → (Nat × Nat × Nat × Nat) → (PacketHeader → Prop) → Prop
  | flow (sip dip sport dport : Nat) :
      AsksFor "flow=".toList (sip, dip, sport, dport) fun hdr => hdr.InFlow sip dip sport dport
  | biflow (sip dip sport dport : Nat) :
      AsksFor "biflow=".toList (sip, dip, sport, dport) fun hdr =>
        hdr.InFlow sip dip sport dport ∨ hdr.InFlow dip sip dport sport
  | rflow (sip dip sport dport : Nat) :
      AsksFor "rflow=".toList (sip, dip, sport, dport) fun hdr => hdr.InFlow dip sip dport sport

theorem ne_nil_of_scanFlow {value : List Char} {found : Nat × Nat × Nat × Nat}
    (h : scanFlow value = some found) : value ≠ [] := by
  rintro rfl
  cases h

/-- What a shorthand means is what it asks for. -/
theorem AsksFor.means {stale : Nat} {text value : List Char} {q : Nat × Nat × Nat × Nat}
    {A : PacketHeader → Prop} (h : AsksFor text q A) (hscan : scanFlow value = some q)
    (hvalue : ∀ c ∈ value, isValueChar c = true) :
    ∃ P, Means stale (text ++ value) P ∧
      ∀ e : PacketEvent, e.hdr.l3Prot ≠ 0 → (P (getTraceFromPacket e) ↔ A e.hdr) := by
  have hne := ne_nil_of_scanFlow hscan
  cases h with
  | flow sip dip sport dport =>
      have hmatch : MatchesBase ("flow".toList ++ '=' :: value) _ [] :=
        matchesBase_value (by decide) rfl hne hvalue
      exact ⟨_, .shorthand hmatch (.flow hscan), fun e he => ofFlow_iff e he _ _ _ _⟩
  | biflow sip dip sport dport =>
      have hmatch : MatchesBase ("biflow".toList ++ '=' :: value) _ [] :=
        matchesBase_value (by decide) rfl hne hvalue
      exact ⟨_, .shorthand hmatch (.biflow hscan), fun e he =>
        or_congr (ofFlow_iff e he _ _ _ _) (ofFlow_iff e he _ _ _ _)⟩
  | rflow sip dip sport dport =>
      have hmatch : MatchesBase ("rflow".toList ++ '=' :: value) _ [] :=
        matchesBase_value (by decide) rfl hne hvalue
      exact ⟨_, .shorthand hmatch (.rflow hscan), fun e he => ofFlow_iff e he _ _ _ _⟩

/-- Asked for a flow, the reader prints the lines of the packets of this flow and no others, in the
order in which they were traced. -/
theorem flow_lines {stale : Nat} {text value : List Char} {q : Nat × Nat × Nat × Nat}
    {A : PacketHeader → Prop} [DecidablePred A] (h : AsksFor text q A)
    (hscan : scanFlow value = some q) (hvalue : ∀ c ∈ value, isValueChar c = true)
    {events : List PacketEvent} (hprot : ∀ e ∈ events, e.hdr.l3Prot ≠ 0) (s : SimSetting)
    {cut : List UInt8} (hcut : cut.length < 56) :
    traceReader stale (some (text ++ value)) (traceFile s (events.map getTraceFromPacket) cut) =
      some ((events.filter fun e => A e.hdr).flatMap fun e => printTrace (getTraceFromPacket e)) := by
  classical
  obtain ⟨P, hmeans, hP⟩ := h.means hscan hvalue
  have hfilter : events.filter (fun e => P (getTraceFromPacket e)) = events.filter fun e => A e.hdr :=
    List.filter_congr fun e he => by simp only [hP e (hprot e he)]
  rw [traceReader_of_means (some (text ++ value)) hcut hmeans, List.filter_map, List.flatMap_map]
  exact congrArg (fun es => some (List.flatMap (fun e => printTrace (getTraceFromPacket e)) es)) hfilter

/-- A data packet that a device enqueues. -/
def dataEvent (sip dip : UInt32) (sport dport : UInt16) : PacketEvent where
  hdr := ⟨sip, dip, 0, 0x11, 0, 0, sport, dport, 3, 0, 0, 0, 0, 0, 0, 0, 0, 0, 0, 0, 0, 0, 0, 0, 0⟩
  packetSize := 1048
  headerSize := 48
  now := 7
  nodeId := 1
  nodeType := 0
  ifIndex := 1
  qidx := 3
  nBytes := 1048
  event := 1
  memory := ⟨List.replicate 56 0xFF, rfl⟩

/-- Of the data packets of three flows, two of which answer each other. -/
theorem biflow_lines_twoWays :
    traceReader 0 (some ("biflow=".toList ++ "0x1,2,10,20".toList)) (traceFile ⟨[], List.nodup_nil, 0⟩
      ([dataEvent 1 2 10 20, dataEvent 1 2 10 21, dataEvent 2 1 20 10].map getTraceFromPacket) []) =
      some ([dataEvent 1 2 10 20, dataEvent 2 1 20 10].flatMap fun e =>
        printTrace (getTraceFromPacket e)) := by
  have hvalue : ∀ c ∈ "0x1,2,10,20".toList, isValueChar c = true := List.all_eq_true.mp rfl
  have hprot : ∀ e ∈ [dataEvent 1 2 10 20, dataEvent 1 2 10 21, dataEvent 2 1 20 10],
      e.hdr.l3Prot ≠ 0 := by
    simp [dataEvent]
  have hcut : ([] : List UInt8).length < 56 := by decide
  rw [flow_lines (.biflow 1 2 10 20) rfl hvalue hprot ⟨[], List.nodup_nil, 0⟩ hcut]
  rfl

end CollectiveSim.Trace
