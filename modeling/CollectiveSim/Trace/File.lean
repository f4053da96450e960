import CollectiveSim.Framework.Dict
import CollectiveSim.Trace.Meaning

/-!
# Trace files

A trace file starts with the settings of the simulation; records follow until it ends. The reader
prints the records that pass the filter.
-/

namespace CollectiveSim.Trace

open Framework

/-! ## Reading -/

/-- `fread` of one item. -/
def fread (width : Nat) (file : List UInt8) : Option (List UInt8 × List UInt8) :=
  if width ≤ file.length then some (file.take width, file.drop width) else none

theorem fread_append {width : Nat} {bytes : List UInt8} (h : bytes.length = width)
    (rest : List UInt8) : fread width (bytes ++ rest) = some (bytes, rest) := by
  rw [fread, if_pos (by simp [h]), List.take_left' h, List.drop_left' h]

def freadNat (width : Nat) (file : List UInt8) : Option (Nat × List UInt8) :=
  (fread width file).map (Prod.map decodeLE id)

theorem freadNat_encodeLE {width n : Nat} (h : n < 2 ^ (8 * width)) (rest : List UInt8) :
    freadNat width (encodeLE width n ++ rest) = some (n, rest) := by
  rw [freadNat, fread_append (encodeLE_length width n), Option.map_some]
  simp [decodeLE_encodeLE, Nat.mod_eq_of_lt h]

/-! ## Settings -/

/-- `SimSetting`: the speeds of the ports in the order in which the map yields them, and the window
bound. -/
structure SimSetting where
  portSpeed : List ((UInt16 × UInt8) × UInt64)
  nodup : (portSpeed.map Prod.fst).Nodup
  win : UInt32

namespace SimSetting

def serializePort (e : (UInt16 × UInt8) × UInt64) : List UInt8 :=
  encodeLE 2 e.1.1.toNat ++ encodeLE 1 e.1.2.toNat ++ encodeLE 8 e.2.toNat

def serialize (s : SimSetting) : List UInt8 :=
  encodeLE 4 (u32 s.portSpeed.length) ++ s.portSpeed.flatMap serializePort ++
    encodeLE 4 s.win.toNat

/-- The settings that are left when all of `port_speed` is read into a map with `entries`. -/
def deserializePorts : Nat → List ((UInt16 × UInt8) × UInt64) → List UInt8 →
    Option (List ((UInt16 × UInt8) × UInt64) × List UInt8)
  | 0, entries, file => some (entries, file)
  | len + 1, entries, file => do
      let (node, file) ← freadNat 2 file
      let (intf, file) ← freadNat 1 file
      let (bps, file) ← freadNat 8 file
      deserializePorts len (Dict.set entries (.ofNat node, .ofNat intf) (.ofNat bps)) file

/-- `Deserialize` into new settings, where the assertion fails unless everything is there. -/
def deserialize (file : List UInt8) :
    Option ((List ((UInt16 × UInt8) × UInt64) × UInt32) × List UInt8) := do
  let (len, file) ← freadNat 4 file
  let (entries, file) ← deserializePorts len [] file
  let (win, file) ← freadNat 4 file
  return ((entries, .ofNat win), file)

end SimSetting

/-- The loop over the rest of a file, which ends with the first record that is cut off. -/
def readRecords : Nat → List UInt8 → List TraceFormat
  | 0, _ => []
  | fuel + 1, file =>
      if h : (file.take 56).length = 56 then ⟨file.take 56, h⟩ :: readRecords fuel (file.drop 56)
      else []

/-! ## Printing -/

/-- `%x`. -/
def hexadecimal (n : Nat) : List Char := Nat.toDigits 16 n

/-- Zeros in front up to a width. -/
def padded (width : Nat) (s : List Char) : List Char := List.replicate (width - s.length) '0' ++ s

def eventToStr (e : Nat) : List Char :=
  match e with
  | 0 => "Recv".toList
  | 1 => "Enqu".toList
  | 2 => "Dequ".toList
  | 3 => "Drop".toList
  | _ => "????".toList

def l3ProtToChar (p : Nat) : Char :=
  match p with
  | 0x6 => 'T'
  | 0x11 => 'U'
  | 0xFC => 'A'
  | 0xFD => 'N'
  | 0xFE => 'P'
  | 0xFF => 'C'
  | _ => 'X'

/-- `%lu n:%u %u:%u`. -/
def printPlace (tr : TraceFormat) : List Char :=
  decimal (tr.get .time) ++ " n:".toList ++ decimal (tr.get .node) ++ ' ' ::
    decimal (tr.get .intf) ++ ':' :: decimal (tr.get .qidx)

def printAddresses (tr : TraceFormat) : List Char :=
  padded 8 (hexadecimal (tr.get .sip)) ++ ' ' :: padded 8 (hexadecimal (tr.get .dip))

/-- What the lines of most kinds start with: `%lu n:%u %u:%u %u %s ecn:%x %08x %08x`. -/
def printCommon (tr : TraceFormat) : List Char :=
  printPlace tr ++ ' ' :: decimal (tr.get .qlen) ++ ' ' :: eventToStr (tr.get .event) ++
    " ecn:".toList ++ hexadecimal (tr.get .ecn) ++ ' ' :: printAddresses tr

/-- Fields with spaces in front. -/
def fields (words : List (List Char)) : List Char := words.flatMap (' ' :: ·)

def printTrace (tr : TraceFormat) : List Char :=
  let prot := tr.get .l3Prot
  (if prot = 0x6 ∨ prot = 0x11 then
    printCommon tr ++ fields [decimal (tr.get .dataSport), decimal (tr.get .dataDport),
      [l3ProtToChar prot], decimal (tr.get .dataSeq), decimal (tr.get .dataTs),
      decimal (tr.get .dataPg),
      decimal (tr.get .size) ++ '(' :: decimal (tr.get .dataPayload) ++ [')']]
  else if prot = 0xFC ∨ prot = 0xFD then
    printCommon tr ++ fields [decimal (tr.get .ackSport), decimal (tr.get .ackDport),
      [l3ProtToChar prot],
      "0x".toList ++ padded 2 ((hexadecimal (tr.get .ackFlags)).map Char.toUpper),
      decimal (tr.get .ackPg), decimal (tr.get .ackSeq), decimal (tr.get .ackTs),
      decimal (tr.get .size)]
  else if prot = 0xFE then
    printCommon tr ++ fields [[l3ProtToChar prot], decimal (tr.get .pfcTime),
      decimal (tr.get .pfcQlen), decimal (tr.get .pfcQIndex), decimal (tr.get .size)]
  else if prot = 0xFF then
    printCommon tr ++ fields [[l3ProtToChar prot], decimal (tr.get .cnpFid),
      decimal (tr.get .cnpQIndex), decimal (tr.get .cnpEcnBits), decimal (tr.get .cnpSeq),
      decimal (tr.get .size)]
  else if prot = 0x0 then
    printPlace tr ++ ' ' :: eventToStr (tr.get .event) ++ ' ' :: printAddresses tr ++
      fields [decimal (tr.get .qpSport), decimal (tr.get .qpDport)]
  else
    printCommon tr ++ fields [hexadecimal prot, decimal (tr.get .size)]) ++ ['\n']

/-- `main` of the trace reader on the contents of a file, with the filter if there is one. -/
def traceReader (stale : Nat) (filter : Option (List Char)) (file : List UInt8) :
    Option (List Char) :=
  let root := filter.bind (parse stale)
  if filter.isSome ∧ root.isNone then some "Invalid filter\n".toList
  else
    (SimSetting.deserialize file).map fun read =>
      ((readRecords (read.2.length + 1) read.2).filter (passes root)).flatMap printTrace

/-! ## Round trips -/

namespace SimSetting

theorem deserializePorts_append (ports entries : List ((UInt16 × UInt8) × UInt64))
    (rest : List UInt8) :
    deserializePorts ports.length entries (ports.flatMap serializePort ++ rest) =
      some (Dict.setAll entries ports, rest) := by
  induction ports generalizing entries with
  | nil => rfl
  | cons e ports ih =>
      obtain ⟨⟨node, intf⟩, bps⟩ := e
      have hnode : node.toNat < 2 ^ (8 * 2) := node.toNat_lt
      have hintf : intf.toNat < 2 ^ (8 * 1) := intf.toNat_lt
      have hbps : bps.toNat < 2 ^ (8 * 8) := bps.toNat_lt
      rw [List.flatMap_cons, List.length_cons, deserializePorts, serializePort]
      simp only [List.append_assoc, freadNat_encodeLE hnode, freadNat_encodeLE hintf,
        freadNat_encodeLE hbps, Option.bind_eq_bind, Option.bind_some, UInt16.ofNat_toNat,
        UInt8.ofNat_toNat, UInt64.ofNat_toNat]
      exact ih _

theorem length_portSpeed_lt (s : SimSetting) : s.portSpeed.length < 2 ^ 32 := by
  let code : UInt16 × UInt8 → Nat := fun k => k.1.toNat * 2 ^ 8 + k.2.toNat
  have hcode : Function.Injective code := by
    rintro ⟨node, intf⟩ ⟨node', intf'⟩ h
    simp only [code] at h
    have hintf := intf.toNat_lt
    have hintf' := intf'.toNat_lt
    rw [Prod.mk.injEq, ← UInt16.toNat_inj, ← UInt8.toNat_inj]
    omega
  have hsub : (s.portSpeed.map Prod.fst).map code ⊆ List.range (2 ^ 24) := by
    intro n hn
    obtain ⟨k, -, rfl⟩ := List.mem_map.mp hn
    have hnode := k.1.toNat_lt
    have hintf := k.2.toNat_lt
    rw [List.mem_range]
    simp only [code]
    omega
  have hlen := (List.subperm_of_subset (s.nodup.map hcode) hsub).length_le
  rw [List.length_map, List.length_map, List.length_range] at hlen
  omega

/-- What is written is read back, and the file is left at what follows it. -/
theorem deserialize_serialize (s : SimSetting) (rest : List UInt8) :
    deserialize (s.serialize ++ rest) = some ((s.portSpeed, s.win), rest) := by
  have hlen : s.portSpeed.length < 2 ^ (8 * 4) := s.length_portSpeed_lt
  have hwin : s.win.toNat < 2 ^ (8 * 4) := s.win.toNat_lt
  have hports : Dict.setAll [] s.portSpeed = s.portSpeed := Dict.setAll_of_nodup s.nodup
  rw [deserialize, serialize, u32_of_lt hlen]
  simp only [List.append_assoc, freadNat_encodeLE hlen, deserializePorts_append, hports,
    freadNat_encodeLE hwin, Option.bind_eq_bind, Option.bind_some, UInt32.ofNat_toNat,
    Option.pure_def]

end SimSetting

/-- The records are read back, up to one that is cut off. -/
theorem readRecords_append (records : List TraceFormat) {cut : List UInt8} (hcut : cut.length < 56)
    {fuel : Nat} (hfuel : records.length < fuel) :
    readRecords fuel (records.flatMap TraceFormat.bytes ++ cut) = records := by
  induction records generalizing fuel with
  | nil =>
      obtain ⟨fuel, rfl⟩ := Nat.exists_eq_succ_of_ne_zero (Nat.ne_of_gt hfuel)
      have hshort : ¬ (cut.take 56).length = 56 := by
        rw [List.length_take]
        omega
      rw [List.flatMap_nil, List.nil_append, readRecords, dif_neg hshort]
  | cons tr records ih =>
      obtain ⟨fuel, rfl⟩ := Nat.exists_eq_succ_of_ne_zero (Nat.ne_zero_of_lt hfuel)
      have htake : (tr.bytes ++ (records.flatMap TraceFormat.bytes ++ cut)).take 56 = tr.bytes :=
        List.take_left' tr.length_eq
      have hdrop : (tr.bytes ++ (records.flatMap TraceFormat.bytes ++ cut)).drop 56 =
          records.flatMap TraceFormat.bytes ++ cut := List.drop_left' tr.length_eq
      rw [List.flatMap_cons, List.append_assoc, readRecords,
        dif_pos (by rw [htake, tr.length_eq]), hdrop, ih (Nat.lt_of_succ_lt_succ hfuel)]
      exact congrArg (· :: records) (TraceFormat.ext_bytes htake)

theorem length_le_flatMap_bytes (records : List TraceFormat) (cut : List UInt8) :
    records.length ≤ (records.flatMap TraceFormat.bytes ++ cut).length := by
  induction records with
  | nil => exact Nat.zero_le _
  | cons tr records ih =>
      rw [List.flatMap_cons, List.append_assoc, List.length_append, List.length_cons, tr.length_eq]
      omega

/-! ## From the settings and the records to the lines -/

/-- The contents of a file whose last record may be cut off. -/
def traceFile (s : SimSetting) (records : List TraceFormat) (cut : List UInt8) : List UInt8 :=
  s.serialize ++ (records.flatMap TraceFormat.bytes ++ cut)

/-- The records that the reader is asked for. -/
def FilterMeans (stale : Nat) (filter : Option (List Char)) (P : TraceFormat → Prop) : Prop :=
  match filter with
  | none => ∀ tr, P tr
  | some s => Means stale s P

section Lines

variable {stale : Nat} {s : SimSetting} {records : List TraceFormat} {cut : List UInt8}

theorem readRecords_length (hcut : cut.length < 56) :
    readRecords ((records.flatMap TraceFormat.bytes ++ cut).length + 1)
      (records.flatMap TraceFormat.bytes ++ cut) = records :=
  readRecords_append records hcut (Nat.lt_succ_of_le (length_le_flatMap_bytes records cut))

theorem traceReader_traceFile (filter : Option (List Char)) (hcut : cut.length < 56)
    (hvalid : filter.isSome = true → (filter.bind (parse stale)).isSome = true) :
    traceReader stale filter (traceFile s records cut) =
      some ((records.filter (passes (filter.bind (parse stale)))).flatMap printTrace) := by
  have hnot : ¬ (filter.isSome = true ∧ (filter.bind (parse stale)).isNone = true) := by
    rintro ⟨hsome, hnone⟩
    rw [Option.isNone_iff_eq_none.mp hnone] at hvalid
    exact absurd (hvalid hsome) (by decide)
  rw [traceReader, traceFile, s.deserialize_serialize]
  simp only [if_neg hnot, Option.map_some, readRecords_length hcut]

theorem traceReader_of_means (filter : Option (List Char)) (hcut : cut.length < 56)
    {P : TraceFormat → Prop} [DecidablePred P] (hP : FilterMeans stale filter P) :
    traceReader stale filter (traceFile s records cut) =
      some ((records.filter fun tr => P tr).flatMap printTrace) := by
  cases filter with
  | none =>
      have hall : ∀ tr, passes none tr = decide (P tr) := fun tr => by simp [passes, hP tr]
      rw [traceReader_traceFile none hcut (fun h => absurd h (by decide)), Option.bind_none,
        funext hall]
  | some expr =>
      obtain ⟨n, t, ht, htest⟩ := hP.derives
      have hparse : parse stale expr = some t := parse_eq_some.mpr ⟨n, ht⟩
      have hall : ∀ tr, passes (some t) tr = decide (P tr) := fun tr => by
        rw [passes, Bool.eq_iff_iff, htest, decide_eq_true_iff]
      have hbind : (some expr).bind (parse stale) = some t := hparse
      rw [traceReader_traceFile (some expr) hcut (fun _ => by rw [hbind]; rfl), hbind, funext hall]

theorem traceReader_invalid {filter : Option (List Char)}
    (hnone : ∀ P, ¬ FilterMeans stale filter P) (file : List UInt8) :
    traceReader stale filter file = some "Invalid filter\n".toList := by
  cases filter with
  | none => exact absurd (fun _ => trivial) (hnone fun _ => True)
  | some expr =>
      have hparse : parse stale expr = none := by
        cases h : parse stale expr with
        | none => rfl
        | some t =>
            obtain ⟨n, ht⟩ := parse_eq_some.mp h
            exact absurd ht.means (hnone _)
      have hbind : (some expr).bind (parse stale) = none := hparse
      rw [traceReader]
      simp only [hbind]
      rfl

/-- The reader prints the records that the filter means, in the order in which they were written, and
it refuses what means nothing. -/
theorem traceReader_output (filter : Option (List Char)) (hcut : cut.length < 56) :
    (∀ (P : TraceFormat → Prop) [DecidablePred P], FilterMeans stale filter P →
      traceReader stale filter (traceFile s records cut) =
        some ((records.filter fun tr => P tr).flatMap printTrace)) ∧
    ((∀ P, ¬ FilterMeans stale filter P) →
      traceReader stale filter (traceFile s records cut) = some "Invalid filter\n".toList) :=
  ⟨fun _ _ hP => traceReader_of_means filter hcut hP, fun hnone => traceReader_invalid hnone _⟩

/-- Of two records, and a third one that is cut off, the one at node 0. -/
theorem nodeZero_output :
    traceReader 0 (some "node=0".toList) (traceFile ⟨[((1, 2), 3)], List.nodup_singleton _, 4⟩
      [⟨List.replicate 56 0, rfl⟩, ⟨List.replicate 56 1, rfl⟩] [0, 0]) =
      some ([⟨List.replicate 56 0, rfl⟩].flatMap printTrace) := by
  have hmatch : MatchesBase "node=0".toList ⟨"node".toList, "=".toList, "0".toList⟩ [] :=
    regexBase_eq_some.mp rfl
  have hmeans : Means 0 "node=0".toList fun tr => Field.test ⟨8, 2, .eq, 0⟩ tr = true :=
    .field hmatch rfl
  have hcut : ([0, 0] : List UInt8).length < 56 := by decide
  rw [(traceReader_output (some "node=0".toList) hcut).1 _ hmeans]
  rfl

end Lines

end CollectiveSim.Trace
