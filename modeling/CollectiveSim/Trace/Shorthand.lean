import CollectiveSim.Trace.Parser

/-!
# Filters for flows and queues

The text that a shorthand stands for is an expression itself, and selects the packets of a flow or
of a queue.
-/

namespace CollectiveSim.Trace

open Framework

variable {stale : Nat}

/-! ## Comparisons with numbers -/

/-- A test for equality. -/
def eqField (m : Member) (n : Nat) : Node := .expr ⟨m.offset, m.width, .eq, n⟩

@[simp] theorem eqField_test (m : Member) (n : Nat) (tr : TraceFormat) :
    (eqField m n).test tr = true ↔ tr.get m = n := by
  simp [eqField, Node.test, Field.test, Comparison.holds, TraceFormat.get]

def numberText (name : List Char) (n : Nat) : List Char := name ++ '=' :: decimal n

theorem isValueChar_of_mem_decimal {n : Nat} {c : Char} (h : c ∈ decimal n) :
    isValueChar c = true := by
  have hdigit := digitValue_lt_of_mem_decimal h
  have hhex : digitValue c < 16 := by omega
  simp [isValueChar, hhex]

theorem matchesBase_value {name value : List Char} (hne : name ≠ [])
    (hname : name.all isFieldChar = true) (hne' : value ≠ [])
    (hvalue : ∀ c ∈ value, isValueChar c = true) :
    MatchesBase (name ++ '=' :: value) ⟨name, "=".toList, value⟩ [] := by
  have hnil : ∀ c ∈ ([] : List Char), isspace c = true := by simp
  have h : MatchesBase ([] ++ (name ++ ([] ++ ("=".toList ++ ([] ++ (value ++ ([] ++ [])))))))
      ⟨name, "=".toList, value⟩ [] :=
    .mk hnil hne (List.all_eq_true.mp hname) hnil (by decide) hnil hne' hvalue hnil
  simpa using h

theorem matchesBase_number {name : List Char} (hne : name ≠ [])
    (hname : name.all isFieldChar = true) (n : Nat) :
    MatchesBase (numberText name n) ⟨name, "=".toList, decimal n⟩ [] :=
  matchesBase_value hne hname (decimal_ne_nil n) fun _ => isValueChar_of_mem_decimal

/-- The names that stand for a member of their own width, which the shorthands use. -/
structure Names (name : List Char) (m : Member) : Prop where
  found : fieldTable.lookup name = some (Field.make m.width m.offset)
  ne_nil : name ≠ []
  chars : name.all isFieldChar = true
  width_le : m.width ≤ 4

theorem Names.getField_eq {name value : List Char} {m : Member} (h : Names name m) {n : Nat}
    (hvalue : readInteger value = some (n, [])) (hn : n < 2 ^ (8 * m.width)) :
    getField stale ⟨name, "=".toList, value⟩ = some ⟨m.offset, m.width, .eq, n⟩ := by
  have hwidth : 2 ^ (8 * m.width) ≤ 2 ^ 32 :=
    Nat.pow_le_pow_right (by decide) (by have := h.width_le; omega)
  have hmin : min n (2 ^ 63 - 1) = n := Nat.min_eq_left (by omega)
  rw [getField, h.found, Option.map_some, scanLong, hvalue]
  simp only [hmin, Field.make, Nat.mod_eq_of_lt hn]
  rfl

theorem Names.derives {name : List Char} {m : Member} (h : Names name m) {n : Nat}
    (hn : n < 2 ^ (8 * m.width)) : Derives stale 1 (numberText name n) (eqField m n) :=
  .field (matchesBase_number h.ne_nil h.chars n) (h.getField_eq (readInteger_decimal n) hn)

theorem names_sip : Names "sip".toList .sip := ⟨rfl, by decide, rfl, by decide⟩
theorem names_dip : Names "dip".toList .dip := ⟨rfl, by decide, rfl, by decide⟩
theorem names_l3Prot : Names "l3Prot".toList .l3Prot := ⟨rfl, by decide, rfl, by decide⟩
theorem names_dataSport : Names "data.sport".toList .dataSport := ⟨rfl, by decide, rfl, by decide⟩
theorem names_dataDport : Names "data.dport".toList .dataDport := ⟨rfl, by decide, rfl, by decide⟩
theorem names_ackSport : Names "ack.sport".toList .ackSport := ⟨rfl, by decide, rfl, by decide⟩
theorem names_ackDport : Names "ack.dport".toList .ackDport := ⟨rfl, by decide, rfl, by decide⟩
theorem names_qpSport : Names "qp.sport".toList .qpSport := ⟨rfl, by decide, rfl, by decide⟩
theorem names_qpDport : Names "qp.dport".toList .qpDport := ⟨rfl, by decide, rfl, by decide⟩
theorem names_node : Names "node".toList .node := ⟨rfl, by decide, rfl, by decide⟩
theorem names_intf : Names "intf".toList .intf := ⟨rfl, by decide, rfl, by decide⟩
theorem names_qidx : Names "qidx".toList .qidx := ⟨rfl, by decide, rfl, by decide⟩

theorem derives_l3Prot (value : List Char) {n : Nat}
    (h : regexBase ("l3Prot=".toList ++ value) = some ⟨"l3Prot".toList, "=".toList, value⟩)
    (hvalue : readInteger value = some (n, [])) (hn : n < 2 ^ 8) :
    Derives stale 1 ("l3Prot=".toList ++ value) (eqField .l3Prot n) :=
  .field (regexBase_eq_some.mp h) (names_l3Prot.getField_eq hvalue hn)

/-! ## Conjunctions and disjunctions -/

theorem Derives.conj {n : Nat} {left right : List Char} {b : BaseExpr} {l r : Node}
    (h : MatchesBase left b []) (hl : Derives stale n left l)
    (hline : ∀ c ∈ right, isNewline c = false) (hr : Derives stale n right r) :
    Derives stale (n + 1) (left ++ '&' :: right) (.and l r) :=
  .joinBase h hl rfl hline hr

theorem Derives.brackets {n : Nat} {s : List Char} {t : Node} (h : Derives stale n s t) :
    Derives stale n ('(' :: (s ++ [')'])) t := by
  have hbracket : Derives stale n ([] ++ '(' :: (s ++ ')' :: [])) t := .bracket (by simp) (by simp) h
  exact hbracket

theorem Derives.bracketsJoin {n : Nat} {left right : List Char} {op : Char} {l r : Node}
    (hl : Derives stale n left l) (hop : isJoin op = true)
    (hline : ∀ c ∈ right, isNewline c = false) (hr : Derives stale n right r) :
    Derives stale (n + 1) ('(' :: (left ++ ')' :: op :: right)) (.join op l r) := by
  have h : Derives stale (n + 1) ([] ++ '(' :: (left ++ ')' :: ([] ++ op :: (right ++ []))))
      (.join op l r) :=
    .joinBracket (by simp) hl (by simp) hop hline (by simp) (stops_nil _) hr
  simpa using h

theorem Names.derives_conj {name right : List Char} {m : Member} (h : Names name m) {n k : Nat}
    {r : Node} (hn : n < 2 ^ (8 * m.width)) (hline : ∀ c ∈ right, isNewline c = false)
    (hr : Derives stale (k + 1) right r) :
    Derives stale (k + 2) (numberText name n ++ '&' :: right) (.and (eqField m n) r) :=
  .conj (matchesBase_number h.ne_nil h.chars n)
    ((h.derives hn).mono (Nat.le_add_left 1 k)) hline hr

/-! ## The text for a flow -/

/-- A text on one line. -/
def Line (s : List Char) : Prop := ∀ c ∈ s, isNewline c = false

theorem Line.append {s s' : List Char} (h : Line s) (h' : Line s') : Line (s ++ s') :=
  List.forall_mem_append.mpr ⟨h, h'⟩

theorem Line.cons {c : Char} {s : List Char} (hc : isNewline c = false) (h : Line s) : Line (c :: s) :=
  List.forall_mem_cons.mpr ⟨hc, h⟩

theorem Line.brackets {s behind : List Char} (h : Line s) (h' : Line behind) :
    Line ('(' :: (s ++ ')' :: behind)) :=
  .cons rfl (h.append (.cons rfl h'))

theorem isNewline_of_isFieldChar {c : Char} (h : isFieldChar c = true) : isNewline c = false := by
  have hn := toNat_of_isFieldChar h
  simp only [isNewline, Bool.or_eq_false_iff, decide_eq_false_iff_not]
  omega

theorem isNewline_of_isValueChar {c : Char} (h : isValueChar c = true) : isNewline c = false := by
  have hn := toNat_of_isValueChar h
  simp only [isNewline, Bool.or_eq_false_iff, decide_eq_false_iff_not]
  omega

theorem Names.line {name : List Char} {m : Member} (h : Names name m) (n : Nat) :
    Line (numberText name n) := by
  refine .append ?_ (.cons rfl ?_)
  · exact fun c hc => isNewline_of_isFieldChar (List.all_eq_true.mp h.chars c hc)
  · exact fun c hc => isNewline_of_isValueChar (isValueChar_of_mem_decimal hc)

theorem line_of_all {s : List Char} (h : s.all (!isNewline ·) = true) : Line s := by
  intro c hc
  simpa using List.all_eq_true.mp h c hc

def portsText (sportName dportName : List Char) (sport dport : Nat) : List Char :=
  numberText sportName sport ++ '&' :: numberText dportName dport

def portsNode (sportMember dportMember : Member) (sport dport : Nat) : Node :=
  .and (eqField sportMember sport) (eqField dportMember dport)

theorem derives_ports {sportName dportName : List Char} {sportMember dportMember : Member}
    (hs : Names sportName sportMember) (hd : Names dportName dportMember) {sport dport : Nat}
    (hsport : sport < 2 ^ (8 * sportMember.width)) (hdport : dport < 2 ^ (8 * dportMember.width)) :
    Derives stale 2 (portsText sportName dportName sport dport)
      (portsNode sportMember dportMember sport dport) :=
  hs.derives_conj hsport (hd.line dport) (hd.derives hdport)

theorem line_ports {sportName dportName : List Char} {sportMember dportMember : Member}
    (hs : Names sportName sportMember) (hd : Names dportName dportMember) (sport dport : Nat) :
    Line (portsText sportName dportName sport dport) :=
  (hs.line sport).append (.cons rfl (hd.line dport))

/-- The UDP packets of a flow. -/
def udpText (sport dport : Nat) : List Char :=
  numberText "l3Prot".toList 17 ++ '&' ::
    portsText "data.sport".toList "data.dport".toList sport dport

def udpNode (sport dport : Nat) : Node :=
  .and (eqField .l3Prot 17) (portsNode .dataSport .dataDport sport dport)

/-- The ACKs and NACKs of a flow. -/
def ackText (sport dport : Nat) : List Char :=
  '(' :: ("l3Prot=0xFC".toList ++ '|' :: "l3Prot=0xFD".toList ++ ')' :: '&' ::
    portsText "ack.sport".toList "ack.dport".toList sport dport)

def ackNode (sport dport : Nat) : Node :=
  .and (.or (eqField .l3Prot 0xFC) (eqField .l3Prot 0xFD)) (portsNode .ackSport .ackDport sport dport)

/-- The records of a queue pair. -/
def qpText (sport dport : Nat) : List Char :=
  "l3Prot=0x0".toList ++ '&' :: portsText "qp.sport".toList "qp.dport".toList sport dport

def qpNode (sport dport : Nat) : Node :=
  .and (eqField .l3Prot 0) (portsNode .qpSport .qpDport sport dport)

/-- The second and the third kind. -/
def answersText (sport dport : Nat) : List Char :=
  '(' :: (ackText sport dport ++ ')' :: '|' :: '(' :: (qpText sport dport ++ [')']))

def kindsText (sport dport : Nat) : List Char :=
  '(' :: (udpText sport dport ++ ')' :: '|' :: answersText sport dport)

def kindsNode (sport dport : Nat) : Node :=
  .or (udpNode sport dport) (.or (ackNode sport dport) (qpNode sport dport))

def flowNode (sip dip sport dport : Nat) : Node :=
  .and (eqField .sip sip) (.and (eqField .dip dip) (kindsNode sport dport))

theorem flowText_eq (sip dip sport dport : Nat) : flowText sip dip sport dport =
    numberText "sip".toList sip ++ '&' :: (numberText "dip".toList dip ++ '&' ::
      ('(' :: (kindsText sport dport ++ [')']))) := by
  have hudp : decimal 17 = "17".toList := by
    rw [decimal]
    rfl
  unfold flowText kindsText answersText udpText ackText qpText portsText numberText
  rw [hudp]
  -- The digits are taken out of the way of the comparison of the rest.
  generalize decimal sip = a
  generalize decimal dip = b
  generalize decimal sport = c
  generalize decimal dport = d
  simp only [List.append_assoc, List.cons_append]
  rfl

theorem biflowText_eq (sip dip sport dport : Nat) : biflowText sip dip sport dport =
    '(' :: (flowText sip dip sport dport ++ ')' :: '|' ::
      ('(' :: (flowText dip sip dport sport ++ [')']))) := by
  simp only [biflowText, List.append_assoc]
  generalize flowText sip dip sport dport = forward
  generalize flowText dip sip dport sport = backward
  rfl

section Flow

variable {sip dip sport dport : Nat}

theorem line_ack (sport dport : Nat) : Line (ackText sport dport) :=
  .brackets (line_of_all rfl) (.cons rfl (line_ports names_ackSport names_ackDport sport dport))

theorem line_qp (sport dport : Nat) : Line (qpText sport dport) :=
  (line_of_all rfl).append (.cons rfl (line_ports names_qpSport names_qpDport sport dport))

theorem line_answers (sport dport : Nat) : Line (answersText sport dport) :=
  .brackets (line_ack sport dport) (.cons rfl (.brackets (line_qp sport dport) (by simp [Line])))

theorem line_kinds (sport dport : Nat) : Line (kindsText sport dport) :=
  .brackets ((names_l3Prot.line 17).append (.cons rfl
    (line_ports names_dataSport names_dataDport sport dport))) (.cons rfl (line_answers sport dport))

theorem line_flow (sip dip sport dport : Nat) : Line (flowText sip dip sport dport) := by
  rw [flowText_eq]
  exact (names_sip.line sip).append (.cons rfl ((names_dip.line dip).append (.cons rfl
    (.brackets (line_kinds sport dport) (by simp [Line])))))

theorem derives_udp (hsport : sport < 2 ^ 16) (hdport : dport < 2 ^ 16) :
    Derives stale 3 (udpText sport dport) (udpNode sport dport) :=
  names_l3Prot.derives_conj (by decide) (line_ports names_dataSport names_dataDport sport dport)
    (derives_ports names_dataSport names_dataDport hsport hdport)

theorem derives_ack (hsport : sport < 2 ^ 16) (hdport : dport < 2 ^ 16) :
    Derives stale 3 (ackText sport dport) (ackNode sport dport) := by
  have hack : Derives stale 1 "l3Prot=0xFC".toList (eqField .l3Prot 0xFC) :=
    derives_l3Prot "0xFC".toList rfl rfl (by decide)
  have hnack : Derives stale 1 "l3Prot=0xFD".toList (eqField .l3Prot 0xFD) :=
    derives_l3Prot "0xFD".toList rfl rfl (by decide)
  have hmatch : MatchesBase "l3Prot=0xFC".toList ⟨"l3Prot".toList, "=".toList, "0xFC".toList⟩ [] :=
    regexBase_eq_some.mp rfl
  have hboth : Derives stale 2 ("l3Prot=0xFC".toList ++ '|' :: "l3Prot=0xFD".toList)
      (.or (eqField .l3Prot 0xFC) (eqField .l3Prot 0xFD)) :=
    .joinBase hmatch hack rfl (line_of_all rfl) hnack
  exact .bracketsJoin hboth rfl (line_ports names_ackSport names_ackDport sport dport)
    (derives_ports names_ackSport names_ackDport hsport hdport)

theorem derives_qp (hsport : sport < 2 ^ 16) (hdport : dport < 2 ^ 16) :
    Derives stale 3 (qpText sport dport) (qpNode sport dport) := by
  have hkind : Derives stale 1 "l3Prot=0x0".toList (eqField .l3Prot 0) :=
    derives_l3Prot "0x0".toList rfl rfl (by decide)
  have hmatch : MatchesBase "l3Prot=0x0".toList ⟨"l3Prot".toList, "=".toList, "0x0".toList⟩ [] :=
    regexBase_eq_some.mp rfl
  exact .conj hmatch (hkind.mono (by decide)) (line_ports names_qpSport names_qpDport sport dport)
    (derives_ports names_qpSport names_qpDport hsport hdport)

theorem derives_kinds (hsport : sport < 2 ^ 16) (hdport : dport < 2 ^ 16) :
    Derives stale 5 (kindsText sport dport) (kindsNode sport dport) :=
  .bracketsJoin ((derives_udp hsport hdport).mono (by decide)) rfl (line_answers sport dport)
    (.bracketsJoin (derives_ack hsport hdport) rfl
      (Line.brackets (line_qp sport dport) (by simp [Line])) (derives_qp hsport hdport).brackets)

theorem derives_flow (hsip : sip < 2 ^ 32) (hdip : dip < 2 ^ 32) (hsport : sport < 2 ^ 16)
    (hdport : dport < 2 ^ 16) :
    Derives stale 7 (flowText sip dip sport dport) (flowNode sip dip sport dport) := by
  have hkinds : Derives stale 5 ('(' :: (kindsText sport dport ++ [')'])) (kindsNode sport dport) :=
    (derives_kinds hsport hdport).brackets
  have hline : Line ('(' :: (kindsText sport dport ++ [')'])) :=
    .brackets (line_kinds sport dport) (by simp [Line])
  rw [flowText_eq]
  exact names_sip.derives_conj hsip ((names_dip.line dip).append (.cons rfl hline))
    (names_dip.derives_conj hdip hline hkinds)

theorem derives_biflow (hsip : sip < 2 ^ 32) (hdip : dip < 2 ^ 32) (hsport : sport < 2 ^ 16)
    (hdport : dport < 2 ^ 16) :
    Derives stale 8 (biflowText sip dip sport dport)
      (.or (flowNode sip dip sport dport) (flowNode dip sip dport sport)) := by
  rw [biflowText_eq]
  exact .bracketsJoin (derives_flow hsip hdip hsport hdport) rfl
    (Line.brackets (line_flow dip sip dport sport) (by simp [Line]))
    (derives_flow hdip hsip hdport hsport).brackets

end Flow

/-! ## The text for a queue -/

def queueNode (node intf qidx : Nat) : Node :=
  .and (eqField .node node) (.and (eqField .intf intf) (eqField .qidx qidx))

theorem queueText_eq (node intf qidx : Nat) : queueText node intf qidx =
    numberText "node".toList node ++ '&' :: (numberText "intf".toList intf ++ '&' ::
      numberText "qidx".toList qidx) := by
  unfold queueText numberText
  generalize decimal node = a
  generalize decimal intf = b
  generalize decimal qidx = c
  simp only [List.append_assoc, List.cons_append]
  rfl

theorem derives_queue {node intf qidx : Nat} (hnode : node < 2 ^ 16) (hintf : intf < 2 ^ 8)
    (hqidx : qidx < 2 ^ 8) :
    Derives stale 3 (queueText node intf qidx) (queueNode node intf qidx) := by
  have hline := names_qidx.line qidx
  rw [queueText_eq]
  exact names_node.derives_conj hnode ((names_intf.line intf).append (.cons rfl hline))
    (names_intf.derives_conj hintf hline (names_qidx.derives hqidx))

/-! ## What a shorthand stands for -/

theorem scanI_lt {s rest : List Char} {n : Nat} (h : scanI s = some (n, rest)) : n < 2 ^ 32 := by
  obtain ⟨found, -, heq⟩ := Option.map_eq_some_iff.mp h
  cases heq
  exact u32_lt _

theorem scanU_lt {width n : Nat} {s rest : List Char} (h : scanU width s = some (n, rest)) :
    n < 2 ^ (8 * width) := by
  obtain ⟨found, -, heq⟩ := Option.map_eq_some_iff.mp h
  cases heq
  exact Nat.mod_lt _ (Nat.two_pow_pos _)

theorem scanFlow_lt {value : List Char} {sip dip sport dport : Nat}
    (h : scanFlow value = some (sip, dip, sport, dport)) :
    sip < 2 ^ 32 ∧ dip < 2 ^ 32 ∧ sport < 2 ^ 16 ∧ dport < 2 ^ 16 := by
  obtain ⟨⟨_, s₁⟩, hsip, h⟩ := Option.bind_eq_some_iff.mp h
  obtain ⟨s₂, -, h⟩ := Option.bind_eq_some_iff.mp h
  obtain ⟨⟨_, s₃⟩, hdip, h⟩ := Option.bind_eq_some_iff.mp h
  obtain ⟨s₄, -, h⟩ := Option.bind_eq_some_iff.mp h
  obtain ⟨⟨_, s₅⟩, hsport, h⟩ := Option.bind_eq_some_iff.mp h
  obtain ⟨s₆, -, h⟩ := Option.bind_eq_some_iff.mp h
  obtain ⟨⟨_, s₇⟩, hdport, h⟩ := Option.bind_eq_some_iff.mp h
  cases h
  exact ⟨scanI_lt hsip, scanI_lt hdip, scanU_lt hsport, scanU_lt hdport⟩

theorem scanQueue_lt {value : List Char} {node intf qidx : Nat}
    (h : scanQueue value = some (node, intf, qidx)) : node < 2 ^ 16 ∧ intf < 2 ^ 8 ∧ qidx < 2 ^ 8 := by
  obtain ⟨⟨_, s₁⟩, hnode, h⟩ := Option.bind_eq_some_iff.mp h
  obtain ⟨s₂, -, h⟩ := Option.bind_eq_some_iff.mp h
  obtain ⟨⟨_, s₃⟩, hintf, h⟩ := Option.bind_eq_some_iff.mp h
  obtain ⟨s₄, -, h⟩ := Option.bind_eq_some_iff.mp h
  obtain ⟨⟨_, s₅⟩, hqidx, h⟩ := Option.bind_eq_some_iff.mp h
  cases h
  exact ⟨scanU_lt hnode, scanU_lt hintf, scanU_lt hqidx⟩

/-- The shorthands, with the text and the tree that they stand for. -/
inductive Expands : BaseExpr → List Char → Node → Prop
  | flow {value : List Char} {sip dip sport dport : Nat}
      (h : scanFlow value = some (sip, dip, sport, dport)) :
      Expands ⟨"flow".toList, "=".toList, value⟩ (flowText sip dip sport dport)
        (flowNode sip dip sport dport)
  | biflow {value : List Char} {sip dip sport dport : Nat}
      (h : scanFlow value = some (sip, dip, sport, dport)) :
      Expands ⟨"biflow".toList, "=".toList, value⟩ (biflowText sip dip sport dport)
        (.or (flowNode sip dip sport dport) (flowNode dip sip dport sport))
  | rflow {value : List Char} {sip dip sport dport : Nat}
      (h : scanFlow value = some (sip, dip, sport, dport)) :
      Expands ⟨"rflow".toList, "=".toList, value⟩ (flowText dip sip dport sport)
        (flowNode dip sip dport sport)
  | queue {value : List Char} {node intf qidx : Nat} (h : scanQueue value = some (node, intf, qidx)) :
      Expands ⟨"queue".toList, "=".toList, value⟩ (queueText node intf qidx)
        (queueNode node intf qidx)

theorem Expands.expandShorthand_eq {b : BaseExpr} {buf : List Char} {t : Node}
    (h : Expands b buf t) : expandShorthand b = some buf := by
  cases h with
  | flow h => simp [expandShorthand, h]
  | biflow h => simp [expandShorthand, h]
  | rflow h => simp [expandShorthand, h]
  | queue h => simp [expandShorthand, h]

theorem expands_of_expandShorthand {b : BaseExpr} {buf : List Char}
    (h : expandShorthand b = some buf) : ∃ t, Expands b buf t := by
  obtain ⟨field, op, value⟩ := b
  simp only [expandShorthand] at h
  split_ifs at h with hname hop hflow hbiflow hqueue hop'
  · obtain rfl := not_not.mp hop
    cases hflow
    cases hscan : scanFlow value with
    | none =>
        rw [hscan] at h
        cases h
    | some found =>
        obtain ⟨sip, dip, sport, dport⟩ := found
        rw [hscan] at h
        obtain rfl := Option.some_inj.mp h
        exact ⟨_, .flow hscan⟩
  · obtain rfl := not_not.mp hop
    cases hbiflow
    cases hscan : scanFlow value with
    | none =>
        rw [hscan] at h
        cases h
    | some found =>
        obtain ⟨sip, dip, sport, dport⟩ := found
        rw [hscan] at h
        obtain rfl := Option.some_inj.mp h
        exact ⟨_, .biflow hscan⟩
  · obtain rfl := not_not.mp hop
    obtain rfl := (hname.resolve_left hflow).resolve_left hbiflow
    cases hscan : scanFlow value with
    | none =>
        rw [hscan] at h
        cases h
    | some found =>
        obtain ⟨sip, dip, sport, dport⟩ := found
        rw [hscan] at h
        obtain rfl := Option.some_inj.mp h
        exact ⟨_, .rflow hscan⟩
  · obtain rfl := not_not.mp hop'
    cases hqueue
    cases hscan : scanQueue value with
    | none =>
        rw [hscan] at h
        cases h
    | some found =>
        obtain ⟨node, intf, qidx⟩ := found
        rw [hscan] at h
        obtain rfl := Option.some_inj.mp h
        exact ⟨_, .queue hscan⟩

/-- The text of a shorthand is an expression without shorthands. -/
theorem Expands.derives {b : BaseExpr} {buf : List Char} {t : Node} (h : Expands b buf t) :
    Derives stale 8 buf t := by
  cases h with
  | flow h =>
      obtain ⟨hsip, hdip, hsport, hdport⟩ := scanFlow_lt h
      exact (derives_flow hsip hdip hsport hdport).mono (by decide)
  | biflow h =>
      obtain ⟨hsip, hdip, hsport, hdport⟩ := scanFlow_lt h
      exact derives_biflow hsip hdip hsport hdport
  | rflow h =>
      obtain ⟨hsip, hdip, hsport, hdport⟩ := scanFlow_lt h
      exact (derives_flow hdip hsip hdport hsport).mono (by decide)
  | queue h =>
      obtain ⟨hnode, hintf, hqidx⟩ := scanQueue_lt h
      exact (derives_queue hnode hintf hqidx).mono (by decide)

end CollectiveSim.Trace
