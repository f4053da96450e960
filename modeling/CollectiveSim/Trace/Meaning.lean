import CollectiveSim.Trace.Shorthand

/-!
# What filters mean

A filter expression stands for a set of records: a comparison, the packets of a flow or of a queue,
and the conjunctions and disjunctions of these. The parser accepts the expressions and no other
text, and the trees that it makes test records for membership.
-/

namespace CollectiveSim.Trace

open Framework

/-! ## Every text is accepted or rejected -/

section Total

variable {stale : Nat}

theorem parseBase_isSome {fuel : Nat} (hfuel : 8 ≤ fuel) (b : BaseExpr) :
    (parseBase stale (parseExpr stale fuel) b).isSome = true := by
  rw [parseBase]
  cases getField stale b with
  | some f => rfl
  | none =>
      cases hbuf : expandShorthand b with
      | none => rfl
      | some buf =>
          obtain ⟨t, ht⟩ := expands_of_expandShorthand hbuf
          simp only [ht.derives.parseExpr_eq hfuel]
          rfl

theorem parseRight_isSome {recurse : List Char → Option (Option Node)} {op : Char}
    {right : List Char} {left : Option (Option Node)} (hleft : left.isSome = true)
    (hright : (recurse right).isSome = true) :
    (parseRight recurse op right left).isSome = true := by
  cases left with
  | none => cases hleft
  | some l =>
      cases l with
      | none => rfl
      | some l => simpa [parseRight] using hright

theorem length_splitAtClosing {s inner behind : List Char}
    (h : splitAtClosing '(' ')' 1 s = some (inner, behind)) :
    s.length = inner.length + behind.length + 1 := by
  rw [splitAtClosing_eq_some h, List.length_append, List.length_cons, Nat.add_assoc]

theorem parseExpr_isSome {fuel : Nat} {s : List Char} (h : s.length + 9 ≤ fuel) :
    (parseExpr stale fuel s).isSome = true := by
  induction fuel generalizing s with
  | zero => omega
  | succ fuel ih =>
      have hstrip := length_stripOuterBracket_le s.length s
      rw [parseExpr]
      generalize stripOuterBracket s.length s = expr at hstrip ⊢
      cases hbase : regexBase expr with
      | some b => exact parseBase_isSome (by omega) b
      | none =>
          simp only
          cases hjoin : regexBaseJoin expr with
          | some found =>
              obtain ⟨b, op, right⟩ := found
              obtain ⟨left, rfl, -⟩ := (regexBaseJoin_eq_some.mp hjoin).1.exists_left
              rw [List.length_append, List.length_cons] at hstrip
              exact parseRight_isSome (parseBase_isSome (by omega) b) (ih (by omega))
          | none =>
              simp only
              rw [parseBracket]
              cases hs : skipSpace expr with
              | nil => rfl
              | cons c rest =>
                  simp only
                  obtain ⟨w, rfl, -⟩ := skipSpace_eq_cons hs
                  rw [List.length_append, List.length_cons] at hstrip
                  by_cases hc : c = '('
                  · rw [if_pos hc]
                    cases hsplit : splitAtClosing '(' ')' 1 rest with
                    | none => rfl
                    | some found =>
                        obtain ⟨inner, behind⟩ := found
                        have hlen := length_splitAtClosing hsplit
                        simp only
                        cases hreg : regexJoin behind with
                        | none => exact parseRight_isSome (ih (by omega)) (ih (by simp; omega))
                        | some joined =>
                            obtain ⟨op, right⟩ := joined
                            obtain ⟨w', tail, rfl, -⟩ := regexJoin_eq_some.mp hreg
                            simp only [List.length_append, List.length_cons] at hlen
                            exact parseRight_isSome (ih (by omega)) (ih (by omega))
                  · rw [if_neg hc]
                    rfl

/-- The parser and the grammar agree on every text. -/
theorem parse_eq_some {s : List Char} {t : Node} :
    parse stale s = some t ↔ ∃ n, Derives stale n s t := by
  have hsome : (parseExpr stale (s.length + 12) s).isSome = true := parseExpr_isSome (by omega)
  obtain ⟨r, hr⟩ := Option.isSome_iff_exists.mp hsome
  rw [parse, hr, Option.join_some]
  constructor
  · rintro rfl
    exact ⟨_, derives_of_parseExpr hr⟩
  · rintro ⟨n, h⟩
    have hdeep := parseExpr_mono hr (Nat.le_max_left (s.length + 12) n)
    rw [h.parseExpr_eq (Nat.le_max_right _ _), Option.some_inj] at hdeep
    exact hdeep.symm

end Total

/-! ## Meaning -/

/-- The records of the packets that go from one port to another: UDP packets, ACKs and NACKs, and
records of a queue pair. All of these have their ports in the same place. -/
structure OfFlow (sip dip sport dport : Nat) (tr : TraceFormat) : Prop where
  sip : tr.get .sip = sip
  dip : tr.get .dip = dip
  l3Prot : tr.get .l3Prot ∈ [0x11, 0xFC, 0xFD, 0x0]
  sport : tr.get .dataSport = sport
  dport : tr.get .dataDport = dport

structure OfQueue (node intf qidx : Nat) (tr : TraceFormat) : Prop where
  node : tr.get .node = node
  intf : tr.get .intf = intf
  qidx : tr.get .qidx = qidx

/-- The sets of records that shorthands stand for. -/
inductive Selects : BaseExpr → (TraceFormat → Prop) → Prop
  | flow {value : List Char} {sip dip sport dport : Nat}
      (h : scanFlow value = some (sip, dip, sport, dport)) :
      Selects ⟨"flow".toList, "=".toList, value⟩ (OfFlow sip dip sport dport)
  | biflow {value : List Char} {sip dip sport dport : Nat}
      (h : scanFlow value = some (sip, dip, sport, dport)) :
      Selects ⟨"biflow".toList, "=".toList, value⟩
        fun tr => OfFlow sip dip sport dport tr ∨ OfFlow dip sip dport sport tr
  | rflow {value : List Char} {sip dip sport dport : Nat}
      (h : scanFlow value = some (sip, dip, sport, dport)) :
      Selects ⟨"rflow".toList, "=".toList, value⟩ (OfFlow dip sip dport sport)
  | queue {value : List Char} {node intf qidx : Nat} (h : scanQueue value = some (node, intf, qidx)) :
      Selects ⟨"queue".toList, "=".toList, value⟩ (OfQueue node intf qidx)

def combine (op : Char) (P Q : TraceFormat → Prop) (tr : TraceFormat) : Prop :=
  if op = '&' then P tr ∧ Q tr else P tr ∨ Q tr

/-- `Means stale s P`: the text `s` is an expression for the records in `P`. Operands are base
expressions and expressions in brackets; what stands behind the first operator is its right operand,
whatever the operators are. -/
inductive Means (stale : Nat) : List Char → (TraceFormat → Prop) → Prop
  | field {s : List Char} {b : BaseExpr} {f : Field} (h : MatchesBase s b [])
      (hfield : getField stale b = some f) : Means stale s fun tr => f.test tr = true
  | shorthand {s : List Char} {b : BaseExpr} {P : TraceFormat → Prop} (h : MatchesBase s b [])
      (hP : Selects b P) : Means stale s P
  | bracket {w w' inner : List Char} {P : TraceFormat → Prop} (hw : ∀ c ∈ w, isspace c = true)
      (hw' : ∀ c ∈ w', isspace c = true) (hP : Means stale inner P) :
      Means stale (w ++ '(' :: (inner ++ ')' :: w')) P
  | joinBase {left right : List Char} {b : BaseExpr} {op : Char} {P Q : TraceFormat → Prop}
      (h : MatchesBase left b []) (hP : Means stale left P) (hop : isJoin op = true)
      (hline : ∀ c ∈ right, isNewline c = false) (hQ : Means stale right Q) :
      Means stale (left ++ op :: right) (combine op P Q)
  | joinBracket {w w' inner right tail : List Char} {op : Char} {P Q : TraceFormat → Prop}
      (hw : ∀ c ∈ w, isspace c = true) (hP : Means stale inner P)
      (hw' : ∀ c ∈ w', isspace c = true) (hop : isJoin op = true)
      (hline : ∀ c ∈ right, isNewline c = false) (htail : ∀ c ∈ tail, isspace c = true)
      (hstop : Stops (!isNewline ·) tail) (hQ : Means stale right Q) :
      Means stale (w ++ '(' :: (inner ++ ')' :: (w' ++ op :: (right ++ tail)))) (combine op P Q)

theorem Node.join_test (op : Char) (l r : Node) (tr : TraceFormat) :
    (Node.join op l r).test tr = true ↔
      combine op (fun tr => l.test tr = true) (fun tr => r.test tr = true) tr := by
  rw [Node.join, combine]
  split_ifs with h
  · rw [Node.test, Bool.and_eq_true]
  · rw [Node.test, Bool.or_eq_true]

theorem flowNode_test (sip dip sport dport : Nat) (tr : TraceFormat) :
    (flowNode sip dip sport dport).test tr = true ↔ OfFlow sip dip sport dport tr := by
  have hack : tr.get .ackSport = tr.get .dataSport ∧ tr.get .ackDport = tr.get .dataDport := ⟨rfl, rfl⟩
  have hqp : tr.get .qpSport = tr.get .dataSport ∧ tr.get .qpDport = tr.get .dataDport := ⟨rfl, rfl⟩
  simp only [flowNode, kindsNode, udpNode, ackNode, qpNode, portsNode, Node.test, Bool.and_eq_true,
    Bool.or_eq_true, eqField_test, hack.1, hack.2, hqp.1, hqp.2]
  constructor
  · rintro ⟨hsip, hdip, ⟨hkind, hsport, hdport⟩ | ⟨hkind, hsport, hdport⟩ | ⟨hkind, hsport, hdport⟩⟩
    · exact ⟨hsip, hdip, by simp [hkind], hsport, hdport⟩
    · rcases hkind with hkind | hkind
      · exact ⟨hsip, hdip, by simp [hkind], hsport, hdport⟩
      · exact ⟨hsip, hdip, by simp [hkind], hsport, hdport⟩
    · exact ⟨hsip, hdip, by simp [hkind], hsport, hdport⟩
  · rintro ⟨hsip, hdip, hkind, hsport, hdport⟩
    simp only [List.mem_cons, List.not_mem_nil, or_false] at hkind
    refine ⟨hsip, hdip, ?_⟩
    rcases hkind with hkind | hkind | hkind | hkind
    · exact .inl ⟨hkind, hsport, hdport⟩
    · exact .inr (.inl ⟨.inl hkind, hsport, hdport⟩)
    · exact .inr (.inl ⟨.inr hkind, hsport, hdport⟩)
    · exact .inr (.inr ⟨hkind, hsport, hdport⟩)

theorem queueNode_test (node intf qidx : Nat) (tr : TraceFormat) :
    (queueNode node intf qidx).test tr = true ↔ OfQueue node intf qidx tr := by
  simp only [queueNode, Node.test, Bool.and_eq_true, eqField_test]
  exact ⟨fun h => ⟨h.1, h.2.1, h.2.2⟩, fun h => ⟨h.node, h.intf, h.qidx⟩⟩

/-- The tree that a shorthand stands for tests for the set that it stands for. -/
theorem Expands.selects {b : BaseExpr} {buf : List Char} {t : Node} (h : Expands b buf t) :
    Selects b fun tr => t.test tr = true := by
  cases h with
  | flow h => simpa only [flowNode_test] using Selects.flow h
  | biflow h =>
      simpa only [Node.test, Bool.or_eq_true, flowNode_test] using Selects.biflow h
  | rflow h => simpa only [flowNode_test] using Selects.rflow h
  | queue h => simpa only [queueNode_test] using Selects.queue h

theorem Selects.expands {b : BaseExpr} {P : TraceFormat → Prop} (h : Selects b P) :
    ∃ buf t, Expands b buf t ∧ ∀ tr, t.test tr = true ↔ P tr := by
  cases h with
  | flow h => exact ⟨_, _, .flow h, flowNode_test _ _ _ _⟩
  | biflow h =>
      refine ⟨_, _, .biflow h, fun tr => ?_⟩
      rw [Node.test, Bool.or_eq_true, flowNode_test, flowNode_test]
  | rflow h => exact ⟨_, _, .rflow h, flowNode_test _ _ _ _⟩
  | queue h => exact ⟨_, _, .queue h, queueNode_test _ _ _⟩

theorem Expands.getField_eq_none {stale : Nat} {b : BaseExpr} {buf : List Char} {t : Node}
    (h : Expands b buf t) : getField stale b = none := by
  cases h <;> rfl

section Semantics

variable {stale : Nat}

theorem Node.join_test_eq (op : Char) (l r : Node) :
    (fun tr => (Node.join op l r).test tr = true) =
      combine op (fun tr => l.test tr = true) (fun tr => r.test tr = true) :=
  funext fun tr => propext (Node.join_test op l r tr)

/-- The tree of an expression tests for what the expression means. -/
theorem Derives.means {n : Nat} {s : List Char} {t : Node} (h : Derives stale n s t) :
    Means stale s fun tr => t.test tr = true := by
  induction h with
  | field h hfield => exact .field h hfield
  | shorthand h _ hbuf ht _ =>
      obtain ⟨t', ht'⟩ := expands_of_expandShorthand hbuf
      obtain rfl := ht.unique ht'.derives
      exact .shorthand h ht'.selects
  | bracket hw hw' _ ih => exact .bracket hw hw' ih
  | joinBase h _ hop hline _ ihl ihr =>
      rw [Node.join_test_eq]
      exact .joinBase h ihl hop hline ihr
  | joinBracket hw _ hw' hop hline htail hstop _ ihl ihr =>
      rw [Node.join_test_eq]
      exact .joinBracket hw ihl hw' hop hline htail hstop ihr

theorem Means.derives {s : List Char} {P : TraceFormat → Prop} (h : Means stale s P) :
    ∃ n t, Derives stale n s t ∧ ∀ tr, t.test tr = true ↔ P tr := by
  induction h with
  | field h hfield => exact ⟨1, _, .field h hfield, fun _ => Iff.rfl⟩
  | shorthand h hP =>
      obtain ⟨buf, t, ht, htest⟩ := hP.expands
      exact ⟨9, t, .shorthand h ht.getField_eq_none ht.expandShorthand_eq ht.derives, htest⟩
  | bracket hw hw' _ ih =>
      obtain ⟨n, t, ht, htest⟩ := ih
      exact ⟨n, t, .bracket hw hw' ht, htest⟩
  | @joinBase _ _ _ op _ _ h _ hop hline _ ihl ihr =>
      obtain ⟨n, l, hl, hltest⟩ := ihl
      obtain ⟨m, r, hr, hrtest⟩ := ihr
      refine ⟨max n m + 1, _, .joinBase h (hl.mono (Nat.le_max_left n m)) hop hline
        (hr.mono (Nat.le_max_right n m)), fun tr => ?_⟩
      rw [Node.join_test, combine, combine, hltest, hrtest]
  | @joinBracket _ _ _ _ _ op _ _ hw _ hw' hop hline htail hstop _ ihl ihr =>
      obtain ⟨n, l, hl, hltest⟩ := ihl
      obtain ⟨m, r, hr, hrtest⟩ := ihr
      refine ⟨max n m + 1, _, .joinBracket hw (hl.mono (Nat.le_max_left n m)) hw' hop hline htail
        hstop (hr.mono (Nat.le_max_right n m)), fun tr => ?_⟩
      rw [Node.join_test, combine, combine, hltest, hrtest]

/-- `_parse` ends within a depth that the text bounds. Filters are the texts that mean something, and a
filter passes the records that it means. -/
theorem means_iff_parse (s : List Char) (P : TraceFormat → Prop) :
    (parseExpr stale (s.length + 12) s).isSome = true ∧
      (Means stale s P ↔ ∃ t, parse stale s = some t ∧ ∀ tr, t.test tr = true ↔ P tr) := by
  refine ⟨parseExpr_isSome (by omega), ?_, ?_⟩
  · intro h
    obtain ⟨n, t, ht, htest⟩ := h.derives
    exact ⟨t, parse_eq_some.mpr ⟨n, ht⟩, htest⟩
  · rintro ⟨t, hparse, htest⟩
    obtain ⟨n, ht⟩ := parse_eq_some.mp hparse
    have hP : (fun tr => t.test tr = true) = P := funext fun tr => propext (htest tr)
    exact hP ▸ ht.means

/-- There is no precedence: what follows the first operator belongs together. -/
example : parse stale "node=1&intf=2|qidx=3".toList =
    some (.and (eqField .node 1) (.or (eqField .intf 2) (eqField .qidx 3))) := by
  rfl

end Semantics

end CollectiveSim.Trace
