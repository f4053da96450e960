import CollectiveSim.Trace.Filter

/-!
# The language of filter expressions

What the regular expressions match, stated without a scanner, and the grammar of filters: operands
are base expressions and expressions in brackets, and both operators are right-associative and bind
alike.
-/

namespace CollectiveSim.Trace

open Framework

/-! ## Classes of characters -/

theorem isspace_iff {c : Char} : isspace c = true ↔ c.toNat = 32 ∨ (9 ≤ c.toNat ∧ c.toNat ≤ 13) := by
  simp [isspace]

theorem toNat_of_isFieldChar {c : Char} (h : isFieldChar c = true) :
    46 ≤ c.toNat ∧ c.toNat ≤ 122 ∧ (c.toNat ≤ 57 ∨ 65 ≤ c.toNat) := by
  simp only [isFieldChar, Bool.or_eq_true, Bool.and_eq_true, decide_eq_true_eq] at h
  rcases h with ((h | h) | h) | h
  · omega
  · omega
  · omega
  · rw [h]
    decide

theorem toNat_of_isValueChar {c : Char} (h : isValueChar c = true) :
    44 ≤ c.toNat ∧ c.toNat ≤ 120 ∧ (c.toNat ≤ 57 ∨ 65 ≤ c.toNat) := by
  simp only [isValueChar, Bool.or_eq_true, decide_eq_true_eq] at h
  rcases h with (h | h) | h
  · rw [h]
    decide
  · rw [h]
    decide
  · simp only [digitValue] at h
    split_ifs at h <;> omega

theorem toNat_of_isJoin {c : Char} (h : isJoin c = true) : c.toNat = 38 ∨ c.toNat = 124 := by
  simp only [isJoin, Bool.or_eq_true, decide_eq_true_eq] at h
  rcases h with h | h
  · rw [h]
    decide
  · rw [h]
    decide

theorem isspace_of_toNat {c : Char} (h : 33 ≤ c.toNat) : isspace c = false := by
  rw [Bool.eq_false_iff, Ne, isspace_iff]
  omega

theorem not_isspace_of_isFieldChar (c : Char) (h : isFieldChar c = true) : isspace c = false := by
  have hn := toNat_of_isFieldChar h
  exact isspace_of_toNat (by omega)

theorem not_isspace_of_isValueChar (c : Char) (h : isValueChar c = true) : isspace c = false := by
  have hn := toNat_of_isValueChar h
  exact isspace_of_toNat (by omega)

theorem not_isspace_of_isJoin {c : Char} (h : isJoin c = true) : isspace c = false := by
  have hn := toNat_of_isJoin h
  exact isspace_of_toNat (by omega)

theorem not_isFieldChar_of_isspace (c : Char) (h : isspace c = true) : isFieldChar c = false := by
  by_contra hfield
  rw [not_isspace_of_isFieldChar c (by simpa using hfield)] at h
  cases h

theorem not_isValueChar_of_isspace (c : Char) (h : isspace c = true) : isValueChar c = false := by
  by_contra hvalue
  rw [not_isspace_of_isValueChar c (by simpa using hvalue)] at h
  cases h

theorem not_isValueChar_of_isJoin {c : Char} (h : isJoin c = true) : isValueChar c = false := by
  by_contra hvalue
  have hv := toNat_of_isValueChar (by simpa using hvalue)
  have hn := toNat_of_isJoin h
  omega

/-! ## The base expression -/

/-- `\s*([a-zA-Z0-9\.]+)\s*(=|>|>=|<|<=|!=)\s*([x,[:xdigit:]]+)\s*`, and what follows it. -/
inductive MatchesBase : List Char → BaseExpr → List Char → Prop
  | mk {w₁ w₂ w₃ w₄ field op value rest : List Char} (h₁ : ∀ c ∈ w₁, isspace c = true)
      (hne : field ≠ []) (hfield : ∀ c ∈ field, isFieldChar c = true)
      (h₂ : ∀ c ∈ w₂, isspace c = true) (hop : op ∈ comparisons) (h₃ : ∀ c ∈ w₃, isspace c = true)
      (hne' : value ≠ []) (hvalue : ∀ c ∈ value, isValueChar c = true)
      (h₄ : ∀ c ∈ w₄, isspace c = true) :
      MatchesBase (w₁ ++ (field ++ (w₂ ++ (op ++ (w₃ ++ (value ++ (w₄ ++ rest)))))))
        ⟨field, op, value⟩ rest

theorem matchCompare_append {op s : List Char} (hop : op ∈ comparisons) (hs : s.head? ≠ some '=') :
    matchCompare (op ++ s) = some (op, s) := by
  simp only [comparisons, List.mem_cons, List.not_mem_nil, or_false] at hop
  rcases hop with rfl | rfl | rfl | rfl | rfl | rfl
  · rfl
  · simp [matchCompare, hs]
  · rfl
  · simp [matchCompare, hs]
  · rfl
  · rfl

theorem matchCompare_eq_some {s op rest : List Char} (h : matchCompare s = some (op, rest)) :
    op ∈ comparisons ∧ s = op ++ rest := by
  cases s with
  | nil => cases h
  | cons c s =>
      rw [matchCompare] at h
      split_ifs at h with heq hangle hnext hbang
      · cases h
        rw [heq]
        exact ⟨by decide, rfl⟩
      · cases h
        obtain ⟨s', hs⟩ : ∃ s', s = '=' :: s' := by
          cases s with
          | nil => cases hnext
          | cons x s' => exact ⟨s', by simpa using hnext⟩
        rw [hs]
        rcases hangle with hc | hc
        · rw [hc]
          exact ⟨by decide, rfl⟩
        · rw [hc]
          exact ⟨by decide, rfl⟩
      · cases h
        rcases hangle with hc | hc
        · rw [hc]
          exact ⟨by decide, rfl⟩
        · rw [hc]
          exact ⟨by decide, rfl⟩
      · cases h
        obtain ⟨s', hs⟩ : ∃ s', s = '=' :: s' := by
          cases s with
          | nil => cases hbang.2
          | cons x s' => exact ⟨s', by simpa using hbang.2⟩
        rw [hs, hbang.1]
        exact ⟨by decide, rfl⟩

theorem comparison_shape {op : List Char} (hop : op ∈ comparisons) :
    ∃ c ∈ ['=', '>', '<', '!'], op = [c] ∨ op = [c, '='] := by
  simp only [comparisons, List.mem_cons, List.not_mem_nil, or_false] at hop
  rcases hop with rfl | rfl | rfl | rfl | rfl | rfl
  · exact ⟨'=', by decide, .inl rfl⟩
  · exact ⟨'>', by decide, .inl rfl⟩
  · exact ⟨'>', by decide, .inr rfl⟩
  · exact ⟨'<', by decide, .inl rfl⟩
  · exact ⟨'<', by decide, .inr rfl⟩
  · exact ⟨'!', by decide, .inr rfl⟩

theorem toNat_of_mem_comparison {op : List Char} (hop : op ∈ comparisons) {c : Char} (h : c ∈ op) :
    c.toNat = 33 ∨ (60 ≤ c.toNat ∧ c.toNat ≤ 62) := by
  obtain ⟨d, hd, rfl | rfl⟩ := comparison_shape hop
  · simp only [List.mem_cons, List.not_mem_nil, or_false] at hd h
    rcases hd with rfl | rfl | rfl | rfl <;> rw [h] <;> decide
  · simp only [List.mem_cons, List.not_mem_nil, or_false] at hd h
    rcases h with rfl | rfl
    · rcases hd with rfl | rfl | rfl | rfl <;> decide
    · decide

theorem stops_comparison {p : Char → Bool} {op s : List Char} (hop : op ∈ comparisons)
    (h : ∀ c ∈ ['=', '>', '<', '!'], p c = false) : Stops p (op ++ s) := by
  obtain ⟨c, hc, rfl | rfl⟩ := comparison_shape hop
  · exact (stops_cons _ _ _).mpr (h c hc)
  · exact (stops_cons _ _ _).mpr (h c hc)

theorem head?_ne_equals {s : List Char} (h : Stops (· = '=') s) : s.head? ≠ some '=' := by
  intro hs
  have hstop := h '=' hs
  simp at hstop

theorem MatchesBase.matchBase_eq {s rest : List Char} {b : BaseExpr} (h : MatchesBase s b rest)
    (hspace : Stops isspace rest) (hvalue : Stops isValueChar rest) :
    matchBase s = some (b, rest) := by
  obtain ⟨h₁, hne, hfield, h₂, hop, h₃, hne', hval, h₄⟩ := h
  rename_i w₁ w₂ w₃ w₄ field op value
  have hspaces : ∀ c ∈ ['=', '>', '<', '!'], isspace c = false := by simp [isspace]
  have hfields : ∀ c ∈ ['=', '>', '<', '!'], isFieldChar c = false := by simp [isFieldChar]
  have hbehind : Stops isValueChar (w₄ ++ rest) :=
    .of_disjoint h₄ not_isValueChar_of_isspace fun _ => hvalue
  have hequals : Stops (· = '=') (w₃ ++ (value ++ (w₄ ++ rest))) := by
    refine .of_disjoint h₃ ?_ fun _ => .of_disjoint hval ?_ fun hnil => absurd hnil hne'
    · intro c hc
      rw [isspace_iff] at hc
      refine decide_eq_false fun heq => ?_
      rw [heq] at hc
      exact absurd hc (by decide)
    · intro c hc
      refine decide_eq_false fun heq => ?_
      rw [heq] at hc
      exact absurd hc (by decide)
  have hone : skipSpace (w₁ ++ (field ++ (w₂ ++ (op ++ (w₃ ++ (value ++ (w₄ ++ rest))))))) =
      field ++ (w₂ ++ (op ++ (w₃ ++ (value ++ (w₄ ++ rest))))) :=
    dropWhile_run h₁ (.of_disjoint hfield not_isspace_of_isFieldChar fun hnil => absurd hnil hne)
  have hstop : Stops isFieldChar (w₂ ++ (op ++ (w₃ ++ (value ++ (w₄ ++ rest))))) :=
    .of_disjoint h₂ not_isFieldChar_of_isspace fun _ => stops_comparison hop hfields
  have htwo : skipSpace (w₂ ++ (op ++ (w₃ ++ (value ++ (w₄ ++ rest))))) =
      op ++ (w₃ ++ (value ++ (w₄ ++ rest))) :=
    dropWhile_run h₂ (stops_comparison hop hspaces)
  have hthree : skipSpace (w₃ ++ (value ++ (w₄ ++ rest))) = value ++ (w₄ ++ rest) :=
    dropWhile_run h₃ (.of_disjoint hval not_isspace_of_isValueChar fun hnil => absurd hnil hne')
  have hfour : skipSpace (w₄ ++ rest) = rest := dropWhile_run h₄ hspace
  simp only [matchBase, hone, takeWhile_run hfield hstop, dropWhile_run hfield hstop, if_neg hne,
    htwo, matchCompare_append hop (head?_ne_equals hequals), hthree, takeWhile_run hval hbehind,
    dropWhile_run hval hbehind, if_neg hne', hfour]

theorem matchBase_eq_some {s rest : List Char} {b : BaseExpr} (h : matchBase s = some (b, rest)) :
    MatchesBase s b rest := by
  obtain ⟨w₁, hs, h₁⟩ := exists_run_split isspace s
  simp only [matchBase] at h
  rw [← skipSpace] at hs
  generalize skipSpace s = s₁ at h hs
  have hsplit := List.takeWhile_append_dropWhile (p := isFieldChar) (l := s₁)
  have hfield : ∀ c ∈ s₁.takeWhile isFieldChar, isFieldChar c = true := fun _ => List.mem_takeWhile_imp
  generalize s₁.takeWhile isFieldChar = field at h hsplit hfield
  generalize s₁.dropWhile isFieldChar = s₂ at h hsplit
  by_cases hne : field = []
  · rw [if_pos hne] at h
    cases h
  rw [if_neg hne] at h
  obtain ⟨w₂, hs₂, h₂⟩ := exists_run_split isspace s₂
  rw [← skipSpace] at hs₂
  generalize skipSpace s₂ = s₃ at h hs₂
  cases hcompare : matchCompare s₃ with
  | none =>
      rw [hcompare] at h
      cases h
  | some found =>
      obtain ⟨op, s₄⟩ := found
      obtain ⟨hop, hs₃⟩ := matchCompare_eq_some hcompare
      simp only [hcompare] at h
      obtain ⟨w₃, hs₄, h₃⟩ := exists_run_split isspace s₄
      rw [← skipSpace] at hs₄
      generalize skipSpace s₄ = s₅ at h hs₄
      have hsplit' := List.takeWhile_append_dropWhile (p := isValueChar) (l := s₅)
      have hvalue : ∀ c ∈ s₅.takeWhile isValueChar, isValueChar c = true := fun _ =>
        List.mem_takeWhile_imp
      generalize s₅.takeWhile isValueChar = value at h hsplit' hvalue
      generalize s₅.dropWhile isValueChar = s₆ at h hsplit'
      by_cases hne' : value = []
      · rw [if_pos hne'] at h
        cases h
      rw [if_neg hne', Option.some_inj, Prod.mk.injEq] at h
      obtain ⟨w₄, hs₆, h₄⟩ := exists_run_split isspace s₆
      rw [← skipSpace] at hs₆
      rw [hs, ← hsplit, hs₂, hs₃, hs₄, ← hsplit', hs₆, ← h.1, ← h.2]
      exact .mk h₁ hne hfield h₂ hop h₃ hne' hvalue h₄

theorem MatchesBase.append {s : List Char} {b : BaseExpr} (h : MatchesBase s b [])
    (rest : List Char) : MatchesBase (s ++ rest) b rest := by
  obtain ⟨h₁, hne, hfield, h₂, hop, h₃, hne', hval, h₄⟩ := h
  simp only [List.append_nil, List.append_assoc]
  exact .mk h₁ hne hfield h₂ hop h₃ hne' hval h₄

theorem MatchesBase.exists_left {s rest : List Char} {b : BaseExpr} (h : MatchesBase s b rest) :
    ∃ left, s = left ++ rest ∧ MatchesBase left b [] := by
  obtain ⟨h₁, hne, hfield, h₂, hop, h₃, hne', hval, h₄⟩ := h
  rename_i w₁ w₂ w₃ w₄ field op value
  refine ⟨w₁ ++ (field ++ (w₂ ++ (op ++ (w₃ ++ (value ++ (w₄ ++ [])))))), ?_,
    .mk h₁ hne hfield h₂ hop h₃ hne' hval h₄⟩
  simp

theorem regexBase_eq_some {s : List Char} {b : BaseExpr} :
    regexBase s = some b ↔ MatchesBase s b [] := by
  constructor
  · intro h
    rw [regexBase] at h
    split at h
    · next b' hmatch =>
      cases h
      exact matchBase_eq_some hmatch
    · cases h
    · cases h
  · intro h
    rw [regexBase, h.matchBase_eq (stops_nil _) (stops_nil _)]

theorem regexBaseJoin_eq_some {s right : List Char} {b : BaseExpr} {op : Char} :
    regexBaseJoin s = some (b, op, right) ↔
      MatchesBase s b (op :: right) ∧ isJoin op = true ∧ ∀ c ∈ right, isNewline c = false := by
  constructor
  · intro h
    rw [regexBaseJoin] at h
    split at h
    · next b' c right' hmatch =>
      split_ifs at h with hline
      cases h
      exact ⟨matchBase_eq_some hmatch, by simpa using hline⟩
    · cases h
    · cases h
  · rintro ⟨hmatch, hjoin, hline⟩
    have hspace := (stops_cons isspace op right).mpr (not_isspace_of_isJoin hjoin)
    have hvalue := (stops_cons isValueChar op right).mpr (not_isValueChar_of_isJoin hjoin)
    have hall : right.all (!isNewline ·) = true := by simpa using hline
    rw [regexBaseJoin, hmatch.matchBase_eq hspace hvalue]
    exact if_pos ⟨hjoin, hall⟩

theorem regexBase_eq_none {s right : List Char} {b : BaseExpr} {op : Char}
    (h : MatchesBase s b (op :: right)) (hjoin : isJoin op = true) : regexBase s = none := by
  have hspace := (stops_cons isspace op right).mpr (not_isspace_of_isJoin hjoin)
  have hvalue := (stops_cons isValueChar op right).mpr (not_isValueChar_of_isJoin hjoin)
  rw [regexBase, h.matchBase_eq hspace hvalue]

theorem regexJoin_eq_some {s right : List Char} {op : Char} :
    regexJoin s = some (op, right) ↔
      ∃ w tail, s = w ++ op :: (right ++ tail) ∧ (∀ c ∈ w, isspace c = true) ∧ isJoin op = true ∧
        (∀ c ∈ right, isNewline c = false) ∧ (∀ c ∈ tail, isspace c = true) ∧
        Stops (!isNewline ·) tail := by
  constructor
  · intro h
    obtain ⟨w, hs, hw⟩ := exists_run_split isspace s
    rw [regexJoin] at h
    rw [← skipSpace] at hs
    split at h
    · cases h
    · next c s' hskip =>
      split_ifs at h with hline
      cases h
      obtain ⟨hjoin, htail⟩ := hline
      have hsplit := List.takeWhile_append_dropWhile (p := (!isNewline ·)) (l := s')
      refine ⟨w, s'.dropWhile (!isNewline ·), ?_, hw, hjoin, ?_, by simpa using htail,
        stops_dropWhile _ _⟩
      · rw [hsplit, ← hskip]
        exact hs
      · intro c hc
        simpa using List.mem_takeWhile_imp hc
  · rintro ⟨w, tail, rfl, hw, hjoin, hright, htail, hstop⟩
    have hskip : skipSpace (w ++ op :: (right ++ tail)) = op :: (right ++ tail) :=
      dropWhile_run hw ((stops_cons _ _ _).mpr (not_isspace_of_isJoin hjoin))
    have hall : ∀ c ∈ right, (!isNewline c) = true := by simpa using hright
    have hspaces : tail.all isspace = true := by simpa using htail
    simp only [regexJoin, hskip, takeWhile_run hall hstop, dropWhile_run hall hstop]
    exact if_pos ⟨hjoin, hspaces⟩

/-! ## Filter expressions -/

section Grammar

variable (stale : Nat)

/-- `Derives stale n s t`: the text `s` is an expression for `t`, nested at most `n` deep. -/
inductive Derives : Nat → List Char → Node → Prop
  | field {n : Nat} {s : List Char} {b : BaseExpr} {f : Field} (h : MatchesBase s b [])
      (hfield : getField stale b = some f) : Derives (n + 1) s (.expr f)
  | shorthand {n : Nat} {s buf : List Char} {b : BaseExpr} {t : Node} (h : MatchesBase s b [])
      (hfield : getField stale b = none) (hbuf : expandShorthand b = some buf)
      (ht : Derives n buf t) : Derives (n + 1) s t
  | bracket {n : Nat} {w w' inner : List Char} {t : Node} (hw : ∀ c ∈ w, isspace c = true)
      (hw' : ∀ c ∈ w', isspace c = true) (ht : Derives n inner t) :
      Derives n (w ++ '(' :: (inner ++ ')' :: w')) t
  | joinBase {n : Nat} {left right : List Char} {b : BaseExpr} {op : Char} {l r : Node}
      (h : MatchesBase left b []) (hl : Derives n left l) (hop : isJoin op = true)
      (hline : ∀ c ∈ right, isNewline c = false) (hr : Derives n right r) :
      Derives (n + 1) (left ++ op :: right) (.join op l r)
  | joinBracket {n : Nat} {w w' inner right tail : List Char} {op : Char} {l r : Node}
      (hw : ∀ c ∈ w, isspace c = true) (hl : Derives n inner l)
      (hw' : ∀ c ∈ w', isspace c = true) (hop : isJoin op = true)
      (hline : ∀ c ∈ right, isNewline c = false) (htail : ∀ c ∈ tail, isspace c = true)
      (hstop : Stops (!isNewline ·) tail) (hr : Derives n right r) :
      Derives (n + 1) (w ++ '(' :: (inner ++ ')' :: (w' ++ op :: (right ++ tail)))) (.join op l r)

variable {stale}

theorem Derives.mono {n m : Nat} {s : List Char} {t : Node} (h : Derives stale n s t) (hnm : n ≤ m) :
    Derives stale m s t := by
  induction h generalizing m with
  | field h hfield =>
      obtain ⟨m, rfl⟩ := Nat.exists_eq_add_of_le' (Nat.le_of_add_left_le hnm)
      exact .field h hfield
  | shorthand h hfield hbuf _ ih =>
      obtain ⟨m, rfl⟩ := Nat.exists_eq_add_of_le' (Nat.le_of_add_left_le hnm)
      exact .shorthand h hfield hbuf (ih (Nat.le_of_succ_le_succ hnm))
  | bracket hw hw' _ ih => exact .bracket hw hw' (ih hnm)
  | joinBase h _ hop hline _ ihl ihr =>
      obtain ⟨m, rfl⟩ := Nat.exists_eq_add_of_le' (Nat.le_of_add_left_le hnm)
      exact .joinBase h (ihl (Nat.le_of_succ_le_succ hnm)) hop hline
        (ihr (Nat.le_of_succ_le_succ hnm))
  | joinBracket hw _ hw' hop hline htail hstop _ ihl ihr =>
      obtain ⟨m, rfl⟩ := Nat.exists_eq_add_of_le' (Nat.le_of_add_left_le hnm)
      exact .joinBracket hw (ihl (Nat.le_of_succ_le_succ hnm)) hw' hop hline htail hstop
        (ihr (Nat.le_of_succ_le_succ hnm))

end Grammar

/-! ## Brackets -/

theorem no_bracket {c : Char} (h : c.toNat ≠ 40 ∧ c.toNat ≠ 41) : c ≠ '(' ∧ c ≠ ')' :=
  ⟨fun heq => h.1 (by rw [heq]; rfl), fun heq => h.2 (by rw [heq]; rfl)⟩

theorem balanced_spaces {w : List Char} (h : ∀ c ∈ w, isspace c = true) : Balanced '(' ')' w := by
  refine .of_forall fun c hc => no_bracket ?_
  have hspace := isspace_iff.mp (h c hc)
  omega

theorem balanced_operator {op : Char} (h : isJoin op = true) : Balanced '(' ')' [op] := by
  have hn := toNat_of_isJoin h
  obtain ⟨hopening, hclosing⟩ := no_bracket (c := op) (by omega)
  exact .other hopening hclosing

theorem MatchesBase.balanced {s : List Char} {b : BaseExpr} (h : MatchesBase s b []) :
    Balanced '(' ')' s := by
  obtain ⟨h₁, -, hfield, h₂, hop, h₃, -, hval, h₄⟩ := h
  rename_i field op value
  have hfield' : Balanced '(' ')' field := .of_forall fun c hc => by
    have hn := toNat_of_isFieldChar (hfield c hc)
    exact no_bracket (by omega)
  have hop' : Balanced '(' ')' op := .of_forall fun c hc => by
    have hn := toNat_of_mem_comparison hop hc
    exact no_bracket (by omega)
  have hvalue' : Balanced '(' ')' value := .of_forall fun c hc => by
    have hn := toNat_of_isValueChar (hval c hc)
    exact no_bracket (by omega)
  exact (balanced_spaces h₁).append (hfield'.append ((balanced_spaces h₂).append (hop'.append
    ((balanced_spaces h₃).append (hvalue'.append ((balanced_spaces h₄).append .nil))))))

/-- Brackets in an expression are closed in it. -/
theorem Derives.balanced {stale n : Nat} {s : List Char} {t : Node} (h : Derives stale n s t) :
    Balanced '(' ')' s := by
  induction h with
  | field h _ => exact h.balanced
  | shorthand h _ _ _ _ => exact h.balanced
  | bracket hw hw' _ ih =>
      have hsplit := (balanced_spaces hw).append (ih.nest.append (balanced_spaces hw'))
      simpa using hsplit
  | joinBase _ _ hop _ _ ihl ihr => exact ihl.append ((balanced_operator hop).append ihr)
  | joinBracket hw _ hw' hop _ htail _ _ ihl ihr =>
      have hsplit := (balanced_spaces hw).append (ihl.nest.append ((balanced_spaces hw').append
        ((balanced_operator hop).append (ihr.append (balanced_spaces htail)))))
      simpa using hsplit

end CollectiveSim.Trace
