import CollectiveSim.Trace.Grammar

/-!
# The parser against the grammar

Everything that the parser accepts is derived by the grammar, and what is derived is accepted, once
the recursion may go deep enough.
-/

namespace CollectiveSim.Trace

open Framework

/-! ## Outer brackets -/

theorem skipSpace_append {w s : List Char} (hw : ∀ c ∈ w, isspace c = true) (hs : Stops isspace s) :
    skipSpace (w ++ s) = s :=
  dropWhile_run hw hs

theorem skipSpace_eq_cons {s rest : List Char} {c : Char} (h : skipSpace s = c :: rest) :
    ∃ w, s = w ++ c :: rest ∧ ∀ x ∈ w, isspace x = true := by
  obtain ⟨w, hs, hw⟩ := exists_run_split isspace s
  rw [← skipSpace, h] at hs
  exact ⟨w, hs, hw⟩

theorem skipSpace_eq_nil {s : List Char} (h : skipSpace s = []) : ∀ c ∈ s, isspace c = true :=
  List.dropWhile_eq_nil_iff.mp h

theorem stops_opening (s : List Char) : Stops isspace ('(' :: s) := (stops_cons _ _ _).mpr rfl

theorem skipSpace_spaces {w : List Char} (hw : ∀ c ∈ w, isspace c = true) : skipSpace w = [] :=
  List.dropWhile_eq_nil_iff.mpr hw

theorem stripOuterBracket_bracket {w w' inner : List Char} (hw : ∀ c ∈ w, isspace c = true)
    (hw' : ∀ c ∈ w', isspace c = true) (hinner : Balanced '(' ')' inner) (fuel : Nat) :
    stripOuterBracket (fuel + 1) (w ++ '(' :: (inner ++ ')' :: w')) =
      stripOuterBracket fuel inner := by
  have hsplit := hinner.splitAtClosing_eq (by decide) w'
  rw [stripOuterBracket, skipSpace_append hw (stops_opening _)]
  simp only [if_true, hsplit, skipSpace_spaces hw']

theorem stripOuterBracket_joined {w inner behind : List Char} (hw : ∀ c ∈ w, isspace c = true)
    (hinner : Balanced '(' ')' inner) (hbehind : skipSpace behind ≠ []) (fuel : Nat) :
    stripOuterBracket fuel (w ++ '(' :: (inner ++ ')' :: behind)) =
      w ++ '(' :: (inner ++ ')' :: behind) := by
  cases fuel with
  | zero => rfl
  | succ fuel =>
      have hsplit := hinner.splitAtClosing_eq (by decide) behind
      rw [stripOuterBracket, skipSpace_append hw (stops_opening _)]
      simp only [if_true, hsplit, if_neg hbehind]

theorem MatchesBase.skipSpace_eq {s rest : List Char} {b : BaseExpr} (h : MatchesBase s b rest) :
    ∃ c s', skipSpace s = c :: s' ∧ isFieldChar c = true := by
  obtain ⟨h₁, hne, hfield, h₂, hop, h₃, hne', hval, h₄⟩ := h
  rename_i w₁ w₂ w₃ w₄ field op value
  obtain ⟨c, field, rfl⟩ := List.exists_cons_of_ne_nil hne
  have hc := hfield c List.mem_cons_self
  have hstop := (stops_cons isspace c
    (field ++ (w₂ ++ (op ++ (w₃ ++ (value ++ (w₄ ++ rest))))))).mpr (not_isspace_of_isFieldChar c hc)
  exact ⟨c, _, skipSpace_append h₁ hstop, hc⟩

theorem stripOuterBracket_base {s rest : List Char} {b : BaseExpr} (h : MatchesBase s b rest)
    (fuel : Nat) : stripOuterBracket fuel s = s := by
  cases fuel with
  | zero => rfl
  | succ fuel =>
      obtain ⟨c, s', hs, hc⟩ := h.skipSpace_eq
      have hne : c ≠ '(' := by
        rintro rfl
        exact absurd hc (by decide)
      rw [stripOuterBracket, hs]
      exact if_neg hne

theorem stripOuterBracket_cases (s : List Char) :
    (∀ fuel, stripOuterBracket fuel s = s) ∨
    ∃ w inner behind, s = w ++ '(' :: (inner ++ ')' :: behind) ∧ (∀ c ∈ w, isspace c = true) ∧
      (∀ c ∈ behind, isspace c = true) ∧
      ∀ fuel, stripOuterBracket (fuel + 1) s = stripOuterBracket fuel inner := by
  have hsame : (∀ fuel, stripOuterBracket (fuel + 1) s = s) → ∀ fuel, stripOuterBracket fuel s = s := by
    intro h fuel
    cases fuel with
    | zero => rfl
    | succ fuel => exact h fuel
  cases hs : skipSpace s with
  | nil =>
      left
      refine hsame fun fuel => ?_
      rw [stripOuterBracket, hs]
  | cons c rest =>
      by_cases hc : c = '('
      · cases hsplit : splitAtClosing '(' ')' 1 rest with
        | none =>
            left
            refine hsame fun fuel => ?_
            rw [stripOuterBracket, hs]
            simp only [if_pos hc, hsplit]
        | some found =>
            obtain ⟨inner, behind⟩ := found
            by_cases hend : skipSpace behind = []
            · right
              obtain ⟨w, hw, hspaces⟩ := skipSpace_eq_cons hs
              rw [hc, splitAtClosing_eq_some hsplit] at hw
              refine ⟨w, inner, behind, hw, hspaces, skipSpace_eq_nil hend, fun fuel => ?_⟩
              rw [stripOuterBracket, hs]
              simp only [if_pos hc, hsplit, if_pos hend]
            · left
              refine hsame fun fuel => ?_
              rw [stripOuterBracket, hs]
              simp only [if_pos hc, hsplit, if_neg hend]
      · left
        refine hsame fun fuel => ?_
        rw [stripOuterBracket, hs]
        simp only [if_neg hc]

theorem length_bracketed (w inner behind : List Char) :
    (w ++ '(' :: (inner ++ ')' :: behind)).length = w.length + inner.length + behind.length + 2 := by
  simp only [List.length_append, List.length_cons]
  omega

/-- The length of a text is depth enough. -/
theorem stripOuterBracket_fuel {fuel : Nat} {s : List Char} (h : s.length ≤ fuel) :
    stripOuterBracket fuel s = stripOuterBracket s.length s := by
  induction fuel using Nat.strongRecOn generalizing s with
  | _ fuel ih =>
      rcases stripOuterBracket_cases s with hsame | ⟨w, inner, behind, rfl, -, -, hstrip⟩
      · rw [hsame, hsame]
      · rw [length_bracketed] at h
        obtain ⟨fuel, rfl⟩ := Nat.exists_eq_add_of_le' (by omega : 1 ≤ fuel)
        have hin := ih (w.length + inner.length + behind.length + 1) (by omega) (s := inner) (by omega)
        rw [length_bracketed, hstrip, hstrip, hin, ih fuel (by omega) (by omega)]

theorem length_stripOuterBracket_le (fuel : Nat) (s : List Char) :
    (stripOuterBracket fuel s).length ≤ s.length := by
  induction fuel generalizing s with
  | zero => exact Nat.le_refl _
  | succ fuel ih =>
      rcases stripOuterBracket_cases s with hsame | ⟨w, inner, behind, rfl, -, -, hstrip⟩
      · rw [hsame]
      · have hinner := ih inner
        rw [hstrip, length_bracketed]
        omega

theorem derives_of_strip {stale n : Nat} {t : Node} {fuel : Nat} {s : List Char}
    (h : Derives stale n (stripOuterBracket fuel s) t) : Derives stale n s t := by
  induction fuel generalizing s with
  | zero => exact h
  | succ fuel ih =>
      rcases stripOuterBracket_cases s with hsame | ⟨w, inner, behind, rfl, hw, hbehind, hstrip⟩
      · rwa [hsame] at h
      · rw [hstrip] at h
        exact .bracket hw hbehind (ih h)

/-! ## One step -/

section Step

variable {stale fuel : Nat}

theorem parseExpr_base {s : List Char} {b : BaseExpr} (h : MatchesBase s b []) :
    parseExpr stale (fuel + 1) s = parseBase stale (parseExpr stale fuel) b := by
  rw [parseExpr]
  simp only [stripOuterBracket_base h, regexBase_eq_some.mpr h]

theorem parseExpr_joinBase {left right : List Char} {b : BaseExpr} {op : Char}
    (h : MatchesBase left b []) (hop : isJoin op = true)
    (hline : ∀ c ∈ right, isNewline c = false) :
    parseExpr stale (fuel + 1) (left ++ op :: right) =
      parseRight (parseExpr stale fuel) op right (parseBase stale (parseExpr stale fuel) b) := by
  have happend := h.append (op :: right)
  have hjoin : regexBaseJoin (left ++ op :: right) = some (b, op, right) :=
    regexBaseJoin_eq_some.mpr ⟨happend, hop, hline⟩
  rw [parseExpr]
  simp only [stripOuterBracket_base happend, regexBase_eq_none happend hop, hjoin]

theorem parseExpr_bracket {w w' inner : List Char} (hw : ∀ c ∈ w, isspace c = true)
    (hw' : ∀ c ∈ w', isspace c = true) (hinner : Balanced '(' ')' inner) :
    parseExpr stale (fuel + 1) (w ++ '(' :: (inner ++ ')' :: w')) =
      parseExpr stale (fuel + 1) inner := by
  have hstrip : stripOuterBracket (w ++ '(' :: (inner ++ ')' :: w')).length
      (w ++ '(' :: (inner ++ ')' :: w')) = stripOuterBracket inner.length inner := by
    rw [length_bracketed, stripOuterBracket_bracket hw hw' hinner, stripOuterBracket_fuel (by omega)]
  rw [parseExpr, parseExpr, hstrip]

theorem not_matchesBase {w s rest : List Char} {b : BaseExpr} (hw : ∀ c ∈ w, isspace c = true) :
    ¬ MatchesBase (w ++ '(' :: s) b rest := by
  intro h
  obtain ⟨c, s', hs, hc⟩ := h.skipSpace_eq
  rw [skipSpace_append hw (stops_opening s)] at hs
  cases hs
  exact absurd hc (by decide)

theorem regexBase_opening {w s : List Char} (hw : ∀ c ∈ w, isspace c = true) :
    regexBase (w ++ '(' :: s) = none := by
  cases h : regexBase (w ++ '(' :: s) with
  | none => rfl
  | some b => exact absurd (regexBase_eq_some.mp h) (not_matchesBase hw)

theorem regexBaseJoin_opening {w s : List Char} (hw : ∀ c ∈ w, isspace c = true) :
    regexBaseJoin (w ++ '(' :: s) = none := by
  cases h : regexBaseJoin (w ++ '(' :: s) with
  | none => rfl
  | some found => exact absurd (regexBaseJoin_eq_some.mp h).1 (not_matchesBase hw)

theorem parseExpr_joinBracket {w w' inner right tail : List Char} {op : Char}
    (hw : ∀ c ∈ w, isspace c = true) (hinner : Balanced '(' ')' inner)
    (hw' : ∀ c ∈ w', isspace c = true) (hop : isJoin op = true)
    (hline : ∀ c ∈ right, isNewline c = false) (htail : ∀ c ∈ tail, isspace c = true)
    (hstop : Stops (!isNewline ·) tail) :
    parseExpr stale (fuel + 1) (w ++ '(' :: (inner ++ ')' :: (w' ++ op :: (right ++ tail)))) =
      parseRight (parseExpr stale fuel) op right (parseExpr stale fuel inner) := by
  have hskip : skipSpace (w' ++ op :: (right ++ tail)) ≠ [] := by
    rw [skipSpace_append hw' ((stops_cons _ _ _).mpr (not_isspace_of_isJoin hop))]
    exact List.cons_ne_nil _ _
  have hjoin : regexJoin (w' ++ op :: (right ++ tail)) = some (op, right) :=
    regexJoin_eq_some.mpr ⟨w', tail, rfl, hw', hop, hline, htail, hstop⟩
  have hsplit := hinner.splitAtClosing_eq (by decide) (w' ++ op :: (right ++ tail))
  rw [parseExpr]
  simp only [stripOuterBracket_joined hw hinner hskip, regexBase_opening hw,
    regexBaseJoin_opening hw]
  rw [parseBracket, skipSpace_append hw (stops_opening _)]
  simp only [if_true, hsplit, hjoin]

end Step

/-! ## More depth -/

section More

variable {stale : Nat} {recurse recurse' : List Char → Option (Option Node)}
  (hmore : ∀ s r, recurse s = some r → recurse' s = some r)

include hmore

theorem parseBase_mono {b : BaseExpr} {r : Option Node} (h : parseBase stale recurse b = some r) :
    parseBase stale recurse' b = some r := by
  rw [parseBase] at h ⊢
  cases hfield : getField stale b with
  | some f =>
      rw [hfield] at h
      exact h
  | none =>
      simp only [hfield] at h ⊢
      cases hbuf : expandShorthand b with
      | none =>
          rw [hbuf] at h
          exact h
      | some buf =>
          simp only [hbuf] at h ⊢
          exact hmore buf r h

theorem parseRight_mono {op : Char} {right : List Char} {left left' : Option (Option Node)}
    {r : Option Node} (hleft : ∀ l, left = some l → left' = some l)
    (h : parseRight recurse op right left = some r) :
    parseRight recurse' op right left' = some r := by
  cases left with
  | none => cases h
  | some l =>
      rw [hleft l rfl]
      cases l with
      | none => exact h
      | some l =>
          obtain ⟨found, hfound, rfl⟩ := Option.map_eq_some_iff.mp h
          rw [parseRight, hmore right found hfound, Option.map_some]

theorem parseBracket_mono {s : List Char} {r : Option Node} (h : parseBracket recurse s = some r) :
    parseBracket recurse' s = some r := by
  rw [parseBracket] at h ⊢
  cases hs : skipSpace s with
  | nil =>
      rw [hs] at h
      exact h
  | cons c rest =>
      simp only [hs] at h ⊢
      by_cases hc : c = '('
      · rw [if_pos hc] at h ⊢
        cases hsplit : splitAtClosing '(' ')' 1 rest with
        | none =>
            rw [hsplit] at h
            exact h
        | some found =>
            obtain ⟨inner, behind⟩ := found
            simp only [hsplit] at h ⊢
            cases hjoin : regexJoin behind with
            | none =>
                simp only [hjoin] at h ⊢
                exact parseRight_mono hmore (hmore inner) h
            | some joined =>
                obtain ⟨op, right⟩ := joined
                simp only [hjoin] at h ⊢
                exact parseRight_mono hmore (hmore inner) h
      · rw [if_neg hc] at h ⊢
        exact h

end More

/-- What is found stays the same when the recursion may go deeper. -/
theorem parseExpr_succ {stale fuel : Nat} {s : List Char} {r : Option Node}
    (h : parseExpr stale fuel s = some r) : parseExpr stale (fuel + 1) s = some r := by
  induction fuel generalizing s r with
  | zero => cases h
  | succ fuel ih =>
      have hmore : ∀ s r, parseExpr stale fuel s = some r → parseExpr stale (fuel + 1) s = some r :=
        fun _ _ => ih
      rw [parseExpr] at h ⊢
      cases hbase : regexBase (stripOuterBracket s.length s) with
      | some b =>
          simp only [hbase] at h ⊢
          exact parseBase_mono hmore h
      | none =>
          simp only [hbase] at h ⊢
          cases hjoin : regexBaseJoin (stripOuterBracket s.length s) with
          | some found =>
              obtain ⟨b, op, right⟩ := found
              simp only [hjoin] at h ⊢
              exact parseRight_mono hmore (fun _ => parseBase_mono hmore) h
          | none =>
              simp only [hjoin] at h ⊢
              exact parseBracket_mono hmore h

theorem parseExpr_mono {stale fuel fuel' : Nat} {s : List Char} {r : Option Node}
    (h : parseExpr stale fuel s = some r) (hle : fuel ≤ fuel') :
    parseExpr stale fuel' s = some r := by
  induction hle with
  | refl => exact h
  | step _ ih => exact parseExpr_succ ih

/-! ## Soundness and completeness -/

section Language

variable {stale : Nat}

theorem MatchesBase.ne_nil {s rest : List Char} {b : BaseExpr} (h : MatchesBase s b rest) :
    s ≠ [] := by
  rintro rfl
  obtain ⟨c, s', hs, -⟩ := h.skipSpace_eq
  cases hs

theorem derives_nil {n : Nat} {t : Node} : ¬ Derives stale n [] t := by
  generalize hs : ([] : List Char) = s
  intro h
  cases h with
  | field h _ => exact h.ne_nil hs.symm
  | shorthand h _ _ _ => exact h.ne_nil hs.symm
  | bracket _ _ _ => simp at hs
  | joinBase h _ _ _ _ => simp at hs
  | joinBracket _ _ _ _ _ _ _ _ => simp at hs

theorem parseRight_eq_some {recurse : List Char → Option (Option Node)} {op : Char}
    {right : List Char} {left : Option (Option Node)} {t : Node}
    (h : parseRight recurse op right left = some (some t)) :
    ∃ l r, left = some (some l) ∧ recurse right = some (some r) ∧ t = .join op l r := by
  cases left with
  | none => cases h
  | some l =>
      cases l with
      | none => cases h
      | some l =>
          obtain ⟨found, hfound, heq⟩ := Option.map_eq_some_iff.mp h
          obtain ⟨r, rfl, rfl⟩ := Option.map_eq_some_iff.mp heq
          exact ⟨l, r, rfl, hfound, rfl⟩

theorem derives_of_parseBase {fuel n : Nat} {s : List Char} {b : BaseExpr} {t : Node}
    (hs : MatchesBase s b [])
    (hrec : ∀ buf t, parseExpr stale fuel buf = some (some t) → Derives stale n buf t)
    (h : parseBase stale (parseExpr stale fuel) b = some (some t)) : Derives stale (n + 1) s t := by
  rw [parseBase] at h
  cases hfield : getField stale b with
  | some f =>
      rw [hfield] at h
      cases h
      exact .field hs hfield
  | none =>
      simp only [hfield] at h
      cases hbuf : expandShorthand b with
      | none =>
          rw [hbuf] at h
          cases h
      | some buf =>
          simp only [hbuf] at h
          exact .shorthand hs hfield hbuf (hrec buf t h)

theorem derives_of_parseExpr {fuel : Nat} {s : List Char} {t : Node}
    (h : parseExpr stale fuel s = some (some t)) : Derives stale (2 * fuel) s t := by
  induction fuel generalizing s t with
  | zero => cases h
  | succ fuel ih =>
      have htwo : 2 * (fuel + 1) = 2 * fuel + 1 + 1 := by omega
      rw [parseExpr] at h
      rw [htwo]
      refine derives_of_strip (?_ : Derives stale _ (stripOuterBracket s.length s) t)
      generalize stripOuterBracket s.length s = expr at h ⊢
      have hrec : ∀ buf t, parseExpr stale fuel buf = some (some t) → Derives stale (2 * fuel) buf t :=
        fun _ _ => ih
      cases hbase : regexBase expr with
      | some b =>
          simp only [hbase] at h
          exact (derives_of_parseBase (regexBase_eq_some.mp hbase) hrec h).mono (Nat.le_succ _)
      | none =>
          simp only [hbase] at h
          cases hjoin : regexBaseJoin expr with
          | some found =>
              obtain ⟨b, op, right⟩ := found
              simp only [hjoin] at h
              obtain ⟨l, r, hl, hr, rfl⟩ := parseRight_eq_some h
              obtain ⟨hmatch, hop, hline⟩ := regexBaseJoin_eq_some.mp hjoin
              obtain ⟨left, rfl, hleft⟩ := hmatch.exists_left
              exact .joinBase hleft (derives_of_parseBase hleft hrec hl) hop hline
                ((ih hr).mono (Nat.le_succ _))
          | none =>
              simp only [hjoin] at h
              rw [parseBracket] at h
              cases hs : skipSpace expr with
              | nil =>
                  rw [hs] at h
                  cases h
              | cons c rest =>
                  simp only [hs] at h
                  by_cases hc : c = '('
                  · rw [if_pos hc] at h
                    cases hsplit : splitAtClosing '(' ')' 1 rest with
                    | none =>
                        rw [hsplit] at h
                        cases h
                    | some found =>
                        obtain ⟨inner, behind⟩ := found
                        simp only [hsplit] at h
                        cases hreg : regexJoin behind with
                        | none =>
                            simp only [hreg] at h
                            obtain ⟨l, r, hl, hr, rfl⟩ := parseRight_eq_some h
                            exact absurd (ih hr) derives_nil
                        | some joined =>
                            obtain ⟨op, right⟩ := joined
                            simp only [hreg] at h
                            obtain ⟨l, r, hl, hr, rfl⟩ := parseRight_eq_some h
                            obtain ⟨w, hw, hspaces⟩ := skipSpace_eq_cons hs
                            obtain ⟨w', tail, rfl, hw', hop, hline, htail, hstop⟩ :=
                              regexJoin_eq_some.mp hreg
                            rw [hw, hc, splitAtClosing_eq_some hsplit]
                            exact .joinBracket hspaces ((ih hl).mono (Nat.le_succ _)) hw' hop hline htail
                              hstop ((ih hr).mono (Nat.le_succ _))
                  · rw [if_neg hc] at h
                    cases h

theorem Derives.parseExpr_eq {n : Nat} {s : List Char} {t : Node} (h : Derives stale n s t)
    {fuel : Nat} (hfuel : n ≤ fuel) : parseExpr stale fuel s = some (some t) := by
  induction h generalizing fuel with
  | field h hfield =>
      obtain ⟨fuel, rfl⟩ := Nat.exists_eq_add_of_le' (Nat.le_of_add_left_le hfuel)
      rw [parseExpr_base h, parseBase, hfield]
  | shorthand h hfield hbuf _ ih =>
      obtain ⟨fuel, rfl⟩ := Nat.exists_eq_add_of_le' (Nat.le_of_add_left_le hfuel)
      rw [parseExpr_base h, parseBase, hfield]
      simp only [hbuf]
      exact ih (Nat.le_of_succ_le_succ hfuel)
  | bracket hw hw' ht ih =>
      have hinner := ih hfuel
      cases fuel with
      | zero => cases hinner
      | succ fuel => rw [parseExpr_bracket hw hw' ht.balanced, hinner]
  | @joinBase n left right b op l r h _ hop hline _ ihl ihr =>
      obtain ⟨fuel, rfl⟩ := Nat.exists_eq_add_of_le' (Nat.le_of_add_left_le hfuel)
      have hle := Nat.le_of_succ_le_succ hfuel
      have hleft := ihl hle
      have hbase : parseBase stale (parseExpr stale fuel) b = some (some l) := by
        cases fuel with
        | zero => cases hleft
        | succ fuel =>
            rw [parseExpr_base h] at hleft
            exact parseBase_mono (fun _ _ => parseExpr_succ) hleft
      rw [parseExpr_joinBase h hop hline, hbase, parseRight, ihr hle, Option.map_some,
        Option.map_some]
  | joinBracket hw hl hw' hop hline htail hstop _ ihl ihr =>
      obtain ⟨fuel, rfl⟩ := Nat.exists_eq_add_of_le' (Nat.le_of_add_left_le hfuel)
      have hle := Nat.le_of_succ_le_succ hfuel
      rw [parseExpr_joinBracket hw hl.balanced hw' hop hline htail hstop, ihl hle, parseRight,
        ihr hle, Option.map_some, Option.map_some]

/-- A text has one meaning. -/
theorem Derives.unique {n m : Nat} {s : List Char} {t t' : Node} (h : Derives stale n s t)
    (h' : Derives stale m s t') : t = t' := by
  have heq := h.parseExpr_eq (Nat.le_max_left n m)
  rw [h'.parseExpr_eq (Nat.le_max_right n m), Option.some_inj, Option.some_inj] at heq
  exact heq.symm

end Language

end CollectiveSim.Trace
