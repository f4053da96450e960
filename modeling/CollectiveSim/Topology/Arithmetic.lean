import CollectiveSim.Topology.Syntax

/-!
# Arithmetic in the topology language

The parse trees of the `expr` rule, what the transformer makes of them, and their usual value. An `atom`
in parentheses is a value of the transformer, not a token.
-/

namespace CollectiveSim.Topology

/-- `CNAME`. -/
def isCName (text : String) : Bool :=
  match text.toList with
  | [] => false
  | c :: cs => (c.isAlpha || c = '_') && cs.all fun c => c.isAlphanum || c = '_'

/-- A `NAME` token. -/
structure CName where
  text : String
  valid : isCName text = true

/-! ## Parse trees -/

inductive AddOp
  | plus
  | minus

inductive MulOp
  | times
  | slash

/-- The operation that `Expr.OPS` has for the token. -/
def AddOp.binOp : AddOp → BinOp
  | plus => .add
  | minus => .sub

def MulOp.binOp : MulOp → BinOp
  | times => .mul
  | slash => .floordiv

mutual

/-- `expr: term (ADD_OP term)*`. -/
inductive ExprTree
  | expr (first : TermTree) (rest : ExprRest)

inductive ExprRest
  | nil
  | cons (op : AddOp) (term : TermTree) (rest : ExprRest)

/-- `term: atom (MUL_OP atom)*`. -/
inductive TermTree
  | term (first : AtomTree) (rest : TermRest)

inductive TermRest
  | nil
  | cons (op : MulOp) (atom : AtomTree) (rest : TermRest)

/-- `atom: NUMBER | NAME | var | "(" expr ")"`. -/
inductive AtomTree
  | number (n : Nat)
  | name (x : CName)
  | var (x : CName)
  | paren (e : ExprTree)

end

/-! ## The transformer -/

/-- What the rules return: an `int`, a plain `str` or an `Expr`. -/
inductive PyValue
  | int (n : Int)
  | str (s : String)
  | expr (op : BinOp) (left right : PyValue)
  deriving DecidableEq

/-- The child of an `atom`, a token or what a rule has returned. -/
inductive AtomChild
  | number (n : Nat)
  | name (text : String)
  | value (v : PyValue)

inductive ExprError
  | attributeError
  | resolve (e : Error)
  deriving DecidableEq

/-- `atom`; an `int` has no `type`. -/
def atomRule : AtomChild → Except ExprError PyValue
  | .value (.expr op left right) => .ok (.expr op left right)
  | .value (.str s) => .ok (.str s)
  | .value (.int _) => .error .attributeError
  | .number n => .ok (.int n)
  | .name text => .ok (.str text)

/-- `_fold_binop`. -/
def foldBinop (result : PyValue) (items : List (BinOp × PyValue)) : PyValue :=
  items.foldl (fun result item => .expr item.1 result item.2) result

mutual

def ExprTree.transform : ExprTree → Except ExprError PyValue
  | .expr first rest => do
      let result ← first.transform
      let items ← rest.transform
      return foldBinop result items

def ExprRest.transform : ExprRest → Except ExprError (List (BinOp × PyValue))
  | .nil => .ok []
  | .cons op term rest => do
      let rhs ← term.transform
      let items ← rest.transform
      return (op.binOp, rhs) :: items

def TermTree.transform : TermTree → Except ExprError PyValue
  | .term first rest => do
      let result ← first.transform
      let items ← rest.transform
      return foldBinop result items

def TermRest.transform : TermRest → Except ExprError (List (BinOp × PyValue))
  | .nil => .ok []
  | .cons op atom rest => do
      let rhs ← atom.transform
      let items ← rest.transform
      return (op.binOp, rhs) :: items

def AtomTree.transform : AtomTree → Except ExprError PyValue
  | .number n => atomRule (.number n)
  | .name x => atomRule (.name x.text)
  | .var x => atomRule (.value (.str ("\x7b" ++ x.text ++ "\x7d")))
  | .paren e => do
      let v ← e.transform
      atomRule (.value v)

end

/-- `value[1:-1]` for a string in braces. -/
def stripBraces (s : String) : String :=
  match s.toList with
  | '{' :: cs => if cs.getLast? = some '}' then String.ofList cs.dropLast else s
  | _ => s

/-- `Expr.resolve`. -/
def PyValue.resolve (scope : String → Option Int) : PyValue → Except Error Int
  | .expr op left right => do
      let left ← left.resolve scope
      let right ← right.resolve scope
      op.apply left right
  | .int n => .ok n
  | .str s =>
      match scope (stripBraces s) with
      | some value => .ok value
      | none => .error (.unresolvedName (stripBraces s))

/-- `TopoTransformer` and `Expr.resolve` behind it. -/
def ExprTree.run (scope : String → Option Int) (e : ExprTree) : Except ExprError Int := do
  let v ← e.transform
  (v.resolve scope).mapError .resolve

/-! ## The usual value -/

def nameValue (scope : String → Option Int) (x : CName) : Except Error Int :=
  match scope x.text with
  | some value => .ok value
  | none => .error (.unresolvedName x.text)

mutual

def ExprTree.value (scope : String → Option Int) : ExprTree → Except Error Int
  | .expr first rest => do
      let v ← first.value scope
      rest.value scope v

/-- The value of `result op term op term …`, from left to right. -/
def ExprRest.value (scope : String → Option Int) : ExprRest → Int → Except Error Int
  | .nil, result => .ok result
  | .cons op term rest, result => do
      let v ← term.value scope
      let result ← op.binOp.apply result v
      rest.value scope result

def TermTree.value (scope : String → Option Int) : TermTree → Except Error Int
  | .term first rest => do
      let v ← first.value scope
      rest.value scope v

def TermRest.value (scope : String → Option Int) : TermRest → Int → Except Error Int
  | .nil, result => .ok result
  | .cons op atom rest, result => do
      let v ← atom.value scope
      let result ← op.binOp.apply result v
      rest.value scope result

def AtomTree.value (scope : String → Option Int) : AtomTree → Except Error Int
  | .number n => .ok n
  | .name x => nameValue scope x
  | .var x => nameValue scope x
  | .paren e => e.value scope

end

/-- The expression has its usual value, or the error of its usual evaluation. -/
def ExprTree.Evaluates (e : ExprTree) (scope : String → Option Int) : Prop :=
  e.run scope = (e.value scope).mapError .resolve

/-! ## Integers in parentheses -/

def AtomTree.isLiteral : AtomTree → Bool
  | .number _ => true
  | _ => false

def TermTree.isLiteral : TermTree → Bool
  | .term first .nil => first.isLiteral
  | _ => false

/-- The expression is an integer literal. -/
def ExprTree.isLiteral : ExprTree → Bool
  | .expr first .nil => first.isLiteral
  | _ => false

mutual

/-- No group in parentheses is just an integer literal. -/
def ExprTree.Plain : ExprTree → Prop
  | .expr first rest => first.Plain ∧ rest.Plain

def ExprRest.Plain : ExprRest → Prop
  | .nil => True
  | .cons _ term rest => term.Plain ∧ rest.Plain

def TermTree.Plain : TermTree → Prop
  | .term first rest => first.Plain ∧ rest.Plain

def TermRest.Plain : TermRest → Prop
  | .nil => True
  | .cons _ atom rest => atom.Plain ∧ rest.Plain

def AtomTree.Plain : AtomTree → Prop
  | .number _ | .name _ | .var _ => True
  | .paren e => e.isLiteral = false ∧ e.Plain

end

/-! ### Names -/

theorem stripBraces_name (x : CName) : stripBraces x.text = x.text := by
  obtain ⟨text, hvalid⟩ := x
  rw [isCName] at hvalid
  rw [stripBraces]
  split at hvalid
  · cases hvalid
  · rename_i c cs htext
    rw [htext]
    split
    · rename_i hbrace
      cases hbrace
      simp at hvalid
    · rfl

theorem stripBraces_var (x : CName) : stripBraces ("\x7b" ++ x.text ++ "\x7d") = x.text := by
  have hlist : ("\x7b" ++ x.text ++ "\x7d").toList = '{' :: (x.text.toList ++ ['}']) := by
    rw [String.toList_append, String.toList_append]
    rfl
  simp [stripBraces, hlist]

/-! ### One rule after the other -/

def PyValue.isInt : PyValue → Bool
  | .int _ => true
  | _ => false

section

variable {scope : String → Option Int}

/-- What a rule returns for a tree: with an integer only for a literal, and the error only for a tree
that is not plain. -/
inductive Transforms (scope : String → Option Int) (plain : Prop) (literal : Bool)
    (value : Except Error Int) : Except ExprError PyValue → Prop
  | ok {v : PyValue} (hplain : plain) (hint : v.isInt = literal) (hvalue : v.resolve scope = value) :
      Transforms scope plain literal value (.ok v)
  | error (hnot : ¬ plain) : Transforms scope plain literal value (.error .attributeError)

/-- What the operators and operands behind the first operand become. -/
inductive RestTransforms (scope : String → Option Int) (plain : Prop) (empty : Bool)
    (value : Int → Except Error Int) : Except ExprError (List (BinOp × PyValue)) → Prop
  | ok {items : List (BinOp × PyValue)} (hplain : plain) (hempty : items.isEmpty = empty)
      (hvalue : ∀ result, (foldBinop result items).resolve scope = result.resolve scope >>= value) :
      RestTransforms scope plain empty value (.ok items)
  | error (hnot : ¬ plain) : RestTransforms scope plain empty value (.error .attributeError)

theorem isInt_foldBinop (result : PyValue) (items : List (BinOp × PyValue)) :
    (foldBinop result items).isInt = (result.isInt && items.isEmpty) := by
  induction items generalizing result with
  | nil => simp [foldBinop]
  | cons item items ih =>
      have hfold : foldBinop result (item :: items) =
          foldBinop (.expr item.1 result item.2) items := rfl
      rw [hfold, ih]
      simp [PyValue.isInt]

theorem Transforms.fold {plain plain' : Prop} {literal empty : Bool} {value : Except Error Int}
    {value' : Int → Except Error Int} {x : Except ExprError PyValue}
    {y : Except ExprError (List (BinOp × PyValue))} (h : Transforms scope plain literal value x)
    (h' : RestTransforms scope plain' empty value' y) :
    Transforms scope (plain ∧ plain') (literal && empty) (value >>= value') (do
      let result ← x
      let items ← y
      return foldBinop result items) := by
  cases h with
  | error hnot => exact .error fun h => hnot h.1
  | ok hplain hint hvalue =>
      cases h' with
      | error hnot => exact .error fun h => hnot h.2
      | ok hplain' hempty hvalue' =>
          refine .ok ⟨hplain, hplain'⟩ ?_ ?_
          · rw [isInt_foldBinop, hint, hempty]
          · rw [hvalue', hvalue]

theorem RestTransforms.cons {plain plain' : Prop} {literal empty : Bool} {value : Except Error Int}
    {value' : Int → Except Error Int} {x : Except ExprError PyValue}
    {y : Except ExprError (List (BinOp × PyValue))} (op : BinOp)
    (h : Transforms scope plain literal value x) (h' : RestTransforms scope plain' empty value' y) :
    RestTransforms scope (plain ∧ plain') false (fun result => do
        let v ← value
        let result ← op.apply result v
        value' result) (do
      let rhs ← x
      let items ← y
      return (op, rhs) :: items) := by
  cases h with
  | error hnot => exact .error fun h => hnot h.1
  | ok hplain hint hvalue =>
      cases h' with
      | error hnot => exact .error fun h => hnot h.2
      | @ok items hplain' hempty hvalue' =>
          refine .ok ⟨hplain, hplain'⟩ rfl fun result => ?_
          change (foldBinop (.expr op result _) items).resolve scope = _
          rw [hvalue', PyValue.resolve, hvalue]
          simp only [bind_assoc]

theorem Transforms.paren {plain : Prop} {literal : Bool} {value : Except Error Int}
    {x : Except ExprError PyValue} (h : Transforms scope plain literal value x) :
    Transforms scope (literal = false ∧ plain) false value (do
      let v ← x
      atomRule (.value v)) := by
  cases h with
  | error hnot => exact .error fun h => hnot h.2
  | @ok v hplain hint hvalue =>
      cases v with
      | int n => exact .error fun h => by simp [PyValue.isInt, h.1] at hint
      | str s => exact .ok ⟨hint.symm, hplain⟩ rfl hvalue
      | expr op left right => exact .ok ⟨hint.symm, hplain⟩ rfl hvalue

def ExprRest.isNil : ExprRest → Bool
  | .nil => true
  | .cons _ _ _ => false

def TermRest.isNil : TermRest → Bool
  | .nil => true
  | .cons _ _ _ => false

theorem ExprTree.isLiteral_expr (first : TermTree) (rest : ExprRest) :
    (ExprTree.expr first rest).isLiteral = (first.isLiteral && rest.isNil) := by
  cases rest with
  | nil => simp [isLiteral, ExprRest.isNil]
  | cons op term rest => simp [isLiteral, ExprRest.isNil]

theorem TermTree.isLiteral_term (first : AtomTree) (rest : TermRest) :
    (TermTree.term first rest).isLiteral = (first.isLiteral && rest.isNil) := by
  cases rest with
  | nil => simp [isLiteral, TermRest.isNil]
  | cons op atom rest => simp [isLiteral, TermRest.isNil]

/-! ### Every tree -/

mutual

theorem ExprTree.transforms (scope : String → Option Int) :
    ∀ e : ExprTree, Transforms scope e.Plain e.isLiteral (e.value scope) e.transform
  | .expr first rest => by
      rw [ExprTree.Plain, ExprTree.isLiteral_expr, ExprTree.value, ExprTree.transform]
      exact (first.transforms scope).fold (rest.transforms scope)

theorem ExprRest.transforms (scope : String → Option Int) :
    ∀ rest : ExprRest, RestTransforms scope rest.Plain rest.isNil (rest.value scope) rest.transform
  | .nil => .ok trivial rfl fun result => (bind_pure _).symm
  | .cons op term rest => by
      rw [ExprRest.Plain, ExprRest.transform]
      exact .cons op.binOp (term.transforms scope) (rest.transforms scope)

theorem TermTree.transforms (scope : String → Option Int) :
    ∀ t : TermTree, Transforms scope t.Plain t.isLiteral (t.value scope) t.transform
  | .term first rest => by
      rw [TermTree.Plain, TermTree.isLiteral_term, TermTree.value, TermTree.transform]
      exact (first.transforms scope).fold (rest.transforms scope)

theorem TermRest.transforms (scope : String → Option Int) :
    ∀ rest : TermRest, RestTransforms scope rest.Plain rest.isNil (rest.value scope) rest.transform
  | .nil => .ok trivial rfl fun result => (bind_pure _).symm
  | .cons op atom rest => by
      rw [TermRest.Plain, TermRest.transform]
      exact .cons op.binOp (atom.transforms scope) (rest.transforms scope)

theorem AtomTree.transforms (scope : String → Option Int) :
    ∀ a : AtomTree, Transforms scope a.Plain a.isLiteral (a.value scope) a.transform
  | .number n => .ok trivial rfl rfl
  | .name x => .ok trivial rfl (by rw [PyValue.resolve, stripBraces_name]; rfl)
  | .var x => .ok trivial rfl (by rw [PyValue.resolve, stripBraces_var]; rfl)
  | .paren e => by
      rw [AtomTree.Plain, AtomTree.transform]
      exact (e.transforms scope).paren

end

/-- An expression has its usual value in every scope if and only if no group in parentheses is just an
integer literal. -/
theorem ExprTree.evaluates_iff (e : ExprTree) (scope : String → Option Int) :
    e.Evaluates scope ↔ e.Plain := by
  rw [ExprTree.Evaluates, ExprTree.run]
  have htransforms := e.transforms scope
  generalize e.transform = x at htransforms ⊢
  cases htransforms with
  | ok hplain hint hvalue =>
      refine iff_of_true ?_ hplain
      rw [← hvalue]
      rfl
  | error hnot =>
      refine iff_of_false (fun heq => ?_) hnot
      change Except.error ExprError.attributeError = _ at heq
      cases hvalue : e.value scope <;> simp [hvalue, Except.mapError] at heq

end

/-- `(3)`. -/
def threeInParens : ExprTree :=
  .expr (.term (.paren (.expr (.term (.number 3) .nil) .nil)) .nil) .nil

/-- The usual value is 3, but the transformer asks the integer for its token type. -/
theorem threeInParens_not_evaluates : ¬ threeInParens.Evaluates fun _ => none := by
  intro h
  have hvalue : threeInParens.value (fun _ => none) = .ok 3 := rfl
  have hrun : threeInParens.run (fun _ => none) = .error .attributeError := rfl
  rw [ExprTree.Evaluates, hvalue, hrun] at h
  cases h

end CollectiveSim.Topology
