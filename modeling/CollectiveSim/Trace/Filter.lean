import CollectiveSim.Framework.MachineInt
import CollectiveSim.Framework.Scan
import CollectiveSim.Trace.Format

/-!
# The trace filter

`TraceFilter`: comparisons of one member with a number, trees of them, and the parser of filter
expressions. The parser works on copies of parts of the text and calls itself on what the shorthands
for flows and queues stand for.
-/

namespace CollectiveSim.Trace

open Framework

/-! ## Tests of a single field -/

/-- The codes 0 to 5 of `op`, and 255. -/
inductive Comparison
  | eq
  | gt
  | ge
  | lt
  | le
  | ne
  | unknown
deriving DecidableEq

namespace Comparison

def ofString (op : List Char) : Comparison :=
  if op = "=".toList then .eq
  else if op = ">".toList then .gt
  else if op = ">=".toList then .ge
  else if op = "<".toList then .lt
  else if op = "<=".toList then .le
  else if op = "!=".toList then .ne
  else .unknown

/-- `OP(type)`. -/
def holds : Comparison → Nat → Nat → Bool
  | eq, x, value => x = value
  | gt, x, value => x > value
  | ge, x, value => x ≥ value
  | lt, x, value => x < value
  | le, x, value => x ≤ value
  | ne, x, value => x ≠ value
  | unknown, _, _ => false

def opStr : Comparison → List Char
  | eq => "=".toList
  | gt => ">".toList
  | ge => ">=".toList
  | lt => "<".toList
  | le => "<=".toList
  | ne => "!=".toList
  | unknown => "[Unknown op]".toList

end Comparison

structure Field where
  offset : Nat
  width : Nat
  op : Comparison
  value : Nat
deriving DecidableEq

namespace Field

/-- The constructors of the four classes of fields, of one, two, four and eight bytes. -/
def make (width offset : Nat) (op : List Char) (value : Nat) : Field :=
  ⟨offset, width, .ofString op, value % 2 ^ (8 * width)⟩

def byteField := make 1
def wordField := make 2
def dwordField := make 4
def qwordField := make 8

def test (f : Field) (tr : TraceFormat) : Bool := f.op.holds (tr.read f.offset f.width) f.value

def str (f : Field) : List Char :=
  '[' :: decimal f.offset ++ ']' :: f.op.opStr ++ decimal f.value

end Field

/-! ## Expressions -/

inductive Node
  | expr (f : Field)
  | and (left right : Node)
  | or (left right : Node)
deriving DecidableEq

namespace Node

def test : Node → TraceFormat → Bool
  | expr f, tr => f.test tr
  | and left right, tr => left.test tr && right.test tr
  | or left right, tr => left.test tr || right.test tr

def str : Node → List Char
  | expr f => f.str
  | and left right => '(' :: left.str ++ ")&(".toList ++ right.str ++ ")".toList
  | or left right => '(' :: left.str ++ ")|(".toList ++ right.str ++ ")".toList

/-- A new node with two sons and the type that `set_op` gives it. -/
def join (op : Char) (left right : Node) : Node := if op = '&' then .and left right else .or left right

end Node

/-! ## Regular expressions

`std::regex_match` on `BASE_EXPR_REGEX`, alone and with more behind it. -/

def isspace (c : Char) : Bool := c.toNat = 32 || (9 ≤ c.toNat && c.toNat ≤ 13)

/-- `[a-zA-Z0-9\.]`. -/
def isFieldChar (c : Char) : Bool :=
  (97 ≤ c.toNat && c.toNat ≤ 122) || (65 ≤ c.toNat && c.toNat ≤ 90) ||
    (48 ≤ c.toNat && c.toNat ≤ 57) || c = '.'

/-- `[x,[:xdigit:]]`. -/
def isValueChar (c : Char) : Bool := c = 'x' || c = ',' || digitValue c < 16

/-- What the wildcard does not match. -/
def isNewline (c : Char) : Bool := c.toNat = 10 || c.toNat = 13

def isJoin (c : Char) : Bool := c = '&' || c = '|'

def skipSpace (s : List Char) : List Char := s.dropWhile isspace

/-- `OP_COMPARE`. -/
def comparisons : List (List Char) :=
  ["=".toList, ">".toList, ">=".toList, "<".toList, "<=".toList, "!=".toList]

/-- The comparison that a text starts with: neither a space nor a value starts with `=`. -/
def matchCompare : List Char → Option (List Char × List Char)
  | [] => none
  | c :: s =>
      if c = '=' then some ("=".toList, s)
      else if c = '>' ∨ c = '<' then
        if s.head? = some '=' then some ([c, '='], s.tail) else some ([c], s)
      else if c = '!' ∧ s.head? = some '=' then some ("!=".toList, s.tail)
      else none

/-- What `BASE_EXPR_REGEX` captures. -/
structure BaseExpr where
  field : List Char
  op : List Char
  value : List Char
deriving DecidableEq

/-- `BASE_EXPR_REGEX` at the front of a text, and what is left of the text. -/
def matchBase (s : List Char) : Option (BaseExpr × List Char) :=
  let s := skipSpace s
  let field := s.takeWhile isFieldChar
  if field = [] then none
  else
    match matchCompare (skipSpace (s.dropWhile isFieldChar)) with
    | none => none
    | some (op, s) =>
        let s := skipSpace s
        let value := s.takeWhile isValueChar
        if value = [] then none
        else some (⟨field, op, value⟩, skipSpace (s.dropWhile isValueChar))

/-- `BASE_EXPR_REGEX` on all of a text. -/
def regexBase (s : List Char) : Option BaseExpr :=
  match matchBase s with
  | some (b, []) => some b
  | some (_, _ :: _) => none
  | none => none

/-- `BASE_EXPR_REGEX` with `(&|\|)(.*)` behind it. -/
def regexBaseJoin (s : List Char) : Option (BaseExpr × Char × List Char) :=
  match matchBase s with
  | some (b, c :: right) => if isJoin c ∧ right.all (!isNewline ·) then some (b, c, right) else none
  | some (_, []) => none
  | none => none

/-- `\s*(&|\|)(.*)\s*`: the wildcard takes what it can, and only spaces may be left. -/
def regexJoin (s : List Char) : Option (Char × List Char) :=
  match skipSpace s with
  | [] => none
  | c :: s =>
      if isJoin c ∧ (s.dropWhile (!isNewline ·)).all isspace then
        some (c, s.takeWhile (!isNewline ·))
      else none

/-! ## Fields -/

/-- The names that `GetField` compares with, in its order, and the fields that it makes. -/
def fieldTable : List (List Char × (List Char → Nat → Field)) :=
  [("time".toList, .qwordField Member.time.offset),
    ("node".toList, .wordField Member.node.offset),
    ("nodeType".toList, .byteField Member.nodeType.offset),
    ("intf".toList, .byteField Member.intf.offset),
    ("qidx".toList, .byteField Member.qidx.offset),
    ("qlen".toList, .dwordField Member.qlen.offset),
    ("sip".toList, .dwordField Member.sip.offset),
    ("dip".toList, .dwordField Member.dip.offset),
    ("size".toList, .wordField Member.size.offset),
    ("l3Prot".toList, .byteField Member.l3Prot.offset),
    ("event".toList, .byteField Member.event.offset),
    ("ecn".toList, .byteField Member.ecn.offset),
    ("data.sport".toList, .wordField Member.dataSport.offset),
    ("data.dport".toList, .wordField Member.dataDport.offset),
    ("data.seq".toList, .dwordField Member.dataSeq.offset),
    ("ack.sport".toList, .wordField Member.ackSport.offset),
    ("ack.dport".toList, .wordField Member.ackDport.offset),
    ("ack.flags".toList, .byteField Member.ackFlags.offset),
    ("qp.sport".toList, .wordField Member.qpSport.offset),
    ("qp.dport".toList, .wordField Member.qpDport.offset)]

/-- `sscanf` with `%li` into a variable that holds `stale`. -/
def scanLong (stale : Nat) (value : List Char) : Nat :=
  match readInteger value with
  | some (n, _) => min n (2 ^ 63 - 1)
  | none => stale

def getField (stale : Nat) (b : BaseExpr) : Option Field :=
  (fieldTable.lookup b.field).map fun make => make b.op (scanLong stale b.value)

/-! ## Shorthands -/

/-- A character of a `sscanf` format that stands for itself. -/
def scanLiteral (c : Char) : List Char → Option (List Char)
  | [] => none
  | x :: s => if x = c then some s else none

/-- `%i` into 32 bits: a `long` that is cut. -/
def scanI (s : List Char) : Option (Nat × List Char) :=
  (readInteger s).map (Prod.map (fun n => u32 (min n (2 ^ 63 - 1))) id)

/-- `%hu` and `%hhu`: an `unsigned long` that is cut to `width` bytes. -/
def scanU (width : Nat) (s : List Char) : Option (Nat × List Char) :=
  (readNumeral 10 s).map (Prod.map (fun n => min n (2 ^ 64 - 1) % 2 ^ (8 * width)) id)

/-- `%i,%i,%hu,%hu`. -/
def scanFlow (value : List Char) : Option (Nat × Nat × Nat × Nat) := do
  let (sip, s) ← scanI value
  let (dip, s) ← scanI (← scanLiteral ',' s)
  let (sport, s) ← scanU 2 (← scanLiteral ',' s)
  let (dport, _) ← scanU 2 (← scanLiteral ',' s)
  return (sip, dip, sport, dport)

/-- `%hu,%hhu,%hhu`. -/
def scanQueue (value : List Char) : Option (Nat × Nat × Nat) := do
  let (node, s) ← scanU 2 value
  let (intf, s) ← scanU 1 (← scanLiteral ',' s)
  let (qidx, _) ← scanU 1 (← scanLiteral ',' s)
  return (node, intf, qidx)

/-- What `sprintf` writes for a forward flow. -/
def flowText (sip dip sport dport : Nat) : List Char :=
  "sip=".toList ++ decimal sip ++ "&dip=".toList ++ decimal dip ++
    "&((l3Prot=17&data.sport=".toList ++ decimal sport ++ "&data.dport=".toList ++ decimal dport ++
    ")|((l3Prot=0xFC|l3Prot=0xFD)&ack.sport=".toList ++ decimal sport ++
    "&ack.dport=".toList ++ decimal dport ++
    ")|(l3Prot=0x0&qp.sport=".toList ++ decimal sport ++ "&qp.dport=".toList ++ decimal dport ++
    "))".toList

def biflowText (sip dip sport dport : Nat) : List Char :=
  "(".toList ++ flowText sip dip sport dport ++ ")|(".toList ++ flowText dip sip dport sport ++
    ")".toList

def queueText (node intf qidx : Nat) : List Char :=
  "node=".toList ++ decimal node ++ "&intf=".toList ++ decimal intf ++
    "&qidx=".toList ++ decimal qidx

/-- What `parse_shorthand` parses instead of a shorthand. -/
def expandShorthand (b : BaseExpr) : Option (List Char) :=
  if b.field = "flow".toList ∨ b.field = "biflow".toList ∨ b.field = "rflow".toList then
    if b.op ≠ "=".toList then none
    else
      match scanFlow b.value with
      | none => none
      | some (sip, dip, sport, dport) =>
          if b.field = "flow".toList then some (flowText sip dip sport dport)
          else if b.field = "biflow".toList then some (biflowText sip dip sport dport)
          else some (flowText dip sip dport sport)
  else if b.field = "queue".toList then
    if b.op ≠ "=".toList then none
    else
      match scanQueue b.value with
      | none => none
      | some (node, intf, qidx) => some (queueText node intf qidx)
  else none

/-! ## The parser -/

/-- `strip_outer_bracket`; no text has more pairs of brackets around it than characters. -/
def stripOuterBracket : Nat → List Char → List Char
  | 0, expr => expr
  | fuel + 1, expr =>
      match skipSpace expr with
      | [] => expr
      | c :: s =>
          if c = '(' then
            match splitAtClosing '(' ')' 1 s with
            | none => expr
            | some (inner, behind) =>
                if skipSpace behind = [] then stripOuterBracket fuel inner else expr
          else expr

section Parser

variable (stale : Nat)

/-- A base expression or a shorthand; the outer `none` of the parser is for a depth of the recursion
that is out of reach, the inner one for `NULL`. -/
def parseBase (recurse : List Char → Option (Option Node)) (b : BaseExpr) : Option (Option Node) :=
  match getField stale b with
  | some f => some (some (.expr f))
  | none =>
      match expandShorthand b with
      | some buf => recurse buf
      | none => some none

/-- The right side is parsed when there is a left one. -/
def parseRight (recurse : List Char → Option (Option Node)) (op : Char) (right : List Char) :
    Option (Option Node) → Option (Option Node)
  | none => none
  | some none => some none
  | some (some l) => (recurse right).map fun r => r.map (Node.join op l)

/-- An expression in brackets, and more behind it. -/
def parseBracket (recurse : List Char → Option (Option Node)) (expr : List Char) :
    Option (Option Node) :=
  match skipSpace expr with
  | [] => some none
  | c :: s =>
      if c = '(' then
        match splitAtClosing '(' ')' 1 s with
        | none => some none
        | some (inner, behind) =>
            match regexJoin behind with
            | some (op, right) => parseRight recurse op right (recurse inner)
            -- `right_str` stays empty, which is no expression.
            | none => parseRight recurse '|' [] (recurse inner)
      else some none

/-- `_parse`. -/
def parseExpr : Nat → List Char → Option (Option Node)
  | 0, _ => none
  | fuel + 1, text =>
      let expr := stripOuterBracket text.length text
      match regexBase expr with
      | some b => parseBase stale (parseExpr fuel) b
      | none =>
          match regexBaseJoin expr with
          | some (b, op, right) =>
              parseRight (parseExpr fuel) op right (parseBase stale (parseExpr fuel) b)
          | none => parseBracket (parseExpr fuel) expr

/-- Every call is on a shorter text, but for the text of a shorthand, which has none in it. -/
def parse (expr : List Char) : Option Node := (parseExpr stale (expr.length + 12) expr).join

end Parser

/-- A record passes a filter; without a filter every one does. -/
def passes (root : Option Node) (tr : TraceFormat) : Bool :=
  match root with
  | some n => n.test tr
  | none => true

end CollectiveSim.Trace
