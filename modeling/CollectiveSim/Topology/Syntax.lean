import Mathlib

/-!
# The topology language behind the parser

A program is the object graph that the transformer leaves: blocks know each other by their numbers,
and every module is a name for a block. A name is an identifier with at most one variable behind it.
-/

namespace CollectiveSim.Topology

/-- `NAME` or `NAME{var}`. -/
structure Name where
  base : String
  var : Option String
deriving DecidableEq, Repr

def Name.empty : Name := ⟨"", none⟩

inductive BinOp where
  | add
  | sub
  | mul
  | floordiv
deriving DecidableEq, Repr

inductive Expr where
  | num (n : Int)
  | name (name : String)
  | var (name : String)
  | op (op : BinOp) (left right : Expr)
deriving DecidableEq, Repr

/-- A number with a unit, or an expression. -/
inductive Value where
  | quantity (n : Int) (unit : String)
  | expr (e : Expr)
deriving DecidableEq, Repr

/-- The value of a link attribute, which is only compared. Expressions are compared as objects. -/
inductive AttrValue where
  | quantity (n : Int) (unit : String)
  | int (n : Int)
  | text (s : String)
  | expr (object : Nat)
deriving DecidableEq, Repr

/-- `ops`. -/
inductive CompOp where
  | eq
  | ne
  | lt
  | le
  | gt
  | ge
deriving DecidableEq, Repr

def CompOp.holds : CompOp → Int → Int → Bool
  | .eq, a, b => a = b
  | .ne, a, b => a ≠ b
  | .lt, a, b => a < b
  | .le, a, b => a ≤ b
  | .gt, a, b => b < a
  | .ge, a, b => b ≤ a

/-- The names of a reference `a.b.c`, the first one apart. -/
structure Ref where
  head : Name
  tail : List Name
deriving DecidableEq, Repr

inductive Insn where
  | newNode (name : Name) (type : String)
  | newLink (src dst : Ref) (attrs : List (String × AttrValue))
  | rdmaConfig (attrs : List (String × Value))
  | submodule (name : Name) (module_name : String) (args : List Value)
  | cond (left : Value) (op : CompOp) (right : Value) (true_block : Nat)
  | loop (start finish : Value) (body : Nat)
deriving Repr

/-- The bodies in a statement. -/
def Insn.bodies : Insn → List Nat
  | .cond _ _ _ true_block => [true_block]
  | .loop _ _ body => [body]
  | _ => []

/-- The body of a module, with its parameters, of an if, or of a for, with its iterator. -/
structure Block where
  params : List String
  insns : List Insn

/-- The transformer makes a block for every module and for every body in a statement. -/
structure Program where
  modules : List (String × Nat)
  blocks : List Block
  modules_not_bodies : ∀ module ∈ modules, ∀ block ∈ blocks, ∀ insn ∈ block.insns,
    module.2 ∉ insn.bodies

def Program.block (program : Program) (id : Nat) : Block := program.blocks.getD id ⟨[], []⟩

inductive Error where
  | recursionError
  | unresolvedName (name : String)
  | argumentMismatch (block : Nat) (expected passed : Nat)
  | notDefined (module_name : String)
  | unrecognizedNodeType (type : String)
  | cannotResolve (n : Int) (unit : String)
  | comparisonWithUnits
  | zeroDivision
  | missingKey (key : String)
deriving DecidableEq, Repr

/-- `Expr.OPS`. -/
def BinOp.apply : BinOp → Int → Int → Except Error Int
  | .add, left, right => .ok (left + right)
  | .sub, left, right => .ok (left - right)
  | .mul, left, right => .ok (left * right)
  | .floordiv, left, right => if right = 0 then .error .zeroDivision else .ok (left.fdiv right)

/-- `Expr.evaluate`, the names read with `lookup`. -/
def Expr.evaluate (lookup : String → Except Error Int) : Expr → Except Error Int
  | .num n => .ok n
  | .name x => lookup x
  | .var x => lookup x
  | .op o left right => do
      let left ← left.evaluate lookup
      let right ← right.evaluate lookup
      o.apply left right

/-- `Expr.resolve`. -/
def Value.resolve (lookup : String → Except Error Int) : Value → Except Error Int
  | .quantity n unit => .error (.cannotResolve n unit)
  | .expr e => e.evaluate lookup

/-- `resolve_name_with_var`. -/
def Name.resolve (lookup : String → Except Error Int) (name : Name) : Except Error String :=
  match name.var with
  | none => .ok name.base
  | some v => do
      let n ← lookup v
      return name.base ++ toString n

/-- Puts the other names of the reference `a.b.c` behind the first one. -/
def Ref.resolveTail (lookup : String → Except Error Int) (ref : Ref) (head : String) :
    Except Error String :=
  ref.tail.foldlM (fun path name => return path ++ "_" ++ (← name.resolve lookup)) head

/-- The names of both ends of a link. The first names are resolved first. -/
def resolveEnds (lookup : String → Except Error Int) (src dst : Ref) :
    Except Error (String × String) := do
  let srcHead ← src.head.resolve lookup
  let dstHead ← dst.head.resolve lookup
  let srcName ← src.resolveTail lookup srcHead
  let dstName ← dst.resolveTail lookup dstHead
  return (srcName, dstName)

/-- Put a prefix before a name; an empty one leaves no underscore. -/
def withPrefix (pre name : String) : String :=
  if pre ≠ "" then pre ++ "_" ++ name else name

/-- Join two parts of a prefix, either of which may be empty. -/
def joinPrefix (pre myPrefix : String) : String :=
  if pre ≠ "" ∧ myPrefix ≠ "" then pre ++ "_" ++ myPrefix else pre ++ myPrefix

/-- The integers of a for statement, both ends included. -/
def iterations (start finish : Int) : List Int :=
  (List.range (finish + 1 - start).toNat).map fun k => start + k

end CollectiveSim.Topology
