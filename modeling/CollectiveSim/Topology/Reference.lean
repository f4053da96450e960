import CollectiveSim.Topology.Codegen

/-!
# What a program means

The reference elaborator gives every body an environment of its own. The body of a module sees its
parameters only, that of an if or a for what its surroundings see; names and arguments of a use are
evaluated where the use stands.
-/

namespace CollectiveSim.Topology

open Framework

/-- What a body sees, innermost bindings first, and the names of the uses around it. -/
structure Env where
  bindings : List (String × Int)
  nodeNamePrefix : String
deriving DecidableEq, Repr

/-- What a list of bindings, innermost first, says about a name. -/
def lookupIn (bindings : List (String × Int)) (name : String) : Except Error Int :=
  match Dict.get? bindings name with
  | some value => .ok value
  | none => .error (.unresolvedName name)

def Env.lookup (env : Env) : String → Except Error Int := lookupIn env.bindings

/-- The bindings of a body; the last of two parameters of one name counts. -/
def Block.bind (block : Block) (args : List Int) : List (String × Int) :=
  (block.params.zip args).reverse

/-- A body with its arguments and the environment around it. -/
structure Entry where
  block : Nat
  args : List Int
  env : Env
deriving DecidableEq, Repr

namespace Program

variable (program : Program)

/-- The bodies that a statement enters, one after the other. -/
def entries (env : Env) : Insn → Except Error (List Entry)
  | .submodule name module_name args =>
      match Dict.get? program.modules module_name with
      | none => .error (.notDefined module_name)
      | some module => do
          let args ← args.mapM (Value.resolve env.lookup)
          let name ← name.resolve env.lookup
          return [⟨module, args, ⟨[], joinPrefix env.nodeNamePrefix name⟩⟩]
  | .cond left op right true_block =>
      match left, right with
      | .expr left, .expr right => do
          let left ← left.evaluate env.lookup
          let right ← right.evaluate env.lookup
          return if op.holds left right then [⟨true_block, [], env⟩] else []
      | _, _ => .error .comparisonWithUnits
  | .loop start finish body => do
      let start ← start.resolve env.lookup
      let finish ← finish.resolve env.lookup
      return (iterations start finish).map fun i => ⟨body, [i], env⟩
  | _ => .ok []

/-- The environment in a body. -/
def inside (entry : Entry) : Env :=
  { entry.env with bindings := (program.block entry.block).bind entry.args ++ entry.env.bindings }

/-- The meaning of a statement; `elaborate` is that of the bodies in it. -/
def elaborateInsn (elaborate : Generator → Entry → Except Error Generator) (env : Env)
    (gen : Generator) : Insn → Except Error Generator
  | .newNode name type => do
      let name ← name.resolve env.lookup
      gen.addNode (withPrefix env.nodeNamePrefix name) type
  | .newLink src dst attrs => do
      let ends ← resolveEnds env.lookup src dst
      gen.addLink (withPrefix env.nodeNamePrefix ends.1) (withPrefix env.nodeNamePrefix ends.2) attrs
  | .rdmaConfig attrs =>
      attrs.foldlM (fun gen attr => do
        let value ← attr.2.resolve env.lookup
        return gen.setRdmaAttr attr.1 value) gen
  | insn => do
      let entries ← program.entries env insn
      entries.foldlM elaborate gen

/-- The meaning of a body in which bodies stand in each other to a depth. -/
def elaborate : Nat → Generator → Entry → Except Error Generator
  | 0, _, _ => .error .recursionError
  | depth + 1, gen, entry =>
      let block := program.block entry.block
      if entry.args.length ≠ block.params.length then
        .error (.argumentMismatch entry.block block.params.length entry.args.length)
      else
        block.insns.foldlM (program.elaborateInsn (elaborate depth) (program.inside entry)) gen

/-- The topology that a program stands for. -/
def reference (limit : Nat) : Except Error Generator :=
  match Dict.get? program.modules "main" with
  | none => .error (.missingKey "main")
  | some main => do
      let gen ← program.elaborate limit .new ⟨main, [], ⟨[], ""⟩⟩
      return gen.finish

end Program

end CollectiveSim.Topology
