import CollectiveSim.Framework.Lockstep
import CollectiveSim.Topology.Reference

/-!
# Clean programs

The generator looks a name up in the scopes of all bodies it is in, and the name of a use from
inside the module. A program is clean when that never shows: every name that is evaluated, and the
name of every use as seen from the module, has the value it has in the environment of the statement,
and no block is entered while it is being elaborated.
-/

namespace CollectiveSim.Topology

open Framework

def Name.names (name : Name) : List String := name.var.toList

def Expr.names : Expr → List String
  | .num _ => []
  | .name x => [x]
  | .var x => [x]
  | .op _ left right => left.names ++ right.names

def Value.names : Value → List String
  | .quantity _ _ => []
  | .expr e => e.names

def Ref.names (ref : Ref) : List String := ref.head.names ++ ref.tail.flatMap Name.names

/-- The names that are evaluated where the statement stands, apart from that of a use. -/
def Insn.names : Insn → List String
  | .newNode name _ => name.names
  | .newLink src dst _ => src.names ++ dst.names
  | .rdmaConfig attrs => attrs.flatMap fun attr => attr.2.names
  | .submodule _ _ args => args.flatMap Value.names
  | .cond left _ right _ => left.names ++ right.names
  | .loop start finish _ => start.names ++ finish.names

/-- A body that is being elaborated, with its own bindings and the prefix of its nodes. -/
structure Frame where
  block : Nat
  bindings : List (String × Int)
  nodeNamePrefix : String
deriving DecidableEq, Repr

/-- What the bodies that are being elaborated, innermost first, bind together. -/
def visible (active : List Frame) : List (String × Int) := active.flatMap Frame.bindings

namespace Program

variable (program : Program)

def frame (entry : Entry) : Frame :=
  ⟨entry.block, (program.block entry.block).bind entry.args, entry.env.nodeNamePrefix⟩

/-- The blocks that a statement may enter. -/
def targets : Insn → List Nat
  | .submodule _ module_name _ => (Dict.get? program.modules module_name).toList
  | insn => insn.bodies

/-- The name of a use means in the module what it means where the use stands. -/
def KeepsAsName (active : List Frame) (env : Env) : Insn → Prop
  | .submodule name module_name args =>
      ∀ module ∈ Dict.get? program.modules module_name,
        ∀ resolved_args, args.mapM (Value.resolve env.lookup) = .ok resolved_args →
          ∀ x ∈ name.names, (Dict.get? env.bindings x).isSome ∧
            Dict.get? ((program.block module).bind resolved_args ++ visible active) x =
              Dict.get? env.bindings x
  | _ => True

structure CleanInsn (clean : Generator → Entry → Prop)
    (elaborate : Generator → Entry → Except Error Generator) (active : List Frame) (env : Env)
    (gen : Generator) (insn : Insn) : Prop where
  fresh : ∀ block ∈ program.targets insn, block ∉ active.map Frame.block
  names : ∀ x ∈ insn.names, Dict.get? env.bindings x = Dict.get? (visible active) x
  asName : program.KeepsAsName active env insn
  bodies : ∀ entries, program.entries env insn = .ok entries → Along clean elaborate entries gen

/-- Every statement that the elaboration of a body reaches is clean. -/
def CleanBody : Nat → List Frame → Generator → Entry → Prop
  | 0, _, _, _ => True
  | depth + 1, active, gen, entry =>
      entry.args.length = (program.block entry.block).params.length →
        Along
          (program.CleanInsn (CleanBody depth (program.frame entry :: active))
            (program.elaborate depth) (program.frame entry :: active) (program.inside entry))
          (program.elaborateInsn (program.elaborate depth) (program.inside entry))
          (program.block entry.block).insns gen

def Clean (limit : Nat) : Prop :=
  ∀ main ∈ Dict.get? program.modules "main",
    program.CleanBody limit [] .new ⟨main, [], ⟨[], ""⟩⟩

instance (active : List Frame) (env : Env) : ∀ insn, Decidable (program.KeepsAsName active env insn)
  | .submodule name module_name args =>
      inferInstanceAs (Decidable (∀ module ∈ Dict.get? program.modules module_name,
        ∀ resolved_args, args.mapM (Value.resolve env.lookup) = .ok resolved_args →
          ∀ x ∈ name.names, (Dict.get? env.bindings x).isSome ∧
            Dict.get? ((program.block module).bind resolved_args ++ visible active) x =
              Dict.get? env.bindings x))
  | .newNode _ _ | .newLink _ _ _ | .rdmaConfig _ | .cond _ _ _ _ | .loop _ _ _ => isTrue trivial

instance (clean : Generator → Entry → Prop) [∀ gen entry, Decidable (clean gen entry)]
    (elaborate : Generator → Entry → Except Error Generator) (active : List Frame) (env : Env)
    (gen : Generator) (insn : Insn) :
    Decidable (program.CleanInsn clean elaborate active env gen insn) :=
  decidable_of_iff
    ((∀ block ∈ program.targets insn, block ∉ active.map Frame.block) ∧
      (∀ x ∈ insn.names, Dict.get? env.bindings x = Dict.get? (visible active) x) ∧
      program.KeepsAsName active env insn ∧
      ∀ entries, program.entries env insn = .ok entries → Along clean elaborate entries gen)
    ⟨fun h => ⟨h.1, h.2.1, h.2.2.1, h.2.2.2⟩, fun h => ⟨h.1, h.2, h.3, h.4⟩⟩

def CleanBody.decidable : ∀ depth active gen entry,
    Decidable (program.CleanBody depth active gen entry)
  | 0, _, _, _ => isTrue trivial
  | depth + 1, active, gen, entry =>
      have := CleanBody.decidable depth (program.frame entry :: active)
      inferInstanceAs (Decidable (entry.args.length = (program.block entry.block).params.length →
        Along
          (program.CleanInsn (program.CleanBody depth (program.frame entry :: active))
            (program.elaborate depth) (program.frame entry :: active) (program.inside entry))
          (program.elaborateInsn (program.elaborate depth) (program.inside entry))
          (program.block entry.block).insns gen))

instance (limit : Nat) : Decidable (program.Clean limit) :=
  have := CleanBody.decidable program limit []
  inferInstanceAs (Decidable (∀ main ∈ Dict.get? program.modules "main",
    program.CleanBody limit [] .new ⟨main, [], ⟨[], ""⟩⟩))

end Program

end CollectiveSim.Topology
