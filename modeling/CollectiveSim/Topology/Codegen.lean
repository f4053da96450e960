import CollectiveSim.Framework.Dict
import CollectiveSim.Topology.Syntax

/-!
# The code generator

What the generator collects: the nodes by kind, the link helpers and the instructions. Every block
has one scope, an object that all its instantiations share.
-/

namespace CollectiveSim.Topology

open Framework

inductive LinkType where
  | p2p
  | qbb
deriving DecidableEq, Repr

/-- The attributes that name a link helper. -/
structure LinkAttr where
  latency : AttrValue
  bandwidth : AttrValue
  mtu : AttrValue
  type : LinkType
deriving DecidableEq, Repr

inductive NS3Insn where
  | makeGPUs (n : Nat)
  | makeRegSwitches (n : Nat)
  | makeNVSwitches (n : Nat)
  | makeLinkHelper (id : Nat) (attrs : LinkAttr)
  | installLink (src dst : String) (helper_id link_id : Nat)
  | buildRdmaFabric (rdma_attrs : List (String × Int))
deriving DecidableEq, Repr

/-- `NS3CodeGenerator` without the modules. -/
structure Generator where
  gpus : List (String × Nat)
  switches : List (String × Nat)
  nvswitches : List (String × Nat)
  insns : List NS3Insn
  gpu_counter : Nat
  switch_counter : Nat
  nvswitch_counter : Nat
  link_helpers : List (LinkAttr × Nat)
  link_helper_counter : Nat
  link_id_counter : Nat
  has_qbb_fabric : Bool
  rdma_attrs : List (String × Int)
deriving DecidableEq, Repr

namespace Generator

def new : Generator := ⟨[], [], [], [], 0, 0, 0, [], 0, 0, false, []⟩

/-- `GenNewNode` behind the resolution of the name. -/
def addNode (name type : String) (gen : Generator) : Except Error Generator :=
  if type = "gpu" then
    .ok { gen with
      gpus := Dict.set gen.gpus name gen.gpu_counter
      gpu_counter := gen.gpu_counter + 1 }
  else if type = "switch" then
    .ok { gen with
      switches := Dict.set gen.switches name gen.switch_counter
      switch_counter := gen.switch_counter + 1 }
  else if type = "nvswitch" then
    .ok { gen with
      nvswitches := Dict.set gen.nvswitches name gen.nvswitch_counter
      nvswitch_counter := gen.nvswitch_counter + 1 }
  else .error (.unrecognizedNodeType type)

def linkType (gen : Generator) (src dst : String) : LinkType :=
  if (Dict.get? gen.gpus src).isSome ∧ (Dict.get? gen.gpus dst).isSome then .p2p else .qbb

/-- The mtu of a link: its own, that of the `rdma` statements for a qbb link, or 9000. -/
def mtu (gen : Generator) (type : LinkType) (attrs : List (String × AttrValue)) : AttrValue :=
  match Dict.get? attrs "mtu" with
  | some mtu => mtu
  | none =>
      if type = .qbb then .int ((Dict.get? gen.rdma_attrs "Mtu").getD 9000) else .int 9000

def linkAttr (attrs : List (String × AttrValue)) (key : String) : Except Error AttrValue :=
  match Dict.get? attrs key with
  | some value => .ok value
  | none => .error (.missingKey key)

/-- `GenNewLink` behind the resolution of the names. -/
def addLink (src dst : String) (attrs : List (String × AttrValue)) (gen : Generator) :
    Except Error Generator := do
  let type := gen.linkType src dst
  let latency ← linkAttr attrs "latency"
  let bandwidth ← linkAttr attrs "bandwidth"
  let attr : LinkAttr := ⟨latency, bandwidth, gen.mtu type attrs, type⟩
  let gen :=
    if (Dict.get? gen.link_helpers attr).isSome then gen
    else { gen with
      link_helpers := Dict.set gen.link_helpers attr gen.link_helper_counter
      link_helper_counter := gen.link_helper_counter + 1 }
  let helper_id := (Dict.get? gen.link_helpers attr).getD 0
  return { gen with
    insns := gen.insns ++ [.installLink src dst helper_id gen.link_id_counter]
    link_id_counter := gen.link_id_counter + 1
    has_qbb_fabric := gen.has_qbb_fabric || type = .qbb }

def setRdmaAttr (name : String) (value : Int) (gen : Generator) : Generator :=
  { gen with rdma_attrs := Dict.set gen.rdma_attrs name value }

/-- The instructions before and behind those of the modules. -/
def finish (gen : Generator) : Generator :=
  { gen with
    insns :=
      [.makeGPUs gen.gpu_counter, .makeRegSwitches gen.switch_counter,
        .makeNVSwitches gen.nvswitch_counter] ++
      gen.link_helpers.map (fun helper => .makeLinkHelper helper.2 helper.1) ++ gen.insns ++
      if gen.has_qbb_fabric then [.buildRdmaFabric gen.rdma_attrs] else [] }

end Generator

structure Scope where
  parent : Option Nat
  name_to_val : List (String × Int)
  nodeNamePrefix : Name
deriving Repr

namespace Scope

def new : Scope := ⟨none, [], .empty⟩

/-- `lookup`, through the parents; a chain that does not end exceeds every recursion limit. -/
def lookup (scopes : Nat → Scope) : Nat → Nat → String → Except Error Int
  | 0, _, _ => .error .recursionError
  | limit + 1, scope, name =>
      match Dict.get? (scopes scope).name_to_val name with
      | some value => .ok value
      | none =>
          match (scopes scope).parent with
          | some parent => lookup scopes limit parent name
          | none => .error (.unresolvedName name)

def getNodeNamePrefix (scopes : Nat → Scope) : Nat → Nat → Except Error String
  | 0, _ => .error .recursionError
  | limit + 1, scope => do
      let pre ←
        match (scopes scope).parent with
        | some parent => getNodeNamePrefix scopes limit parent
        | none => pure ""
      let myPrefix ← (scopes scope).nodeNamePrefix.resolve (lookup scopes (limit + 1) scope)
      return joinPrefix pre myPrefix

end Scope

/-- The generator and the scopes of the blocks. -/
structure State where
  scopes : Nat → Scope
  gen : Generator

namespace State

def new : State := ⟨fun _ => .new, .new⟩

def setParent (scope parent : Nat) (s : State) : State :=
  { s with scopes :=
      Function.update s.scopes scope { s.scopes scope with parent := some parent } }

def setNodeNamePrefix (scope : Nat) (nodeNamePrefix : Name) (s : State) : State :=
  { s with scopes := Function.update s.scopes scope { s.scopes scope with nodeNamePrefix } }

/-- `set_name_to_val` for every parameter. -/
def setParams (scope : Nat) (params : List String) (args : List Int) (s : State) : State :=
  { s with scopes := Function.update s.scopes scope { s.scopes scope with
      name_to_val := Dict.setAll (s.scopes scope).name_to_val (params.zip args) } }

end State

section

variable (program : Program) (limit : Nat)

def GenNewNode (this_scope : Nat) (name : Name) (type : String) (s : State) :
    Except Error State := do
  let pre ← Scope.getNodeNamePrefix s.scopes limit this_scope
  let name ← name.resolve (Scope.lookup s.scopes limit this_scope)
  let gen ← s.gen.addNode (withPrefix pre name) type
  return { s with gen }

def GenNewLink (this_scope : Nat) (src dst : Ref) (attrs : List (String × AttrValue))
    (s : State) : Except Error State := do
  let ends ← resolveEnds (Scope.lookup s.scopes limit this_scope) src dst
  let pre ← Scope.getNodeNamePrefix s.scopes limit this_scope
  let gen ← s.gen.addLink (withPrefix pre ends.1) (withPrefix pre ends.2) attrs
  return { s with gen }

def GenRdmaConfig (this_scope : Nat) (attrs : List (String × Value)) (s : State) :
    Except Error State :=
  attrs.foldlM (fun s attr => do
    let value ← attr.2.resolve (Scope.lookup s.scopes limit this_scope)
    return { s with gen := s.gen.setRdmaAttr attr.1 value }) s

def GenSubmodule (GenerateModule : Nat → List Int → State → Except Error State)
    (parent_scope : Nat) (name : Name) (module_name : String) (args : List Value) (s : State) :
    Except Error State :=
  match Dict.get? program.modules module_name with
  | none => .error (.notDefined module_name)
  | some module => do
      let s := (s.setParent module parent_scope).setNodeNamePrefix module name
      let resolved_args ← args.mapM (Value.resolve (Scope.lookup s.scopes limit parent_scope))
      GenerateModule module resolved_args s

def GenIf (GenerateModule : Nat → List Int → State → Except Error State)
    (parent_scope : Nat) (left : Value) (op : CompOp) (right : Value) (true_block : Nat)
    (s : State) : Except Error State :=
  match left, right with
  | .expr left, .expr right => do
      let left ← left.evaluate (Scope.lookup s.scopes limit parent_scope)
      let right ← right.evaluate (Scope.lookup s.scopes limit parent_scope)
      if op.holds left right then GenerateModule true_block [] (s.setParent true_block parent_scope)
      else return s
  | _, _ => .error .comparisonWithUnits

def GenLoop (GenerateModule : Nat → List Int → State → Except Error State)
    (parent_scope : Nat) (start finish : Value) (body : Nat) (s : State) :
    Except Error State := do
  let start ← start.resolve (Scope.lookup s.scopes limit parent_scope)
  let finish ← finish.resolve (Scope.lookup s.scopes limit parent_scope)
  (iterations start finish).foldlM (fun s i => GenerateModule body [i] s)
    (s.setParent body parent_scope)

def GenerateInsn (GenerateModule : Nat → List Int → State → Except Error State)
    (this_scope : Nat) (s : State) : Insn → Except Error State
  | .newNode name type => GenNewNode limit this_scope name type s
  | .newLink src dst attrs => GenNewLink limit this_scope src dst attrs s
  | .rdmaConfig attrs => GenRdmaConfig limit this_scope attrs s
  | .submodule name module_name args =>
      GenSubmodule program limit GenerateModule this_scope name module_name args s
  | .cond left op right true_block =>
      GenIf limit GenerateModule this_scope left op right true_block s
  | .loop start finish body => GenLoop limit GenerateModule this_scope start finish body s

/-- The first argument is what is left of the recursion limit. -/
def GenerateModule : Nat → Nat → List Int → State → Except Error State
  | 0, _, _, _ => .error .recursionError
  | depth + 1, module, args, s =>
      let block := program.block module
      if args.length ≠ block.params.length then
        .error (.argumentMismatch module block.params.length args.length)
      else
        block.insns.foldlM (GenerateInsn program limit (GenerateModule depth) module)
          (s.setParams module block.params args)

def Generate : Except Error Generator :=
  match Dict.get? program.modules "main" with
  | none => .error (.missingKey "main")
  | some main => do
      let s ← GenerateModule program limit limit main [] .new
      return s.gen.finish

end

end CollectiveSim.Topology
