import CollectiveSim.Framework.Traced
import CollectiveSim.Topology.Codegen

/-!
# Hierarchical paths

The generator once more, noting the path of every node and of both ends of every link: the names of
the uses around it, as the generator resolves them, and its own. What the generator stores is the path
with underscores between its names.
-/

namespace CollectiveSim.Topology

open Framework Framework.Traced

/-- The name that is stored for a path. -/
def flatten (path : List String) : String := "_".intercalate path

/-- The types of nodes. -/
inductive NodeKind
  | gpu
  | switch
  | nvswitch
  deriving DecidableEq

/-- A node or a link that the generator has made. -/
inductive Declaration
  | node (path : List String) (kind : NodeKind)
  | link (src dst : List String)
  deriving DecidableEq

abbrev Declaring := Traced Error Declaration

def nodeKind (type : String) : Except Error NodeKind :=
  if type = "gpu" then .ok .gpu
  else if type = "switch" then .ok .switch
  else if type = "nvswitch" then .ok .nvswitch
  else .error (.unrecognizedNodeType type)

/-- The names behind `get_node_name_prefix`. -/
def Scope.getPath (scopes : Nat → Scope) : Nat → Nat → Except Error (List String)
  | 0, _ => .error .recursionError
  | limit + 1, scope => do
      let path ←
        match (scopes scope).parent with
        | some parent => getPath scopes limit parent
        | none => pure []
      let myPrefix ← (scopes scope).nodeNamePrefix.resolve (lookup scopes (limit + 1) scope)
      return if myPrefix = "" then path else path ++ [myPrefix]

def nodePath (scopes : Nat → Scope) (limit this_scope : Nat) (name : Name) :
    Except Error (List String) := do
  let path ← Scope.getPath scopes limit this_scope
  let name ← name.resolve (Scope.lookup scopes limit this_scope)
  return path ++ [name]

/-- The names of a reference. -/
def Ref.path (lookup : String → Except Error Int) (ref : Ref) : Except Error (List String) := do
  let head ← ref.head.resolve lookup
  let tail ← ref.tail.mapM (Name.resolve lookup)
  return head :: tail

/-- The paths of both ends of a link. -/
def linkPaths (scopes : Nat → Scope) (limit this_scope : Nat) (src dst : Ref) :
    Except Error (List String × List String) := do
  let src ← src.path (Scope.lookup scopes limit this_scope)
  let dst ← dst.path (Scope.lookup scopes limit this_scope)
  let path ← Scope.getPath scopes limit this_scope
  return (path ++ src, path ++ dst)

section

variable (program : Program) (limit : Nat)

def declareInsn (declareModule : Nat → List Int → State → Declaring State) (this_scope : Nat)
    (s : State) : Insn → Declaring State
  | .newNode name type => do
      let s' ← check (GenNewNode limit this_scope name type s)
      let path ← check (nodePath s.scopes limit this_scope name)
      let kind ← check (nodeKind type)
      note (.node path kind)
      return s'
  | .newLink src dst attrs => do
      let s' ← check (GenNewLink limit this_scope src dst attrs s)
      let paths ← check (linkPaths s.scopes limit this_scope src dst)
      note (.link paths.1 paths.2)
      return s'
  | .rdmaConfig attrs => check (GenRdmaConfig limit this_scope attrs s)
  | .submodule name module_name args =>
      match Dict.get? program.modules module_name with
      | none => check (.error (.notDefined module_name))
      | some module => do
          let s := (s.setParent module this_scope).setNodeNamePrefix module name
          let resolved_args ←
            check (args.mapM (Value.resolve (Scope.lookup s.scopes limit this_scope)))
          declareModule module resolved_args s
  | .cond left op right true_block =>
      match left, right with
      | .expr left, .expr right => do
          let left ← check (left.evaluate (Scope.lookup s.scopes limit this_scope))
          let right ← check (right.evaluate (Scope.lookup s.scopes limit this_scope))
          if op.holds left right then declareModule true_block [] (s.setParent true_block this_scope)
          else return s
      | _, _ => check (.error .comparisonWithUnits)
  | .loop start finish body => do
      let start ← check (start.resolve (Scope.lookup s.scopes limit this_scope))
      let finish ← check (finish.resolve (Scope.lookup s.scopes limit this_scope))
      (iterations start finish).foldlM (fun s i => declareModule body [i] s)
        (s.setParent body this_scope)

def declareModule : Nat → Nat → List Int → State → Declaring State
  | 0, _, _, _ => check (.error .recursionError)
  | depth + 1, module, args, s =>
      let block := program.block module
      if args.length ≠ block.params.length then
        check (.error (.argumentMismatch module block.params.length args.length))
      else
        block.insns.foldlM (declareInsn program limit (declareModule depth) module)
          (s.setParams module block.params args)

/-- The nodes and links of a program, in the order in which the generator makes them. -/
def declarations : List Declaration :=
  match Dict.get? program.modules "main" with
  | none => []
  | some main => (declareModule program limit limit main [] .new).trace

end

/-! ## Paths and names -/

theorem flatten_append {path path' : List String} (hne : path ≠ []) (hne' : path' ≠ []) :
    flatten (path ++ path') = flatten path ++ "_" ++ flatten path' :=
  String.intercalate_append_of_ne_nil hne hne'

theorem flatten_singleton (name : String) : flatten [name] = name := String.intercalate_singleton

theorem flatten_ne_empty {path : List String} (hne : path ≠ []) (hnames : "" ∉ path) :
    flatten path ≠ "" := by
  match path with
  | [] => exact absurd rfl hne
  | [name] =>
      rw [flatten_singleton]
      exact fun hempty => hnames (by simp [hempty])
  | name :: next :: rest =>
      intro hempty
      have hlength := congrArg String.length hempty
      simp [flatten] at hlength

theorem withPrefix_flatten {path path' : List String} (hnames : "" ∉ path) (hne' : path' ≠ []) :
    withPrefix (flatten path) (flatten path') = flatten (path ++ path') := by
  by_cases hne : path = []
  · subst hne
    simp [withPrefix, flatten]
  · rw [withPrefix, if_pos (flatten_ne_empty hne hnames), flatten_append hne hne']

theorem joinPrefix_flatten {path : List String} (hnames : "" ∉ path) (name : String) :
    joinPrefix (flatten path) name = flatten (if name = "" then path else path ++ [name]) := by
  by_cases hname : name = ""
  · simp [joinPrefix, hname]
  · by_cases hne : path = []
    · subst hne
      simp [joinPrefix, flatten, hname]
    · rw [joinPrefix, if_pos ⟨flatten_ne_empty hne hnames, hname⟩, if_neg hname,
        flatten_append hne (by simp), flatten_singleton]

theorem Scope.getPath_names {scopes : Nat → Scope} {limit scope : Nat} {path : List String}
    (h : getPath scopes limit scope = .ok path) : "" ∉ path := by
  induction limit generalizing scope path with
  | zero => cases h
  | succ limit ih =>
      have hall : ∃ outer myPrefix, "" ∉ outer ∧
          path = if myPrefix = "" then outer else outer ++ [myPrefix] := by
        rw [getPath] at h
        cases hparent : (scopes scope).parent with
        | none =>
            simp only [hparent] at h
            obtain ⟨outer, houter, h⟩ := except_bind_ok.mp h
            obtain ⟨myPrefix, -, h⟩ := except_bind_ok.mp h
            cases houter
            cases h
            exact ⟨[], myPrefix, List.not_mem_nil, rfl⟩
        | some parent =>
            simp only [hparent] at h
            obtain ⟨outer, houter, h⟩ := except_bind_ok.mp h
            obtain ⟨myPrefix, -, h⟩ := except_bind_ok.mp h
            cases h
            exact ⟨outer, myPrefix, ih houter, rfl⟩
      obtain ⟨outer, myPrefix, hnames, rfl⟩ := hall
      split
      · exact hnames
      · rename_i hne
        simp [hnames, Ne.symm hne]

theorem Scope.getNodeNamePrefix_eq (scopes : Nat → Scope) (limit scope : Nat) :
    getNodeNamePrefix scopes limit scope = flatten <$> getPath scopes limit scope := by
  induction limit generalizing scope with
  | zero => rfl
  | succ limit ih =>
      rw [getNodeNamePrefix, getPath]
      cases hparent : (scopes scope).parent with
      | none =>
          cases (scopes scope).nodeNamePrefix.resolve (lookup scopes (limit + 1) scope) with
          | error e => rfl
          | ok myPrefix => exact congrArg Except.ok (joinPrefix_flatten List.not_mem_nil myPrefix)
      | some parent =>
          simp only [ih]
          cases hpath : getPath scopes limit parent with
          | error e => rfl
          | ok path =>
              cases (scopes scope).nodeNamePrefix.resolve (lookup scopes (limit + 1) scope) with
              | error e => rfl
              | ok myPrefix =>
                  exact congrArg Except.ok (joinPrefix_flatten (getPath_names hpath) myPrefix)

theorem Ref.resolveTail_eq (lookup : String → Except Error Int) (ref : Ref) (head : String) :
    ref.resolveTail lookup head =
      (fun names => flatten (head :: names)) <$> ref.tail.mapM (Name.resolve lookup) := by
  have htail (tail : List Name) (path : List String) (hne : path ≠ []) :
      tail.foldlM (fun path name => return path ++ "_" ++ (← name.resolve lookup)) (flatten path) =
        (fun names => flatten (path ++ names)) <$> tail.mapM (Name.resolve lookup) := by
    induction tail generalizing path with
    | nil => simp
    | cons name tail ih =>
        rw [List.foldlM_cons, List.mapM_cons]
        cases name.resolve lookup with
        | error e => rfl
        | ok text =>
            have hnext : flatten path ++ "_" ++ text = flatten (path ++ [text]) := by
              rw [flatten_append hne (by simp), flatten_singleton]
            change tail.foldlM _ (flatten path ++ "_" ++ text) = _
            rw [hnext, ih _ (by simp)]
            change _ = _ <$> (tail.mapM (Name.resolve lookup) >>= fun names => pure (text :: names))
            cases tail.mapM (Name.resolve lookup) with
            | error e => rfl
            | ok names =>
                have hassoc : path ++ [text] ++ names = path ++ text :: names := by simp
                exact congrArg (fun path => Except.ok (flatten path)) hassoc
  have hfold := htail ref.tail [head] (by simp)
  rw [flatten_singleton] at hfold
  exact hfold

theorem resolveEnds_ok {lookup : String → Except Error Int} {src dst : Ref} {ends : String × String}
    (h : resolveEnds lookup src dst = .ok ends) :
    ∃ srcPath dstPath, src.path lookup = .ok srcPath ∧ dst.path lookup = .ok dstPath ∧
      ends = (flatten srcPath, flatten dstPath) := by
  obtain ⟨srcHead, hsrc, h⟩ := except_bind_ok.mp h
  obtain ⟨dstHead, hdst, h⟩ := except_bind_ok.mp h
  obtain ⟨srcName, hsrcName, h⟩ := except_bind_ok.mp h
  obtain ⟨dstName, hdstName, h⟩ := except_bind_ok.mp h
  cases h
  have hpath {ref : Ref} {head name : String} (hhead : ref.head.resolve lookup = .ok head)
      (hname : ref.resolveTail lookup head = .ok name) :
      ∃ path, ref.path lookup = .ok path ∧ name = flatten path := by
    rw [Ref.resolveTail_eq] at hname
    rw [Ref.path, hhead]
    cases htail : ref.tail.mapM (Name.resolve lookup) with
    | error e =>
        rw [htail] at hname
        cases hname
    | ok names =>
        rw [htail] at hname
        cases hname
        exact ⟨_, rfl, rfl⟩
  obtain ⟨srcPath, hsrcPath, rfl⟩ := hpath hsrc hsrcName
  obtain ⟨dstPath, hdstPath, rfl⟩ := hpath hdst hdstName
  exact ⟨srcPath, dstPath, hsrcPath, hdstPath, rfl⟩

theorem Ref.path_ne_nil {lookup : String → Except Error Int} {ref : Ref} {path : List String}
    (h : ref.path lookup = .ok path) : path ≠ [] := by
  obtain ⟨head, -, h⟩ := except_bind_ok.mp h
  obtain ⟨tail, -, h⟩ := except_bind_ok.mp h
  cases h
  simp

/-! ## What the generator has after its declarations -/

def NS3Insn.ends : NS3Insn → Option (String × String)
  | .installLink src dst _ _ => some (src, dst)
  | _ => none

def NS3Insn.linkId : NS3Insn → Option Nat
  | .installLink _ _ _ link_id => some link_id
  | _ => none

namespace Generator

/-- The nodes of one kind, with their numbers. -/
def nodes (gen : Generator) : NodeKind → List (String × Nat)
  | .gpu => gen.gpus
  | .switch => gen.switches
  | .nvswitch => gen.nvswitches

def counter (gen : Generator) : NodeKind → Nat
  | .gpu => gen.gpu_counter
  | .switch => gen.switch_counter
  | .nvswitch => gen.nvswitch_counter

/-- The ends of the installed links. -/
def installed (gen : Generator) : List (String × String) := gen.insns.filterMap NS3Insn.ends

def linkIds (gen : Generator) : List Nat := gen.insns.filterMap NS3Insn.linkId

end Generator

/-- The paths of the nodes of one kind. -/
def pathsOf (kind : NodeKind) (ds : List Declaration) : List (List String) :=
  ds.filterMap fun d =>
    match d with
    | .node path kind' => if kind' = kind then some path else none
    | .link _ _ => none

/-- The paths of all nodes. -/
def nodePaths (ds : List Declaration) : List (List String) :=
  ds.filterMap fun d =>
    match d with
    | .node path _ => some path
    | .link _ _ => none

def linksOf (ds : List Declaration) : List (List String × List String) :=
  ds.filterMap fun d =>
    match d with
    | .node _ _ => none
    | .link src dst => some (src, dst)

/-- No path is empty. -/
def Declaration.Named : Declaration → Prop
  | .node path _ => path ≠ []
  | .link src dst => src ≠ [] ∧ dst ≠ []

/-- The generator stores every node and link under its flattened path, and numbers the links. -/
structure Recorded (gen : Generator) (ds : List Declaration) : Prop where
  named : ∀ d ∈ ds, d.Named
  nodes : ∀ kind, gen.nodes kind = Dict.setAll [] ((pathsOf kind ds).map flatten).zipIdx
  counter : ∀ kind, gen.counter kind = (pathsOf kind ds).length
  links : gen.installed = (linksOf ds).map fun link => (flatten link.1, flatten link.2)
  ids : gen.linkIds = List.range gen.link_id_counter

theorem recorded_new : Recorded .new [] where
  named _ hmem := absurd hmem List.not_mem_nil
  nodes kind := by cases kind <;> rfl
  counter kind := by cases kind <;> rfl
  links := rfl
  ids := rfl

/-- A node more of this kind. -/
structure Adds (gen gen' : Generator) (kind : NodeKind) (name : String) : Prop where
  nodes : gen'.nodes kind = Dict.set (gen.nodes kind) name (gen.counter kind)
  counter : gen'.counter kind = gen.counter kind + 1
  nodes_other : ∀ kind', kind' ≠ kind → gen'.nodes kind' = gen.nodes kind'
  counter_other : ∀ kind', kind' ≠ kind → gen'.counter kind' = gen.counter kind'
  insns : gen'.insns = gen.insns
  link_id_counter : gen'.link_id_counter = gen.link_id_counter

theorem adds_of_eq {gen gen' : Generator} {kind : NodeKind} {name : String}
    (hnodes : ∀ kind', gen'.nodes kind' =
      if kind' = kind then Dict.set (gen.nodes kind') name (gen.counter kind') else gen.nodes kind')
    (hcounter : ∀ kind', gen'.counter kind' =
      if kind' = kind then gen.counter kind' + 1 else gen.counter kind')
    (hinsns : gen'.insns = gen.insns) (hid : gen'.link_id_counter = gen.link_id_counter) :
    Adds gen gen' kind name where
  nodes := by simp [hnodes]
  counter := by simp [hcounter]
  nodes_other kind' hkind := by simp [hnodes, hkind]
  counter_other kind' hkind := by simp [hcounter, hkind]
  insns := hinsns
  link_id_counter := hid

theorem addNode_ok {gen gen' : Generator} {name type : String}
    (h : gen.addNode name type = .ok gen') :
    ∃ kind, nodeKind type = .ok kind ∧ Adds gen gen' kind name := by
  rw [Generator.addNode] at h
  rw [nodeKind]
  split_ifs at h ⊢ with hgpu hswitch hnvswitch
  · cases h
    refine ⟨.gpu, rfl, adds_of_eq ?_ ?_ rfl rfl⟩
    all_goals intro kind'; cases kind' <;> rfl
  · cases h
    refine ⟨.switch, rfl, adds_of_eq ?_ ?_ rfl rfl⟩
    all_goals intro kind'; cases kind' <;> rfl
  · cases h
    refine ⟨.nvswitch, rfl, adds_of_eq ?_ ?_ rfl rfl⟩
    all_goals intro kind'; cases kind' <;> rfl

theorem pathsOf_node (kind kind' : NodeKind) (path : List String) (ds : List Declaration) :
    pathsOf kind' (ds ++ [.node path kind]) =
      pathsOf kind' ds ++ if kind = kind' then [path] else [] := by
  rw [pathsOf, List.filterMap_append, ← pathsOf]
  by_cases hkind : kind = kind' <;> simp [hkind]

theorem Recorded.node {gen gen' : Generator} {ds : List Declaration} {kind : NodeKind}
    {path : List String} (h : Recorded gen ds) (hadds : Adds gen gen' kind (flatten path))
    (hne : path ≠ []) : Recorded gen' (ds ++ [.node path kind]) where
  named := List.forall_mem_append.mpr ⟨h.named, List.forall_mem_singleton.mpr hne⟩
  nodes kind' := by
    rw [pathsOf_node]
    by_cases hkind : kind' = kind
    · subst hkind
      rw [hadds.nodes, h.nodes, h.counter, if_pos rfl, List.map_append, List.zipIdx_append]
      simp [Dict.setAll]
    · rw [hadds.nodes_other kind' hkind, h.nodes, if_neg (Ne.symm hkind), List.append_nil]
  counter kind' := by
    rw [pathsOf_node]
    by_cases hkind : kind' = kind
    · subst hkind
      rw [hadds.counter, h.counter, if_pos rfl, List.length_append, List.length_singleton]
    · rw [hadds.counter_other kind' hkind, h.counter, if_neg (Ne.symm hkind), List.append_nil]
  links := by
    have hlinks : linksOf (ds ++ [.node path kind]) = linksOf ds := by
      rw [linksOf, List.filterMap_append, ← linksOf]
      simp
    rw [hlinks, ← h.links, Generator.installed, Generator.installed, hadds.insns]
  ids := by
    rw [hadds.link_id_counter, ← h.ids, Generator.linkIds, Generator.linkIds, hadds.insns]

theorem addLink_ok {gen gen' : Generator} {src dst : String} {attrs : List (String × AttrValue)}
    (h : gen.addLink src dst attrs = .ok gen') :
    gen'.nodes = gen.nodes ∧ gen'.counter = gen.counter ∧
      gen'.link_id_counter = gen.link_id_counter + 1 ∧
      ∃ helper_id, gen'.insns = gen.insns ++ [.installLink src dst helper_id gen.link_id_counter] := by
  have hhelper (attr : LinkAttr) (gen₁ : Generator)
      (hgen : gen₁ = if (Dict.get? gen.link_helpers attr).isSome then gen
        else { gen with
          link_helpers := Dict.set gen.link_helpers attr gen.link_helper_counter
          link_helper_counter := gen.link_helper_counter + 1 }) :
      gen₁.nodes = gen.nodes ∧ gen₁.counter = gen.counter ∧ gen₁.insns = gen.insns ∧
        gen₁.link_id_counter = gen.link_id_counter := by
    subst hgen
    split <;> exact ⟨rfl, rfl, rfl, rfl⟩
  obtain ⟨latency, -, h⟩ := except_bind_ok.mp h
  obtain ⟨bandwidth, -, h⟩ := except_bind_ok.mp h
  cases h
  obtain ⟨hnodes, hcounter, hinsns, hid⟩ := hhelper _ _ rfl
  refine ⟨hnodes, hcounter, congrArg (· + 1) hid, ?_⟩
  exact ⟨_, congrArg₂ (fun insns id => insns ++ [NS3Insn.installLink src dst _ id]) hinsns hid⟩

theorem Recorded.link {gen gen' : Generator} {ds : List Declaration} {src dst : List String}
    {attrs : List (String × AttrValue)} (h : Recorded gen ds)
    (hadd : gen.addLink (flatten src) (flatten dst) attrs = .ok gen') (hsrc : src ≠ [])
    (hdst : dst ≠ []) : Recorded gen' (ds ++ [.link src dst]) := by
  have hpaths (kind : NodeKind) : pathsOf kind (ds ++ [.link src dst]) = pathsOf kind ds := by
    rw [pathsOf, List.filterMap_append, ← pathsOf]
    simp
  have hlinks : linksOf (ds ++ [.link src dst]) = linksOf ds ++ [(src, dst)] := by
    rw [linksOf, List.filterMap_append, ← linksOf]
    simp
  obtain ⟨hnodes, hcounter, hid, helper_id, hinsns⟩ := addLink_ok hadd
  constructor
  · exact List.forall_mem_append.mpr ⟨h.named, List.forall_mem_singleton.mpr ⟨hsrc, hdst⟩⟩
  · intro kind
    rw [hpaths, hnodes, h.nodes]
  · intro kind
    rw [hpaths, hcounter, h.counter]
  · rw [hlinks, List.map_append, ← h.links, Generator.installed, Generator.installed, hinsns,
      List.filterMap_append]
    rfl
  · rw [Generator.linkIds, hinsns, hid, List.filterMap_append, ← Generator.linkIds, h.ids,
      List.range_succ]
    rfl

theorem Recorded.rdma {gen : Generator} {ds : List Declaration} (h : Recorded gen ds) (name : String)
    (value : Int) : Recorded (gen.setRdmaAttr name value) ds :=
  ⟨h.named, h.nodes, h.counter, h.links, h.ids⟩

theorem filterMap_finish {β : Type} {f : NS3Insn → Option β}
    (hf : ∀ insn, insn.linkId = none → f insn = none) (gen : Generator) :
    gen.finish.insns.filterMap f = gen.insns.filterMap f := by
  have hgpus := hf (.makeGPUs gen.gpu_counter) rfl
  have hswitches := hf (.makeRegSwitches gen.switch_counter) rfl
  have hnvswitches := hf (.makeNVSwitches gen.nvswitch_counter) rfl
  have hhelpers (helpers : List (LinkAttr × Nat)) :
      (helpers.map fun helper => NS3Insn.makeLinkHelper helper.2 helper.1).filterMap f = [] := by
    rw [List.filterMap_eq_nil_iff, List.forall_mem_map]
    exact fun helper _ => hf _ rfl
  have hfabric := hf (.buildRdmaFabric gen.rdma_attrs) rfl
  rw [Generator.finish]
  cases gen.has_qbb_fabric <;>
    simp [List.filterMap_append, hgpus, hswitches, hnvswitches, hhelpers, hfabric]

theorem installed_finish (gen : Generator) : gen.finish.installed = gen.installed := by
  rw [Generator.installed, filterMap_finish, Generator.installed]
  intro insn hinsn
  cases insn <;> first | rfl | cases hinsn

theorem Recorded.finish {gen : Generator} {ds : List Declaration} (h : Recorded gen ds) :
    Recorded gen.finish ds where
  named := h.named
  nodes := h.nodes
  counter := h.counter
  links := by
    rw [installed_finish, h.links]
  ids := by
    rw [Generator.linkIds, filterMap_finish fun insn hinsn => hinsn, ← Generator.linkIds, h.ids]
    rfl

/-! ## The notes change no result and tell all of it -/

section

variable {program : Program} {limit this_scope : Nat} {s s' : State}

/-- Whatever the computation ends with has recorded its notes behind those before. -/
def Notes (s : State) (t : Declaring State) : Prop :=
  ∀ s', t.result = .ok s' → ∀ ds, Recorded s.gen ds → Recorded s'.gen (ds ++ t.trace)

theorem notes_error (e : Error) : Notes s (check (.error e)) := fun _ h => by cases h

theorem Notes.check_bind {α : Type} {r : Except Error α} {f : α → Declaring State}
    (h : ∀ a, r = .ok a → Notes s (f a)) : Notes s (check r >>= f) := by
  cases r with
  | error e => exact fun _ h => by cases h
  | ok a => exact h a rfl

theorem Notes.foldlM {α : Type} {f : State → α → Declaring State} (h : ∀ s x, Notes s (f s x))
    (s : State) (xs : List α) : Notes s (xs.foldlM f s) := by
  induction xs generalizing s with
  | nil =>
      intro s' hs' ds hds
      cases hs'
      simpa using hds
  | cons x xs ih =>
      intro s' hs' ds hds
      rw [List.foldlM_cons, result_bind, except_bind_ok] at hs'
      obtain ⟨s₁, hs₁, hs'⟩ := hs'
      rw [List.foldlM_cons, trace_bind hs₁, ← List.append_assoc]
      exact ih s₁ s' hs' _ (h s x s₁ hs₁ ds hds)

theorem GenNewNode_ok {name : Name} {type : String}
    (h : GenNewNode limit this_scope name type s = .ok s') :
    ∃ path, nodePath s.scopes limit this_scope name = .ok path ∧ path ≠ [] ∧
      s.gen.addNode (flatten path) type = .ok s'.gen := by
  rw [GenNewNode, Scope.getNodeNamePrefix_eq] at h
  rw [nodePath]
  cases hpath : Scope.getPath s.scopes limit this_scope with
  | error e =>
      rw [hpath] at h
      cases h
  | ok path =>
      rw [hpath] at h
      change (name.resolve (Scope.lookup s.scopes limit this_scope) >>= _) = _ at h
      obtain ⟨name', hname, h⟩ := except_bind_ok.mp h
      obtain ⟨gen, hgen, h⟩ := except_bind_ok.mp h
      cases h
      refine ⟨path ++ [name'], by rw [hname]; rfl, by simp, ?_⟩
      rw [← withPrefix_flatten (Scope.getPath_names hpath) (by simp), flatten_singleton]
      exact hgen

theorem GenNewLink_ok {src dst : Ref} {attrs : List (String × AttrValue)}
    (h : GenNewLink limit this_scope src dst attrs s = .ok s') :
    ∃ paths, linkPaths s.scopes limit this_scope src dst = .ok paths ∧ paths.1 ≠ [] ∧ paths.2 ≠ [] ∧
      s.gen.addLink (flatten paths.1) (flatten paths.2) attrs = .ok s'.gen := by
  rw [GenNewLink, Scope.getNodeNamePrefix_eq] at h
  obtain ⟨ends, hends, h⟩ := except_bind_ok.mp h
  obtain ⟨srcPath, dstPath, hsrc, hdst, rfl⟩ := resolveEnds_ok hends
  rw [linkPaths, hsrc, hdst]
  cases hpath : Scope.getPath s.scopes limit this_scope with
  | error e =>
      rw [hpath] at h
      cases h
  | ok path =>
      rw [hpath] at h
      change (s.gen.addLink (withPrefix (flatten path) (flatten srcPath))
        (withPrefix (flatten path) (flatten dstPath)) attrs >>= _) = _ at h
      obtain ⟨gen, hgen, h⟩ := except_bind_ok.mp h
      cases h
      have hnames := Scope.getPath_names hpath
      rw [withPrefix_flatten hnames (Ref.path_ne_nil hsrc),
        withPrefix_flatten hnames (Ref.path_ne_nil hdst)] at hgen
      exact ⟨(path ++ srcPath, path ++ dstPath), rfl,
        List.append_ne_nil_of_right_ne_nil _ (Ref.path_ne_nil hsrc),
        List.append_ne_nil_of_right_ne_nil _ (Ref.path_ne_nil hdst), hgen⟩

theorem GenRdmaConfig_ok {attrs : List (String × Value)} {ds : List Declaration}
    (h : GenRdmaConfig limit this_scope attrs s = .ok s') (hds : Recorded s.gen ds) :
    Recorded s'.gen ds := by
  rw [GenRdmaConfig] at h
  induction attrs generalizing s with
  | nil =>
      cases h
      exact hds
  | cons attr attrs ih =>
      rw [List.foldlM_cons] at h
      obtain ⟨s₁, hs₁, h⟩ := except_bind_ok.mp h
      obtain ⟨value, -, hs₁⟩ := except_bind_ok.mp hs₁
      cases hs₁
      exact ih h (hds.rdma _ _)

theorem result_declareInsn {declareModule : Nat → List Int → State → Declaring State}
    {GenerateModule : Nat → List Int → State → Except Error State}
    (h : ∀ module args s, (declareModule module args s).result = GenerateModule module args s)
    (insn : Insn) : (declareInsn program limit declareModule this_scope s insn).result =
      GenerateInsn program limit GenerateModule this_scope s insn := by
  cases insn with
  | newNode name type =>
      rw [declareInsn, GenerateInsn]
      cases hgen : GenNewNode limit this_scope name type s with
      | error e => rfl
      | ok s' =>
          obtain ⟨path, hpath, -, hadd⟩ := GenNewNode_ok hgen
          obtain ⟨kind, hkind, -⟩ := addNode_ok hadd
          rw [hpath, hkind]
          rfl
  | newLink src dst attrs =>
      rw [declareInsn, GenerateInsn]
      cases hgen : GenNewLink limit this_scope src dst attrs s with
      | error e => rfl
      | ok s' =>
          obtain ⟨paths, hpaths, -⟩ := GenNewLink_ok hgen
          rw [hpaths]
          rfl
  | rdmaConfig attrs => rfl
  | submodule name module_name args =>
      rw [declareInsn, GenerateInsn, GenSubmodule]
      cases Dict.get? program.modules module_name with
      | none => rfl
      | some module => simp only [result_bind, result_check, h]
  | cond left op right true_block =>
      rw [GenerateInsn]
      cases left with
      | quantity value unit => rfl
      | expr left =>
          cases right with
          | quantity value unit => rfl
          | expr right =>
              rw [declareInsn, GenIf]
              simp only [result_bind, result_check]
              congr 1
              funext l
              congr 1
              funext r
              cases op.holds l r with
              | true => exact h _ _ _
              | false => rfl
  | loop start finish body =>
      rw [declareInsn, GenerateInsn, GenLoop]
      simp only [result_bind, result_check, result_foldlM, h]

theorem result_declareModule (depth module : Nat) (args : List Int) (s : State) :
    (declareModule program limit depth module args s).result =
      GenerateModule program limit depth module args s := by
  induction depth generalizing module args s with
  | zero => rfl
  | succ depth ih =>
      rw [declareModule, GenerateModule]
      by_cases hargs : args.length = (program.block module).params.length
      · simp only [hargs, ne_eq, not_true_eq_false, if_false, result_foldlM]
        congr 1
        funext s insn
        exact result_declareInsn ih insn
      · simp only [hargs, ne_eq, not_false_eq_true, if_true, result_check]

theorem notes_declareInsn {declareModule : Nat → List Int → State → Declaring State}
    (h : ∀ module args s, Notes s (declareModule module args s)) (insn : Insn) :
    Notes s (declareInsn program limit declareModule this_scope s insn) := by
  cases insn with
  | newNode name type =>
      rw [declareInsn]
      apply Notes.check_bind
      intro s₁ hgen
      obtain ⟨path, hpath, hne, hadd⟩ := GenNewNode_ok hgen
      obtain ⟨kind, hkind, hadds⟩ := addNode_ok hadd
      rw [hpath, hkind]
      intro s' hs' ds hds
      cases hs'
      exact hds.node hadds hne
  | newLink src dst attrs =>
      rw [declareInsn]
      apply Notes.check_bind
      intro s₁ hgen
      obtain ⟨paths, hpaths, hsrc, hdst, hadd⟩ := GenNewLink_ok hgen
      rw [hpaths]
      intro s' hs' ds hds
      cases hs'
      exact hds.link hadd hsrc hdst
  | rdmaConfig attrs =>
      intro s' hs' ds hds
      have hrdma := GenRdmaConfig_ok hs' hds
      simpa [declareInsn, check] using hrdma
  | submodule name module_name args =>
      rw [declareInsn]
      cases Dict.get? program.modules module_name with
      | none => exact notes_error _
      | some module =>
          apply Notes.check_bind
          intro resolved_args _
          exact h _ _ _
  | cond left op right true_block =>
      cases left with
      | quantity value unit => exact notes_error _
      | expr left =>
          cases right with
          | quantity value unit => exact notes_error _
          | expr right =>
              rw [declareInsn]
              apply Notes.check_bind
              intro l _
              apply Notes.check_bind
              intro r _
              cases op.holds l r with
              | true => exact h _ _ (s.setParent true_block this_scope)
              | false =>
                  intro s' hs' ds hds
                  cases hs'
                  simpa using hds
  | loop start finish body =>
      rw [declareInsn]
      apply Notes.check_bind
      intro first _
      apply Notes.check_bind
      intro last _
      exact Notes.foldlM (fun s i => h body [i] s) (s.setParent body this_scope) _

theorem notes_declareModule (depth module : Nat) (args : List Int) (s : State) :
    Notes s (declareModule program limit depth module args s) := by
  induction depth generalizing module args s with
  | zero => exact notes_error _
  | succ depth ih =>
      rw [declareModule]
      by_cases hargs : args.length = (program.block module).params.length
      · simp only [hargs, ne_eq, not_true_eq_false, if_false]
        exact Notes.foldlM (fun s insn => notes_declareInsn ih insn)
          (s.setParams module (program.block module).params args) _
      · simp only [hargs, ne_eq, not_false_eq_true, if_true]
        exact notes_error _

/-- What the generator ends with is what its declarations record. -/
theorem recorded_declarations {gen : Generator} (h : Generate program limit = .ok gen) :
    Recorded gen (declarations program limit) := by
  rw [Generate] at h
  rw [declarations]
  cases hmain : Dict.get? program.modules "main" with
  | none =>
      rw [hmain] at h
      cases h
  | some main =>
      rw [hmain] at h
      obtain ⟨s', hs', h⟩ := except_bind_ok.mp h
      cases h
      rw [← result_declareModule] at hs'
      exact (notes_declareModule _ _ _ _ s' hs' [] recorded_new).finish

end

end CollectiveSim.Topology
