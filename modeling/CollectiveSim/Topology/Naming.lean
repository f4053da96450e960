import CollectiveSim.Topology.Paths

/-!
# Flattened names

A path is stored with underscores between its names, and a name may have underscores of its own. Two
paths are stored under one name if and only if their names consist of the same words.
-/

namespace CollectiveSim.Topology

open Framework

theorem splitOn_intercalate_flatMap {α : Type*} [BEq α] [LawfulBEq α] (a : α) {parts : List (List α)}
    (hne : parts ≠ []) : ([a].intercalate parts).splitOn a = parts.flatMap (List.splitOn a) := by
  induction parts with
  | nil => exact absurd rfl hne
  | cons x rest ih =>
      match rest with
      | [] => simp
      | y :: rest =>
          rw [List.intercalate_cons_cons, List.append_assoc, List.singleton_append,
            List.splitOn_append_cons_self, ih (by simp), ← List.flatMap_cons]

/-- The words of the names of a path. -/
def words (path : List String) : List (List Char) := path.flatMap fun name => name.toList.splitOn '_'

theorem splitOn_flatten {path : List String} (hne : path ≠ []) :
    (flatten path).toList.splitOn '_' = words path := by
  have htoList : (flatten path).toList = ['_'].intercalate (path.map String.toList) :=
    String.toList_intercalate
  rw [htoList, splitOn_intercalate_flatMap '_' (by simpa using hne), List.flatMap_map, words]

theorem flatten_eq_iff {path path' : List String} (hne : path ≠ []) (hne' : path' ≠ []) :
    flatten path = flatten path' ↔ words path = words path' := by
  rw [← splitOn_flatten hne, ← splitOn_flatten hne', ← String.toList_inj]
  constructor
  · intro h
    rw [h]
  · intro h
    have hjoin := congrArg (List.intercalate ['_']) h
    simpa only [List.intercalate_splitOn] using hjoin

/-! ## What a name stands for -/

/-- `NS3Writer._resolve_node`, `none` for an unknown node. -/
def Generator.resolveNode (gen : Generator) (name : String) : Option (NodeKind × Nat) :=
  match Dict.get? gen.gpus name with
  | some n => some (.gpu, n)
  | none =>
      match Dict.get? gen.switches name with
      | some n => some (.switch, n)
      | none => (Dict.get? gen.nvswitches name).map fun n => (.nvswitch, n)

/-- The node with this kind and number is the one at the path. -/
def DeclaredAt (ds : List Declaration) (path : List String) (node : NodeKind × Nat) : Prop :=
  (pathsOf node.1 ds)[node.2]? = some path

/-- The name stands for the node at the path, if there is one, and else for none. -/
def Resolves (gen : Generator) (ds : List Declaration) (path : List String) (name : String) : Prop :=
  ∀ node, gen.resolveNode name = some node ↔ DeclaredAt ds path node

/-- No two nodes have one name, none is lost, and links end where their references say. -/
structure NamesKept (gen : Generator) (ds : List Declaration) : Prop where
  distinct : ((gen.gpus ++ gen.switches ++ gen.nvswitches).map Prod.fst).Nodup
  kept : ∀ path node, DeclaredAt ds path node →
    Dict.get? (gen.nodes node.1) (flatten path) = some node.2
  resolved : List.Forall₂
    (fun link ends => Resolves gen ds link.1 ends.1 ∧ Resolves gen ds link.2 ends.2)
    (linksOf ds) gen.installed

/-- The paths that links refer to. -/
def linkEnds (ds : List Declaration) : List (List String) :=
  (linksOf ds).flatMap fun link => [link.1, link.2]

/-- No other node or reference has the same words as a node. -/
def Separate (ds : List Declaration) : Prop :=
  ∀ path ∈ nodePaths ds ++ linkEnds ds, ∀ path' ∈ nodePaths ds, words path = words path' → path = path'

instance (ds : List Declaration) : Decidable (Separate ds) :=
  inferInstanceAs (Decidable (∀ path ∈ nodePaths ds ++ linkEnds ds, _))

section

variable {gen : Generator} {ds : List Declaration} {path path' : List String} {name : String}
  {node node' : NodeKind × Nat}

/-! ### Nodes and paths -/

theorem mem_nodePaths_iff : path ∈ nodePaths ds ↔ ∃ node, DeclaredAt ds path node := by
  constructor
  · intro h
    obtain ⟨d, hd, hpath⟩ := List.mem_filterMap.mp h
    cases d with
    | link src dst => cases hpath
    | node path₁ kind =>
        cases hpath
        have hmem : path ∈ pathsOf kind ds := List.mem_filterMap.mpr ⟨_, hd, by simp⟩
        obtain ⟨n, hn⟩ := List.mem_iff_getElem?.mp hmem
        exact ⟨(kind, n), hn⟩
  · rintro ⟨⟨kind, n⟩, hnode⟩
    obtain ⟨d, hd, hpath⟩ := List.mem_filterMap.mp (List.mem_of_getElem? hnode)
    refine List.mem_filterMap.mpr ⟨d, hd, ?_⟩
    cases d with
    | link src dst => cases hpath
    | node path₁ kind₁ =>
        dsimp only at hpath
        split at hpath
        · exact hpath
        · cases hpath

theorem pathsOf_cons_node (kind kind' : NodeKind) (path : List String) (ds : List Declaration) :
    pathsOf kind' (.node path kind :: ds) =
      if kind = kind' then path :: pathsOf kind' ds else pathsOf kind' ds := by
  by_cases hkind : kind = kind' <;> simp [pathsOf, hkind]

theorem pathsOf_sublist (kind : NodeKind) (ds : List Declaration) :
    (pathsOf kind ds).Sublist (nodePaths ds) := by
  induction ds with
  | nil => exact List.Sublist.slnil
  | cons d ds ih =>
      cases d with
      | link src dst => exact ih
      | node path kind' =>
          rw [pathsOf_cons_node]
          split
          · exact ih.cons_cons path
          · exact ih.cons path

theorem kind_unique {kind kind' : NodeKind} (hnodup : (nodePaths ds).Nodup)
    (h : path ∈ pathsOf kind ds) (h' : path ∈ pathsOf kind' ds) : kind = kind' := by
  induction ds with
  | nil => cases h
  | cons d ds ih =>
      cases d with
      | link src dst => exact ih hnodup h h'
      | node path₁ kind₁ =>
          obtain ⟨hnew, hnodup⟩ := List.nodup_cons.mp hnodup
          by_cases hpath : path = path₁
          · have hkind : ∀ {kind : NodeKind}, path ∈ pathsOf kind (.node path₁ kind₁ :: ds) →
                kind₁ = kind := by
              intro kind hmem
              rw [pathsOf_cons_node] at hmem
              split at hmem
              · assumption
              · exact absurd ((pathsOf_sublist _ ds).subset hmem) (hpath ▸ hnew)
            rw [← hkind h, ← hkind h']
          · have htail : ∀ {kind : NodeKind}, path ∈ pathsOf kind (.node path₁ kind₁ :: ds) →
                path ∈ pathsOf kind ds := by
              intro kind hmem
              rw [pathsOf_cons_node] at hmem
              split at hmem
              · simpa [hpath] using hmem
              · exact hmem
            exact ih hnodup (htail h) (htail h')

/-- With distinct paths a path is that of one node. -/
theorem DeclaredAt.unique (hnodup : (nodePaths ds).Nodup) (h : DeclaredAt ds path node)
    (h' : DeclaredAt ds path node') : node = node' := by
  have hkind : node.1 = node'.1 :=
    kind_unique hnodup (List.mem_of_getElem? h) (List.mem_of_getElem? h')
  have hnumber : node.2 = node'.2 := by
    obtain ⟨hlt, -⟩ := List.getElem?_eq_some_iff.mp h
    apply (List.getElem?_inj hlt (hnodup.sublist (pathsOf_sublist node.1 ds))).mp
    rw [h, hkind, h']
  exact Prod.ext hkind hnumber

/-! ### Names and nodes -/

theorem resolveNode_eq_some_iff
    (hdistinct : ((gen.gpus ++ gen.switches ++ gen.nvswitches).map Prod.fst).Nodup) :
    gen.resolveNode name = some node ↔ Dict.get? (gen.nodes node.1) name = some node.2 := by
  rw [List.map_append, List.map_append, List.append_assoc] at hdistinct
  obtain ⟨-, hrest, hgpus⟩ := List.nodup_append.mp hdistinct
  obtain ⟨-, -, hswitches⟩ := List.nodup_append.mp hrest
  have hkey : ∀ {d : List (String × Nat)} {n : Nat}, Dict.get? d name = some n →
      name ∈ d.map Prod.fst := fun h => Dict.get?_isSome_iff.mp (by simp [h])
  obtain ⟨kind, n⟩ := node
  rw [Generator.resolveNode]
  cases hgpu : Dict.get? gen.gpus name with
  | some g =>
      have hsw : Dict.get? gen.switches name = none := by
        cases h : Dict.get? gen.switches name with
        | none => rfl
        | some _ => exact absurd rfl (hgpus _ (hkey hgpu) _ (List.mem_append_left _ (hkey h)))
      have hnv : Dict.get? gen.nvswitches name = none := by
        cases h : Dict.get? gen.nvswitches name with
        | none => rfl
        | some _ => exact absurd rfl (hgpus _ (hkey hgpu) _ (List.mem_append_right _ (hkey h)))
      cases kind <;> simp [Generator.nodes, hgpu, hsw, hnv]
  | none =>
      cases hswitch : Dict.get? gen.switches name with
      | some w =>
          have hnv : Dict.get? gen.nvswitches name = none := by
            cases h : Dict.get? gen.nvswitches name with
            | none => rfl
            | some _ => exact absurd rfl (hswitches _ (hkey hswitch) _ (hkey h))
          cases kind <;> simp [Generator.nodes, hgpu, hswitch, hnv]
      | none => cases kind <;> simp [Generator.nodes, hgpu, hswitch]

/-! ## Names are kept exactly where they are separate -/

theorem Recorded.ne_nil (h : Recorded gen ds) (hpath : path ∈ nodePaths ds ++ linkEnds ds) :
    path ≠ [] := by
  rcases List.mem_append.mp hpath with hnode | hlink
  · obtain ⟨d, hd, hsome⟩ := List.mem_filterMap.mp hnode
    cases d with
    | link src dst => cases hsome
    | node path₁ kind =>
        cases hsome
        exact h.named _ hd
  · obtain ⟨link, hlink, hend⟩ := List.mem_flatMap.mp hlink
    obtain ⟨d, hd, hsome⟩ := List.mem_filterMap.mp hlink
    cases d with
    | node path₁ kind => cases hsome
    | link src dst =>
        cases hsome
        obtain ⟨hsrc, hdst⟩ := h.named _ hd
        have hor : path = src ∨ path = dst := by simpa using hend
        rcases hor with rfl | rfl
        · exact hsrc
        · exact hdst

/-- Each stored name is that of a node with the stored number. -/
theorem Recorded.declared {kind : NodeKind} {n : Nat} (h : Recorded gen ds)
    (hget : Dict.get? (gen.nodes kind) name = some n) :
    ∃ path, DeclaredAt ds path (kind, n) ∧ flatten path = name := by
  rw [h.nodes] at hget
  have hname := Dict.getElem?_of_get?_zipIdx hget
  rw [List.getElem?_map] at hname
  exact Option.map_eq_some_iff.mp hname

theorem Recorded.stored (h : Recorded gen ds) (hnode : DeclaredAt ds path node) :
    ∃ n, Dict.get? (gen.nodes node.1) (flatten path) = some n := by
  apply Option.isSome_iff_exists.mp
  rw [h.nodes, Dict.get?_zipIdx_isSome_iff]
  exact List.mem_map_of_mem (List.mem_of_getElem? hnode)

theorem Separate.get?_nodes_iff (hsep : Separate ds) (h : Recorded gen ds)
    (hnodup : (nodePaths ds).Nodup) (hpath : path ∈ nodePaths ds ++ linkEnds ds) :
    Dict.get? (gen.nodes node.1) (flatten path) = some node.2 ↔ DeclaredAt ds path node := by
  have hdeclared : ∀ {n}, Dict.get? (gen.nodes node.1) (flatten path) = some n →
      DeclaredAt ds path (node.1, n) := by
    intro n hget
    obtain ⟨path', hnode, hflat⟩ := h.declared hget
    have hmem : path' ∈ nodePaths ds := mem_nodePaths_iff.mpr ⟨_, hnode⟩
    have hne' := h.ne_nil (List.mem_append_left _ hmem)
    have hwords := (flatten_eq_iff (h.ne_nil hpath) hne').mp hflat.symm
    rw [hsep path hpath path' hmem hwords]
    exact hnode
  constructor
  · exact hdeclared
  · intro hnode
    obtain ⟨n, hn⟩ := h.stored hnode
    rw [hn, hnode.unique hnodup (hdeclared hn)]

theorem Separate.distinct (hsep : Separate ds) (h : Recorded gen ds)
    (hnodup : (nodePaths ds).Nodup) :
    ((gen.gpus ++ gen.switches ++ gen.nvswitches).map Prod.fst).Nodup := by
  have hkeys (kind : NodeKind) : ((gen.nodes kind).map Prod.fst).Nodup := by
    rw [h.nodes]
    exact Dict.nodup_setAll _ List.nodup_nil
  have hkinds (kind kind' : NodeKind) (hne : kind ≠ kind') :
      ∀ key ∈ (gen.nodes kind).map Prod.fst, ∀ key' ∈ (gen.nodes kind').map Prod.fst, key ≠ key' := by
    rintro key hkey _ hkey' rfl
    obtain ⟨n, hn⟩ := Option.isSome_iff_exists.mp (Dict.get?_isSome_iff.mpr hkey)
    obtain ⟨n', hn'⟩ := Option.isSome_iff_exists.mp (Dict.get?_isSome_iff.mpr hkey')
    obtain ⟨path, hnode, rfl⟩ := h.declared hn
    have hmem : path ∈ nodePaths ds := mem_nodePaths_iff.mpr ⟨_, hnode⟩
    have hnode' : DeclaredAt ds path (kind', n') :=
      (hsep.get?_nodes_iff h hnodup (List.mem_append_left _ hmem)).mp hn'
    exact hne (congrArg Prod.fst (hnode.unique hnodup hnode'))
  rw [List.map_append, List.map_append, List.nodup_append, List.nodup_append]
  refine ⟨⟨hkeys .gpu, hkeys .switch, hkinds .gpu .switch (by decide)⟩, hkeys .nvswitch, ?_⟩
  intro key hkey
  rcases List.mem_append.mp hkey with hgpu | hswitch
  · exact hkinds .gpu .nvswitch (by decide) key hgpu
  · exact hkinds .switch .nvswitch (by decide) key hswitch

theorem Separate.namesKept (hsep : Separate ds) (h : Recorded gen ds)
    (hnodup : (nodePaths ds).Nodup) : NamesKept gen ds where
  distinct := hsep.distinct h hnodup
  kept path node hnode := by
    have hmem : path ∈ nodePaths ds := mem_nodePaths_iff.mpr ⟨node, hnode⟩
    exact (hsep.get?_nodes_iff h hnodup (List.mem_append_left _ hmem)).mpr hnode
  resolved := by
    rw [h.links, List.forall₂_map_right_iff, List.forall₂_same]
    intro link hlink
    have hresolves : ∀ path ∈ [link.1, link.2], Resolves gen ds path (flatten path) := by
      intro path hpath node
      have hmem : path ∈ linkEnds ds := List.mem_flatMap.mpr ⟨link, hlink, hpath⟩
      rw [resolveNode_eq_some_iff (hsep.distinct h hnodup)]
      exact hsep.get?_nodes_iff h hnodup (List.mem_append_right _ hmem)
    exact ⟨hresolves link.1 (by simp), hresolves link.2 (by simp)⟩

theorem NamesKept.separate (hkept : NamesKept gen ds) (h : Recorded gen ds) : Separate ds := by
  intro path hpath path' hpath' hwords
  have hne' := h.ne_nil (List.mem_append_left _ hpath')
  have hflat : flatten path = flatten path' := (flatten_eq_iff (h.ne_nil hpath) hne').mpr hwords
  obtain ⟨node', hnode'⟩ := mem_nodePaths_iff.mp hpath'
  have hname : gen.resolveNode (flatten path) = some node' := by
    rw [hflat, resolveNode_eq_some_iff hkept.distinct]
    exact hkept.kept path' node' hnode'
  -- the name stands for one node only, which is also the one at `path`
  have hnode : DeclaredAt ds path node' := by
    rcases List.mem_append.mp hpath with hmem | hmem
    · obtain ⟨node, hnode⟩ := mem_nodePaths_iff.mp hmem
      have hget := (resolveNode_eq_some_iff hkept.distinct).mpr (hkept.kept path node hnode)
      rw [hname] at hget
      rw [Option.some.inj hget]
      exact hnode
    · obtain ⟨link, hlink, hend⟩ := List.mem_flatMap.mp hmem
      have hresolved := hkept.resolved
      rw [h.links, List.forall₂_map_right_iff, List.forall₂_same] at hresolved
      obtain ⟨hsrc, hdst⟩ := hresolved link hlink
      have hor : path = link.1 ∨ path = link.2 := by simpa using hend
      rcases hor with rfl | rfl
      · exact (hsrc node').mp hname
      · exact (hdst node').mp hname
  exact Option.some.inj (hnode.symm.trans hnode')

end

/-- A GPU of this name, a GPU `x` in `a`, and a link between them. -/
def twoGpus (name : String) : Program where
  modules := [("leaf", 0), ("main", 1)]
  blocks :=
    [⟨[], [.newNode ⟨"x", none⟩ "gpu"]⟩,
      ⟨[], [.newNode ⟨name, none⟩ "gpu", .submodule ⟨"a", none⟩ "leaf" [],
        .newLink ⟨⟨name, none⟩, []⟩ ⟨⟨"a", none⟩, [⟨"x", none⟩]⟩
          [("latency", .quantity 1 "us"), ("bandwidth", .quantity 400 "Gbps")]]⟩]
  modules_not_bodies := by simp [Insn.bodies]

end CollectiveSim.Topology
