import CollectiveSim.Topology.Hygiene

/-!
# Clean programs are elaborated as written

The scopes of the bodies that are being elaborated form a chain that binds what the bodies bind. The
generator and the reference elaborator go through a clean program in lockstep.
-/

namespace CollectiveSim.Topology

open Framework

section Names

variable {lookup lookup' : String → Except Error Int}

theorem Name.resolve_congr {name : Name} (h : ∀ x ∈ name.names, lookup x = lookup' x) :
    name.resolve lookup = name.resolve lookup' := by
  obtain ⟨base, var⟩ := name
  cases var with
  | none => rfl
  | some v =>
      have hv := h v (by simp [Name.names])
      simp only [Name.resolve, hv]

theorem Expr.evaluate_congr {e : Expr} (h : ∀ x ∈ e.names, lookup x = lookup' x) :
    e.evaluate lookup = e.evaluate lookup' := by
  induction e with
  | num n => rfl
  | name x => exact h x (by simp [Expr.names])
  | var x => exact h x (by simp [Expr.names])
  | op o left right ihl ihr =>
      have hl := ihl fun x hx => h x (List.mem_append_left _ hx)
      have hr := ihr fun x hx => h x (List.mem_append_right _ hx)
      simp only [Expr.evaluate, hl, hr]

theorem Value.resolve_congr {value : Value} (h : ∀ x ∈ value.names, lookup x = lookup' x) :
    value.resolve lookup = value.resolve lookup' := by
  cases value with
  | quantity n unit => rfl
  | expr e => exact Expr.evaluate_congr h

theorem Value.mapM_resolve_congr {args : List Value}
    (h : ∀ x ∈ args.flatMap Value.names, lookup x = lookup' x) :
    args.mapM (Value.resolve lookup) = args.mapM (Value.resolve lookup') := by
  induction args with
  | nil => rfl
  | cons arg args ih =>
      have harg : arg.resolve lookup = arg.resolve lookup' :=
        Value.resolve_congr fun x hx => h x (by simp [hx])
      have hargs := ih fun x hx => h x (List.mem_append_right _ hx)
      rw [List.mapM_cons, List.mapM_cons, harg, hargs]

theorem Ref.resolveTail_congr {ref : Ref} (h : ∀ x ∈ ref.tail.flatMap Name.names, lookup x = lookup' x)
    (head : String) : ref.resolveTail lookup head = ref.resolveTail lookup' head := by
  obtain ⟨first, tail⟩ := ref
  simp only [resolveTail] at h ⊢
  induction tail generalizing head with
  | nil => rfl
  | cons name tail ih =>
      have hname : name.resolve lookup = name.resolve lookup' :=
        Name.resolve_congr fun x hx => h x (by simp [hx])
      simp only [List.foldlM_cons, hname]
      cases name.resolve lookup' with
      | error e => rfl
      | ok text => exact ih _ fun x hx => h x (List.mem_append_right _ hx)

theorem resolveEnds_congr {src dst : Ref} (h : ∀ x ∈ src.names ++ dst.names, lookup x = lookup' x) :
    resolveEnds lookup src dst = resolveEnds lookup' src dst := by
  have hsrc : ∀ x ∈ src.names, lookup x = lookup' x := fun x hx => h x (List.mem_append_left _ hx)
  have hdst : ∀ x ∈ dst.names, lookup x = lookup' x := fun x hx => h x (List.mem_append_right _ hx)
  have hhead {ref : Ref} (href : ∀ x ∈ ref.names, lookup x = lookup' x) :
      ref.head.resolve lookup = ref.head.resolve lookup' :=
    Name.resolve_congr fun x hx => href x (List.mem_append_left _ hx)
  have htail {ref : Ref} (href : ∀ x ∈ ref.names, lookup x = lookup' x) (head : String) :
      ref.resolveTail lookup head = ref.resolveTail lookup' head :=
    Ref.resolveTail_congr (fun x hx => href x (List.mem_append_right _ hx)) head
  simp only [resolveEnds, hhead hsrc, hhead hdst, htail hsrc, htail hdst]

end Names

/-! ### The chain of scopes -/

theorem lookupIn_append (bindings rest : List (String × Int)) (x : String) :
    lookupIn (bindings ++ rest) x =
      match Dict.get? bindings x with
      | some value => .ok value
      | none => lookupIn rest x := by
  rw [lookupIn, Dict.get?_append]
  cases Dict.get? bindings x <;> rfl

theorem lookupIn_congr {bindings bindings' : List (String × Int)} {x : String}
    (h : Dict.get? bindings x = Dict.get? bindings' x) :
    lookupIn bindings x = lookupIn bindings' x := by
  rw [lookupIn, lookupIn, h]

theorem visible_cons (frame : Frame) (active : List Frame) :
    visible (frame :: active) = frame.bindings ++ visible active := List.flatMap_cons

def innermost (active : List Frame) : Option Nat := active.head?.map Frame.block

def outerPrefix (active : List Frame) : String :=
  match active with
  | [] => ""
  | frame :: _ => frame.nodeNamePrefix

/-- The scopes of the bodies that are being elaborated are linked and bind what the bodies do. -/
inductive Represents (scopes : Nat → Scope) : List Frame → Prop
  | nil : Represents scopes []
  | cons {frame : Frame} {active : List Frame}
      (parent : (scopes frame.block).parent = innermost active)
      (bindings : ∀ x, Dict.get? (scopes frame.block).name_to_val x = Dict.get? frame.bindings x)
      (name : joinPrefix (outerPrefix active) <$>
        (scopes frame.block).nodeNamePrefix.resolve (lookupIn (visible (frame :: active))) =
          .ok frame.nodeNamePrefix)
      (outer : Represents scopes active) : Represents scopes (frame :: active)

namespace Represents

variable {scopes scopes' : Nat → Scope} {frame : Frame} {active : List Frame}

theorem congr (h : Represents scopes active)
    (hsame : ∀ b ∈ active.map Frame.block, scopes' b = scopes b) : Represents scopes' active := by
  induction h with
  | nil => exact .nil
  | cons parent bindings name outer ih =>
      have hframe := hsame _ List.mem_cons_self
      exact .cons (by rw [hframe, parent]) (by rw [hframe]; exact bindings)
        (by rw [hframe]; exact name) (ih fun b hb => hsame b (List.mem_cons_of_mem _ hb))

theorem lookup_eq (h : Represents scopes (frame :: active)) {limit : Nat}
    (hlimit : active.length < limit) (x : String) :
    Scope.lookup scopes limit frame.block x = lookupIn (visible (frame :: active)) x := by
  induction active generalizing frame limit with
  | nil =>
      obtain ⟨limit, rfl⟩ := Nat.exists_eq_add_one.mpr hlimit
      cases h with
      | cons parent bindings name outer =>
          rw [visible_cons, lookupIn_append]
          cases hx : Dict.get? frame.bindings x with
          | none => simp [Scope.lookup, bindings, hx, parent, innermost, visible, lookupIn]
          | some value => simp [Scope.lookup, bindings, hx]
  | cons caller active ih =>
      obtain ⟨limit, rfl⟩ := Nat.exists_eq_add_one.mpr (Nat.zero_lt_of_lt hlimit)
      cases h with
      | cons parent bindings name outer =>
          have hcaller := ih outer (Nat.lt_of_succ_lt_succ hlimit)
          rw [visible_cons, lookupIn_append]
          cases hx : Dict.get? frame.bindings x with
          | none => simp [Scope.lookup, bindings, hx, parent, innermost, hcaller]
          | some value => simp [Scope.lookup, bindings, hx]

theorem getNodeNamePrefix_eq (h : Represents scopes (frame :: active)) {limit : Nat}
    (hlimit : active.length < limit) :
    Scope.getNodeNamePrefix scopes limit frame.block = .ok frame.nodeNamePrefix := by
  induction active generalizing frame limit with
  | nil =>
      obtain ⟨limit, rfl⟩ := Nat.exists_eq_add_one.mpr hlimit
      have hlookup : Scope.lookup scopes (limit + 1) frame.block = _ := funext (h.lookup_eq hlimit)
      cases h with
      | cons parent bindings name outer =>
          rw [Scope.getNodeNamePrefix, hlookup, parent, ← name]
          rfl
  | cons caller active ih =>
      obtain ⟨limit, rfl⟩ := Nat.exists_eq_add_one.mpr (Nat.zero_lt_of_lt hlimit)
      have hlookup : Scope.lookup scopes (limit + 1) frame.block = _ := funext (h.lookup_eq hlimit)
      cases h with
      | cons parent bindings name outer =>
          have hcaller := ih outer (Nat.lt_of_succ_lt_succ hlimit)
          rw [Scope.getNodeNamePrefix, hlookup, parent, ← name]
          simp only [innermost, List.head?_cons, Option.map_some, hcaller]
          rfl

end Represents

/-- The scopes bind nothing but parameters, and those of bodies in statements have no name. -/
structure Tidy (program : Program) (scopes : Nat → Scope) : Prop where
  params : ∀ b x, x ∉ (program.block b).params → Dict.get? (scopes b).name_to_val x = none
  names : ∀ block ∈ program.blocks, ∀ insn ∈ block.insns, ∀ b ∈ insn.bodies,
    (scopes b).nodeNamePrefix = .empty

/-- The generator's state between two statements, and the reference elaborator's. -/
structure Consistent (program : Program) (active : List Frame) (s : State) (gen : Generator) :
    Prop where
  gen : s.gen = gen
  tidy : Tidy program s.scopes
  represents : Represents s.scopes active

/-- The scope of a body that is about to be entered. -/
structure Ready (program : Program) (active : List Frame) (s : State) (entry : Entry) : Prop where
  fresh : entry.block ∉ active.map Frame.block
  parent : (s.scopes entry.block).parent = innermost active
  name : joinPrefix (outerPrefix active) <$>
    (s.scopes entry.block).nodeNamePrefix.resolve
      (lookupIn (visible (program.frame entry :: active))) = .ok entry.env.nodeNamePrefix

theorem mem_insns {program : Program} {id : Nat} {insn : Insn}
    (h : insn ∈ (program.block id).insns) : ∃ block ∈ program.blocks, insn ∈ block.insns := by
  rw [Program.block, List.getD_eq_getElem?_getD] at h
  cases hid : program.blocks[id]? with
  | none => simp [hid] at h
  | some block =>
      rw [hid] at h
      exact ⟨block, List.mem_of_getElem? hid, h⟩

namespace Consistent

variable {program : Program} {active : List Frame} {s : State} {gen : Generator} {b : Nat}

theorem update (h : Consistent program active s gen) (hb : b ∉ active.map Frame.block)
    {scope : Scope}
    (hparams : ∀ x, x ∉ (program.block b).params → Dict.get? scope.name_to_val x = none)
    (hname : scope.nodeNamePrefix = (s.scopes b).nodeNamePrefix ∨
      ∀ block ∈ program.blocks, ∀ insn ∈ block.insns, b ∉ insn.bodies) :
    Consistent program active ⟨Function.update s.scopes b scope, s.gen⟩ gen where
  gen := h.gen
  tidy := by
    constructor
    · intro b' x hx
      by_cases hbb : b' = b
      · subst hbb
        simpa using hparams x hx
      · simpa [hbb] using h.tidy.params b' x hx
    · intro block hblock insn hinsn b' hb'
      by_cases hbb : b' = b
      · subst hbb
        rcases hname with hname | hname
        · simpa [hname] using h.tidy.names block hblock insn hinsn b' hb'
        · exact absurd hb' (hname block hblock insn hinsn)
      · simpa [hbb] using h.tidy.names block hblock insn hinsn b' hb'
  represents := by
    refine h.represents.congr fun b' hb' => ?_
    have hbb : b' ≠ b := fun hbb => hb (hbb ▸ hb')
    exact Function.update_of_ne hbb _ _

theorem setParent (h : Consistent program active s gen) (hb : b ∉ active.map Frame.block)
    (parent : Nat) : Consistent program active (s.setParent b parent) gen :=
  h.update hb (h.tidy.params b) (.inl rfl)

theorem setNodeNamePrefix (h : Consistent program active s gen)
    (hb : b ∉ active.map Frame.block)
    (hmodule : ∀ block ∈ program.blocks, ∀ insn ∈ block.insns, b ∉ insn.bodies) (name : Name) :
    Consistent program active (s.setNodeNamePrefix b name) gen :=
  h.update hb (h.tidy.params b) (.inr hmodule)

theorem withGen (h : Consistent program active s gen) (gen' : Generator) :
    Consistent program active { s with gen := gen' } gen' :=
  ⟨rfl, h.tidy, h.represents⟩

theorem get?_bind_isSome {block : Block} {args : List Int} {x : String}
    (hargs : args.length = block.params.length) :
    (Dict.get? (block.bind args) x).isSome ↔ x ∈ block.params := by
  rw [Dict.get?_isSome_iff, Block.bind, List.map_reverse, List.mem_reverse,
    List.map_fst_zip hargs.ge]

theorem enter {entry : Entry} (h : Consistent program active s gen)
    (hentry : Ready program active s entry)
    (hargs : entry.args.length = (program.block entry.block).params.length) :
    Consistent program (program.frame entry :: active)
      (s.setParams entry.block (program.block entry.block).params entry.args) gen := by
  have hupdate : Consistent program active
      (s.setParams entry.block (program.block entry.block).params entry.args) gen := by
    refine h.update hentry.fresh (fun x hx => ?_) (.inl rfl)
    have hbind : Dict.get? ((program.block entry.block).bind entry.args) x = none := by
      rw [← Option.not_isSome_iff_eq_none, get?_bind_isSome hargs]
      exact hx
    rw [Dict.get?_setAll, ← Block.bind, hbind]
    exact h.tidy.params _ x hx
  refine ⟨hupdate.gen, hupdate.tidy, .cons ?_ (fun x => ?_) ?_ hupdate.represents⟩
  · simpa [State.setParams, Program.frame] using hentry.parent
  · have hscope : Dict.get? (s.scopes entry.block).name_to_val x = none ∨
        (Dict.get? ((program.block entry.block).bind entry.args) x).isSome := by
      rw [get?_bind_isSome hargs]
      by_cases hx : x ∈ (program.block entry.block).params
      · exact .inr hx
      · exact .inl (h.tidy.params _ x hx)
    simp only [State.setParams, Program.frame, Function.update_self, Dict.get?_setAll]
    rw [← Block.bind]
    rcases hscope with hscope | hscope
    · rw [hscope, Option.or_none]
    · rw [Option.or_of_isSome hscope]
  · simpa [State.setParams, Program.frame] using hentry.name

end Consistent

section Statements

variable {program : Program} {limit : Nat} {frame : Frame} {active : List Frame} {env : Env}
  {s : State} {gen : Generator}

theorem lookup_eq (h : Consistent program (frame :: active) s gen) (hlimit : active.length < limit)
    {names : List String}
    (hnames : ∀ x ∈ names, Dict.get? env.bindings x = Dict.get? (visible (frame :: active)) x) :
    ∀ x ∈ names, Scope.lookup s.scopes limit frame.block x = env.lookup x := by
  intro x hx
  rw [h.represents.lookup_eq hlimit]
  exact lookupIn_congr (hnames x hx).symm

theorem GenNewNode_agree (h : Consistent program (frame :: active) s gen)
    (hlimit : active.length < limit) (henv : env.nodeNamePrefix = frame.nodeNamePrefix)
    {name : Name} {type : String} {elaborate : Generator → Entry → Except Error Generator}
    (hnames : ∀ x ∈ name.names,
      Dict.get? env.bindings x = Dict.get? (visible (frame :: active)) x) :
    Agree (Consistent program (frame :: active)) (GenNewNode limit frame.block name type s)
      (program.elaborateInsn elaborate env gen (.newNode name type)) := by
  have hname := Name.resolve_congr (lookup_eq h hlimit hnames)
  rw [GenNewNode, h.represents.getNodeNamePrefix_eq hlimit, ← henv, h.gen]
  change Agree _ (name.resolve (Scope.lookup s.scopes limit frame.block) >>= _) _
  refine Agree.bind_same hname fun name' _ => ?_
  cases gen.addNode (withPrefix env.nodeNamePrefix name') type with
  | error e => exact .error e
  | ok gen' => exact .ok (h.withGen gen')

theorem GenNewLink_agree (h : Consistent program (frame :: active) s gen)
    (hlimit : active.length < limit) (henv : env.nodeNamePrefix = frame.nodeNamePrefix)
    {src dst : Ref} {attrs : List (String × AttrValue)}
    {elaborate : Generator → Entry → Except Error Generator}
    (hnames : ∀ x ∈ src.names ++ dst.names,
      Dict.get? env.bindings x = Dict.get? (visible (frame :: active)) x) :
    Agree (Consistent program (frame :: active)) (GenNewLink limit frame.block src dst attrs s)
      (program.elaborateInsn elaborate env gen (.newLink src dst attrs)) := by
  have hends := resolveEnds_congr (lookup_eq h hlimit hnames)
  rw [GenNewLink, h.represents.getNodeNamePrefix_eq hlimit, ← henv, h.gen]
  refine Agree.bind_same hends fun ends _ => ?_
  change Agree _ (gen.addLink (withPrefix env.nodeNamePrefix ends.1)
    (withPrefix env.nodeNamePrefix ends.2) attrs >>= _) _
  cases gen.addLink (withPrefix env.nodeNamePrefix ends.1) (withPrefix env.nodeNamePrefix ends.2)
      attrs with
  | error e => exact .error e
  | ok gen' => exact .ok (h.withGen gen')

theorem GenRdmaConfig_agree (h : Consistent program (frame :: active) s gen)
    (hlimit : active.length < limit) {attrs : List (String × Value)}
    {elaborate : Generator → Entry → Except Error Generator}
    (hnames : ∀ x ∈ attrs.flatMap fun attr => attr.2.names,
      Dict.get? env.bindings x = Dict.get? (visible (frame :: active)) x) :
    Agree (Consistent program (frame :: active)) (GenRdmaConfig limit frame.block attrs s)
      (program.elaborateInsn elaborate env gen (.rdmaConfig attrs)) := by
  rw [GenRdmaConfig, Program.elaborateInsn]
  induction attrs generalizing s gen with
  | nil => exact .ok h
  | cons attr attrs ih =>
      have hvalue : ∀ x ∈ attr.2.names,
          Dict.get? env.bindings x = Dict.get? (visible (frame :: active)) x :=
        fun x hx => hnames x (by simp [hx])
      have hattr := Value.resolve_congr (lookup_eq h hlimit hvalue)
      rw [List.foldlM_cons, List.foldlM_cons, hattr]
      cases attr.2.resolve env.lookup with
      | error e => exact .error e
      | ok value =>
          rw [h.gen]
          exact ih (h.withGen _) fun x hx => hnames x (List.mem_append_right _ hx)

end Statements

section Bodies

/-- The bodies that a statement enters agree. -/
def BodiesAgree (program : Program) (active : List Frame) (clean : Generator → Entry → Prop)
    (GenerateModule : Nat → List Int → State → Except Error State)
    (elaborate : Generator → Entry → Except Error Generator) : Prop :=
  ∀ entry s gen, Consistent program active s gen → Ready program active s entry →
    clean gen entry →
    Agree (fun s gen => Consistent program active s gen ∧
        (s.scopes entry.block).parent = innermost active)
      (GenerateModule entry.block entry.args s) (elaborate gen entry)

variable {program : Program} {limit : Nat} {frame : Frame} {active : List Frame} {env : Env}
  {s : State} {gen : Generator} {clean : Generator → Entry → Prop}
  {GenerateModule : Nat → List Int → State → Except Error State}
  {elaborate : Generator → Entry → Except Error Generator}

@[simp] theorem joinPrefix_empty (pre : String) : joinPrefix pre "" = pre := by simp [joinPrefix]

theorem Name.resolve_ok {name : Name} {bindings : List (String × Int)}
    (h : ∀ x ∈ name.names, (Dict.get? bindings x).isSome) :
    ∃ name', name.resolve (lookupIn bindings) = .ok name' := by
  obtain ⟨base, var⟩ := name
  cases var with
  | none => exact ⟨base, rfl⟩
  | some v =>
      obtain ⟨value, hvalue⟩ := Option.isSome_iff_exists.mp (h v (by simp [Name.names]))
      exact ⟨base ++ toString value, by simp only [Name.resolve, lookupIn, hvalue]; rfl⟩

theorem Consistent.ready_body (h : Consistent program (frame :: active) s gen) {block : Nat}
    {insn : Insn} (hinsn : insn ∈ (program.block block).insns) {body : Nat} {args : List Int}
    (hbody : body ∈ insn.bodies) (hfresh : body ∉ (frame :: active).map Frame.block)
    (hparent : (s.scopes body).parent = some frame.block)
    (henv : env.nodeNamePrefix = frame.nodeNamePrefix) :
    Ready program (frame :: active) s ⟨body, args, env⟩ where
  fresh := hfresh
  parent := hparent
  name := by
    obtain ⟨block, hblock, hinsn⟩ := mem_insns hinsn
    have hname : (s.scopes body).nodeNamePrefix = .empty :=
      h.tidy.names block hblock insn hinsn body hbody
    change _ <$> (s.scopes body).nodeNamePrefix.resolve _ = _
    rw [hname, henv]
    change Except.ok (joinPrefix frame.nodeNamePrefix "") = _
    rw [joinPrefix_empty]

theorem GenSubmodule_agree (h : Consistent program (frame :: active) s gen)
    (hlimit : active.length < limit) (henv : env.nodeNamePrefix = frame.nodeNamePrefix)
    (hbodies : BodiesAgree program (frame :: active) clean GenerateModule elaborate)
    {name : Name} {module_name : String} {args : List Value}
    (hclean : program.CleanInsn clean elaborate (frame :: active) env gen
      (.submodule name module_name args)) :
    Agree (Consistent program (frame :: active))
      (GenSubmodule program limit GenerateModule frame.block name module_name args s)
      (program.elaborateInsn elaborate env gen (.submodule name module_name args)) := by
  change Agree _ _ (program.entries env (.submodule name module_name args) >>= _)
  cases hmodule : Dict.get? program.modules module_name with
  | none =>
      simp only [GenSubmodule, Program.entries, hmodule]
      exact .error _
  | some module =>
      have hfresh : module ∉ (frame :: active).map Frame.block :=
        hclean.fresh module (by simp [Program.targets, hmodule])
      have hnotBody : ∀ block ∈ program.blocks, ∀ insn ∈ block.insns, module ∉ insn.bodies :=
        program.modules_not_bodies _ (Dict.mem_of_get? hmodule)
      have hs := (h.setParent hfresh frame.block).setNodeNamePrefix hfresh hnotBody name
      have hargs := Value.mapM_resolve_congr (lookup_eq hs hlimit hclean.names)
      simp only [GenSubmodule, Program.entries, hmodule, hargs]
      cases hresolved : args.mapM (Value.resolve env.lookup) with
      | error e => exact .error e
      | ok resolved_args =>
          have hname := hclean.asName module hmodule resolved_args hresolved
          obtain ⟨name', hname'⟩ := Name.resolve_ok fun x hx => (hname x hx).1
          let entry : Entry :=
            ⟨module, resolved_args, ⟨[], joinPrefix env.nodeNamePrefix name'⟩⟩
          have hinner : name.resolve (lookupIn (visible (program.frame entry :: frame :: active))) =
              .ok name' := by
            rw [← hname']
            exact Name.resolve_congr fun x hx => lookupIn_congr (hname x hx).2
          have hready : Ready program (frame :: active)
              ((s.setParent module frame.block).setNodeNamePrefix module name) entry := by
            refine ⟨hfresh, ?_, ?_⟩
            · simp [entry, State.setNodeNamePrefix, State.setParent, innermost]
            · simp only [entry, State.setNodeNamePrefix, Function.update_self]
              rw [hinner, henv]
              rfl
          have henter : program.entries env (.submodule name module_name args) = .ok [entry] := by
            simp only [Program.entries, hmodule, hresolved]
            change (name.resolve (lookupIn env.bindings) >>= _) = _
            rw [hname']
            rfl
          have hagree := hbodies entry _ gen hs hready (hclean.bodies _ henter).1
          simp only [Program.entries, hmodule, hresolved] at henter
          rw [henter]
          change Agree _ _ ([entry].foldlM elaborate gen)
          rw [List.foldlM_cons]
          simp only [List.foldlM_nil, bind_pure]
          exact hagree.mono fun s gen h _ => h.1

theorem GenIf_agree (h : Consistent program (frame :: active) s gen)
    (hlimit : active.length < limit) (henv : env.nodeNamePrefix = frame.nodeNamePrefix)
    (hbodies : BodiesAgree program (frame :: active) clean GenerateModule elaborate)
    {block : Nat} {left right : Value} {op : CompOp} {true_block : Nat}
    (hinsn : .cond left op right true_block ∈ (program.block block).insns)
    (hclean : program.CleanInsn clean elaborate (frame :: active) env gen
      (.cond left op right true_block)) :
    Agree (Consistent program (frame :: active))
      (GenIf limit GenerateModule frame.block left op right true_block s)
      (program.elaborateInsn elaborate env gen (.cond left op right true_block)) := by
  change Agree _ _ (program.entries env (.cond left op right true_block) >>= _)
  match left, right with
  | .quantity _ _, _ | .expr _, .quantity _ _ => exact .error _
  | .expr left, .expr right =>
      have hlookup := lookup_eq h hlimit hclean.names
      have hleft := Expr.evaluate_congr fun x hx => hlookup x (List.mem_append_left _ hx)
      have hright := Expr.evaluate_congr fun x hx => hlookup x (List.mem_append_right _ hx)
      have hfresh : true_block ∉ (frame :: active).map Frame.block :=
        hclean.fresh true_block List.mem_cons_self
      have hentries := hclean.bodies
      simp only [GenIf, Program.entries, hleft, hright, bind_assoc] at hentries ⊢
      refine Agree.bind_same rfl fun l hl => Agree.bind_same rfl fun r hr => ?_
      by_cases hholds : op.holds l r
      · have hs := h.setParent hfresh frame.block
        have hready : Ready program (frame :: active) (s.setParent true_block frame.block)
            ⟨true_block, [], env⟩ := by
          refine hs.ready_body hinsn List.mem_cons_self hfresh ?_ henv
          simp [State.setParent]
        have hbody := (hentries [⟨true_block, [], env⟩] (by
          rw [hl, hr]
          change Except.ok (if op.holds l r then _ else _) = _
          rw [if_pos hholds])).1
        rw [if_pos hholds, if_pos hholds]
        change Agree _ _ ([⟨true_block, [], env⟩].foldlM elaborate gen)
        rw [List.foldlM_cons]
        simp only [List.foldlM_nil, bind_pure]
        exact (hbodies ⟨true_block, [], env⟩ _ gen hs hready hbody).mono fun s gen h _ => h.1
      · rw [if_neg hholds, if_neg hholds]
        exact .ok h

theorem GenLoop_agree (h : Consistent program (frame :: active) s gen)
    (hlimit : active.length < limit) (henv : env.nodeNamePrefix = frame.nodeNamePrefix)
    (hbodies : BodiesAgree program (frame :: active) clean GenerateModule elaborate)
    {block : Nat} {start finish : Value} {body : Nat}
    (hinsn : .loop start finish body ∈ (program.block block).insns)
    (hclean : program.CleanInsn clean elaborate (frame :: active) env gen
      (.loop start finish body)) :
    Agree (Consistent program (frame :: active))
      (GenLoop limit GenerateModule frame.block start finish body s)
      (program.elaborateInsn elaborate env gen (.loop start finish body)) := by
  change Agree _ _ (program.entries env (.loop start finish body) >>= _)
  have hlookup := lookup_eq h hlimit hclean.names
  have hstart := Value.resolve_congr fun x hx => hlookup x (List.mem_append_left _ hx)
  have hfinish := Value.resolve_congr fun x hx => hlookup x (List.mem_append_right _ hx)
  have hfresh : body ∉ (frame :: active).map Frame.block :=
    hclean.fresh body List.mem_cons_self
  have hentries := hclean.bodies
  simp only [GenLoop, Program.entries, hstart, hfinish, bind_assoc] at hentries ⊢
  refine Agree.bind_same rfl fun first hfirst => Agree.bind_same rfl fun last hlast => ?_
  have halong := hentries ((iterations first last).map fun i => ⟨body, [i], env⟩) (by
    rw [hfirst, hlast]
    rfl)
  change Agree _ _ (((iterations first last).map fun i => (⟨body, [i], env⟩ : Entry)).foldlM
    elaborate gen)
  have hs := h.setParent hfresh frame.block
  have hparent : ((s.setParent body frame.block).scopes body).parent = some frame.block := by
    simp [State.setParent]
  -- between two iterations the scope of the body still hangs on that of the statement
  have hloop := Agree.foldlM
    (R := fun s gen => Consistent program (frame :: active) s gen ∧
      (s.scopes body).parent = some frame.block)
    (f := fun s (entry : Entry) => GenerateModule entry.block entry.args s)
    (fun s gen entry hentry hR hcl => by
      obtain ⟨i, -, rfl⟩ := List.mem_map.mp hentry
      exact hbodies _ s gen hR.1 (hR.1.ready_body hinsn List.mem_cons_self hfresh hR.2 henv) hcl)
    halong ⟨hs, hparent⟩
  rw [List.foldlM_map] at hloop
  exact hloop.mono fun s gen h _ => h.1

theorem GenerateInsn_agree (h : Consistent program (frame :: active) s gen)
    (hlimit : active.length < limit) (henv : env.nodeNamePrefix = frame.nodeNamePrefix)
    (hbodies : BodiesAgree program (frame :: active) clean GenerateModule elaborate)
    {block : Nat} {insn : Insn} (hinsn : insn ∈ (program.block block).insns)
    (hclean : program.CleanInsn clean elaborate (frame :: active) env gen insn) :
    Agree (Consistent program (frame :: active))
      (GenerateInsn program limit GenerateModule frame.block s insn)
      (program.elaborateInsn elaborate env gen insn) := by
  cases insn with
  | newNode name type => exact GenNewNode_agree h hlimit henv hclean.names
  | newLink src dst attrs => exact GenNewLink_agree h hlimit henv hclean.names
  | rdmaConfig attrs => exact GenRdmaConfig_agree h hlimit hclean.names
  | submodule name module_name args => exact GenSubmodule_agree h hlimit henv hbodies hclean
  | cond left op right true_block => exact GenIf_agree h hlimit henv hbodies hinsn hclean
  | loop start finish body => exact GenLoop_agree h hlimit henv hbodies hinsn hclean

end Bodies

/-- A body is elaborated in lockstep; the limit covers the bodies around it. -/
theorem GenerateModule_agree (program : Program) {limit depth : Nat} {active : List Frame}
    (hlimit : active.length + depth = limit) :
    BodiesAgree program active (fun gen entry => program.CleanBody depth active gen entry)
      (GenerateModule program limit depth) (program.elaborate depth) := by
  induction depth generalizing active with
  | zero => exact fun _ _ _ _ _ _ => .error _
  | succ depth ih =>
      intro entry s gen h hready hclean
      rw [GenerateModule, Program.elaborate]
      by_cases hargs : entry.args.length = (program.block entry.block).params.length
      · simp only [hargs, ne_eq, not_true_eq_false, if_false]
        have hdepth : (program.frame entry :: active).length + depth = limit := by
          rw [List.length_cons]
          omega
        have hlt : active.length < limit := by omega
        have henv : (program.inside entry).nodeNamePrefix =
            (program.frame entry).nodeNamePrefix := rfl
        have hstep : ∀ s gen, ∀ insn ∈ (program.block entry.block).insns,
            Consistent program (program.frame entry :: active) s gen →
            program.CleanInsn (program.CleanBody depth (program.frame entry :: active))
              (program.elaborate depth) (program.frame entry :: active) (program.inside entry)
              gen insn →
            Agree (Consistent program (program.frame entry :: active))
              (GenerateInsn program limit (GenerateModule program limit depth) entry.block s insn)
              (program.elaborateInsn (program.elaborate depth) (program.inside entry) gen insn) :=
          fun s gen insn hinsn h hcl => GenerateInsn_agree h hlt henv (ih hdepth) hinsn hcl
        have hfold := Agree.foldlM hstep (hclean hargs) (h.enter hready hargs)
        refine hfold.mono fun s gen h _ => ?_
        cases hrepresents : h.represents with
        | cons parent bindings name outer => exact ⟨⟨h.gen, h.tidy, outer⟩, parent⟩
      · simp only [hargs, ne_eq, not_false_eq_true, if_true]
        exact .error _

/-- Of a clean program the generator makes the topology that the program stands for. -/
theorem Generate_eq_reference (program : Program) (limit : Nat) (hclean : program.Clean limit) :
    Generate program limit = program.reference limit := by
  rw [Generate, Program.reference]
  cases hmain : Dict.get? program.modules "main" with
  | none => rfl
  | some main =>
      have hnew : Consistent program [] .new .new :=
        ⟨rfl, ⟨fun _ _ _ => rfl, fun _ _ _ _ _ _ => rfl⟩, .nil⟩
      have hready : Ready program [] .new ⟨main, [], ⟨[], ""⟩⟩ :=
        ⟨List.not_mem_nil, rfl, rfl⟩
      have hmodule := GenerateModule_agree program (Nat.zero_add limit)
        ⟨main, [], ⟨[], ""⟩⟩ .new .new hnew hready (hclean main hmain)
      have heq : Agree Eq (do
          let s ← GenerateModule program limit limit main [] .new
          return s.gen.finish) (do
          let gen ← program.elaborate limit .new ⟨main, [], ⟨[], ""⟩⟩
          return gen.finish) :=
        hmodule.bind fun s gen h => .ok (by rw [h.1.gen])
      exact heq.eq

/-- Two racks `r1` and `r2`, whose module has one parameter. -/
def racks (param : String) : Program where
  modules := [("rack", 0), ("main", 1)]
  blocks :=
    [⟨[param], [.newNode ⟨"sw", none⟩ "switch"]⟩,
      ⟨[], [.loop (.expr (.num 1)) (.expr (.num 2)) 2]⟩,
      ⟨["i"], [.submodule ⟨"r", some "i"⟩ "rack" [.expr (.num 7)]]⟩]
  modules_not_bodies := by simp [Insn.bodies]

/-- A switch `t_sw` with two more on top of it, by a use behind an if. -/
def tower : Program where
  modules := [("tower", 0), ("main", 1)]
  blocks :=
    [⟨["n"], [.newNode ⟨"sw", none⟩ "switch", .cond (.expr (.name "n")) .gt (.expr (.num 0)) 2]⟩,
      ⟨[], [.submodule ⟨"t", none⟩ "tower" [.expr (.num 2)]]⟩,
      ⟨[], [.submodule ⟨"up", none⟩ "tower" [.expr (.op .sub (.name "n") (.num 1))]]⟩]
  modules_not_bodies := by decide

theorem Generate_racks : Generate (racks "k") 5 = (racks "k").reference 5 :=
  Generate_eq_reference (racks "k") 5 (by decide)

/-- A parameter that is called as the iterator captures it; a module that is used in itself ends
up among its own parents. -/
theorem Generate_ne_reference :
    Generate (racks "i") 5 ≠ (racks "i").reference 5 ∧
      Generate (racks "i") 5 ≠ Generate (racks "k") 5 ∧
      Generate tower 9 = .error .recursionError ∧ (tower.reference 9).isOk := by
  refine ⟨by decide, by decide, by decide, by decide⟩

end CollectiveSim.Topology
